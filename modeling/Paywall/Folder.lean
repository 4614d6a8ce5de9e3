import Paywall.FilePath
import Paywall.Table

/-!
# A directory

A `Folder` holds the files of one directory and those that have been put above it. There are no
other directories. `Files` is what programs may do with files, in any monad that can do it; a folder
is one way.
-/

namespace Paywall

/-- What reading a file gives. -/
inductive Content where
  | text (s : String)
  /-- There is no such file. -/
  | absent
  /-- There is something, but no file that can be read. -/
  | unreadable
deriving DecidableEq, Repr

/-- The text that was read. -/
def Content.text? : Content → Option String
  | .text s => some s
  | .absent | .unreadable => none

/-- Files that can be read and be replaced as a whole. -/
class Files (m : Type → Type) where
  read : String → m Content
  /-- Replaces the file at a path by a text; whether it could be done. -/
  replace : String → String → m Bool

/-- The files of a directory, by name. -/
abbrev Folder := Table String

namespace Folder

/-- The names of the files in the directory itself. -/
def names (folder : Folder) : List String :=
  folder.keys.filter fun name => !name.toList.contains '/'

/-- Reads the file at a path. -/
def read (folder : Folder) (path : String) : Content :=
  match FilePath.target path with
  | .file name =>
    match folder.get? name with
    | some text => .text text
    | none => .absent
  | .directory | .impossible => .unreadable
  | .behind name => if folder.contains name then .unreadable else .absent
  | .nothing => .text ""
  | .outside => .absent

/-- Replaces the file at a path as a whole: the text goes to a temporary file next to it, which then
takes its name. If it cannot take that name it is left behind. -/
def replace (folder : Folder) (path text : String) : Bool × Folder :=
  match FilePath.target (FilePath.temporary path) with
  | .file temporary =>
    let written := folder.insert temporary text
    match FilePath.target path with
    | .file name => (true, (written.erase temporary).insert name text)
    | _ => (false, written)
  | _ => (false, folder)

instance : Files (StateM Folder) where
  read path := fun folder => (folder.read path, folder)
  replace path text := fun folder => folder.replace path text

end Folder

end Paywall
