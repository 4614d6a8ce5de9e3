import Paywall.Text.Split

/-!
# Paths of files

Paths as texts. Empty parts and single points do not count. A path has a name at its end unless its
last part is a double point or nothing is left of it; `FilePath.rename?` changes that name, and
thereby drops what stands behind it.
-/

namespace Paywall.FilePath

/-- Whether a part of a path leads nowhere. -/
def isIdle (part : List Char) : Bool := part = [] || part = ['.']

/-- Changes the name at the end of a path. -/
def rename? (change : List Char → List Char) (path : String) : Option String :=
  match (Text.split '/' path.toList).reverse.dropWhile isIdle with
  | [] => none
  | name :: parts =>
    if name = ['.', '.'] then none
    else some (String.ofList (Text.join ['/'] (change name :: parts).reverse))

/-- The part of a file name in front of the last point, unless the name starts with it. -/
def stem (name : List Char) : List Char :=
  match Text.splitOnce? '.' name.reverse with
  | some (_, rest) => if rest = [] then name else rest.reverse
  | none => name

/-- The path with a further extension. -/
def withExtension? (extension : String) (path : String) : Option String :=
  rename? (fun name => name ++ '.' :: extension.toList) path

/-- The path without an extension at its very end. The point in front of it stays. -/
def withoutExtension (path : String) : String :=
  match Text.splitOnce? '.' path.toList.reverse with
  | some (extension, rest) =>
    if extension.contains '/' || rest = [] || rest.head? = some '/' then path
    else String.ofList ('.' :: rest).reverse
  | none => path

/-- The path of the temporary file for a file: the last extension is replaced by `tmp`. The old
extension goes first. Of a name like `..x` that leaves a double point, which cannot have another. -/
def temporary (path : String) : String :=
  let bare := withoutExtension path
  (rename? (fun name => stem name ++ ['.', 't', 'm', 'p']) bare).getD bare

/-- How many bytes a name may have. -/
def nameLimit : Nat := 255

/-- How many bytes a path may have. -/
def pathLimit : Nat := 4095

/-- Whether a name is too long. -/
def isLong (name : String) : Bool := nameLimit < name.utf8ByteSize

/-- What a path leads to, seen from a directory. -/
inductive Target where
  /-- A file, which need not exist. -/
  | file (name : String)
  /-- A directory. -/
  | directory
  /-- Something behind a file, as if that were a directory. -/
  | behind (name : String)
  /-- The device that is always empty. -/
  | nothing
  /-- A place outside, where nothing is. -/
  | outside
  /-- Nothing that could be read or written has such a path. -/
  | impossible
deriving DecidableEq, Repr

/-- What a path leads to from a directory that holds nothing but files. The path is given by its
steps and by whether a step is the end of it. -/
def targetIn (place steps : List String) (ended : Bool) : Target :=
  match steps with
  | [] => .directory
  | name :: rest =>
    let file := "/".intercalate (place ++ [name])
    if isLong name then .impossible
    else if rest = [] && ended then .file file
    else .behind file

/-- The directories that every system has. -/
def systemDirectories : List String :=
  ["bin", "dev", "etc", "home", "lib", "opt", "proc", "root", "run", "sbin", "srv", "sys", "tmp",
    "usr", "var"]

/-- What a path from the root leads to. Of the system little is known: the directories in the root,
the null device, and that `tmp` holds no directories. -/
def systemTarget (ended : Bool) (steps : List String) : Target :=
  match steps with
  | [] => .directory
  | ".." :: rest => systemTarget ended rest
  | name :: rest =>
    if !systemDirectories.contains name then
      if isLong name then .impossible else .outside
    else match rest with
      | [] => .directory
      | ".." :: rest => systemTarget ended rest
      | next :: further =>
        if name = "tmp" then targetIn ["", "tmp"] (next :: further) ended
        else if name = "dev" && next = "null" then
          if further = [] && ended then .nothing else .impossible
        else if isLong next then .impossible
        else .outside

/-- What a path leads to. A file above the directory has a name that leads there. -/
def target (path : String) : Target :=
  let parts := Text.split '/' path.toList
  let steps := parts.filter fun part => !isIdle part
  let ended := parts.getLast? = steps.getLast?
  let steps := steps.map String.ofList
  let ups := steps.takeWhile (· = "..")
  if path = "" then .outside
  else if pathLimit < path.utf8ByteSize || path.toList.contains '\x00' then .impossible
  else if path.toList.head? = some '/' then systemTarget ended steps
  else targetIn ups (steps.drop ups.length) ended

end Paywall.FilePath
