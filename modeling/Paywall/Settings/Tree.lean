import Paywall.Settings
import Paywall.Settings.Path
import Paywall.Text.LowerCase
import Paywall.Text.Shortest

/-!
# Trees of settings

A settings file and a set of variables are both read into a `Tree`. Trees are laid over each other
key by key, and keys do not distinguish upper from lower case. `Tree.format` reads settings out of a
tree and is lenient: a flag may be a number, a text may be a flag, a section may be a list of its
fields in order.
-/

namespace Paywall.Settings

/-- A tree of settings. -/
inductive Tree where
  /-- An item of a list in front of one that has been set. -/
  | unset
  | flag (b : Bool)
  | integer (n : Int64)
  | number (x : Float)
  | text (s : String)
  | list (items : List Tree)
  | table (members : List (String × Tree))

namespace Tree

instance : Inhabited Tree := ⟨.unset⟩

/-- The members of a table; nothing else has any. -/
def members : Tree → Entries Tree
  | .table members => members
  | _ => []

/-- The items of a list; nothing else has any. -/
def items : Tree → List Tree
  | .list items => items
  | _ => []

/-- Puts a subtree under a key. What is no table becomes one. -/
def put (t : Tree) (key : String) (sub : Tree) : Tree := .table (t.members.insert key sub)

/-- The subtree under a key, or an empty table. -/
def child (t : Tree) (key : String) : Tree := (t.members.find? key).getD (.table [])

mutual

/-- Lays a tree over another: tables are joined key by key, anything else replaces what is below. -/
def merge : Tree → Tree → Tree
  | .table members, base => mergeMembers members base
  | t, _ => t

/-- Lays the members of a table over a tree, one after the other. -/
def mergeMembers : List (String × Tree) → Tree → Tree
  | [], base => base
  | (key, sub) :: rest, base =>
    let key := Text.lower key
    mergeMembers rest (base.put key (merge sub (base.child key)))

end

/-- The place of an item in a list of a given length; `none` in front of the first. -/
def place? (length : Nat) (index : Int) : Option Nat :=
  if 0 ≤ index then some index.toNat
  else if index.natAbs ≤ length then some (length - index.natAbs) else none

/-- Changes an item. What is no list becomes one, and a list that is too short is filled up. -/
def changeItem? (change? : Tree → Option Tree) (index : Int) (t : Tree) : Option Tree := do
  let place ← place? t.items.length index
  let items := t.items ++ List.replicate (place + 1 - t.items.length) .unset
  return .list (items.set place (← change? (items.getD place .unset)))

/-- Lays a tree over what stands at a path; an item of a list is replaced instead. -/
def mergeAt? : Path → Tree → Tree → Option Tree
  | [], sub, base => some (merge sub base)
  | [.key name], sub, base => some (mergeMembers [(name, sub)] base)
  | [.item index], sub, base => base.changeItem? (fun _ => some sub) index
  | .key name :: path, sub, base =>
    let key := Text.lower name
    (mergeAt? path sub (base.child key)).map fun t => base.put key t
  | .item index :: path, sub, base => base.changeItem? (mergeAt? path sub) index

/-- Lays values, each at the path of its key, over a tree; `none` if a path leads nowhere. -/
def overlay? (base : Tree) (values : List (List Char × Tree)) : Option Tree :=
  values.foldlM (fun t (key, sub) => mergeAt? (.ofKey key) sub t) base

/-- The flag that a word stands for. -/
def flagWord? (s : String) : Option Bool :=
  match s.toLower with
  | "true" | "on" | "yes" => some true
  | "false" | "off" | "no" => some false
  | _ => none

/-- The text of a scalar. -/
def text? : Tree → Option String
  | .flag b => some (if b then "true" else "false")
  | .integer n => some (toString n)
  | .number x => some (String.ofList (Text.Shortest.plain x))
  | .text s => some s
  | .unset | .list _ | .table _ => none

/-- The flag that a scalar stands for: a number stands for whether it differs from zero. -/
def flag? : Tree → Option Bool
  | .flag b => some b
  | .integer n => some (n != 0)
  | .number x => some (x != 0.0)
  | .text "1" => some true
  | .text "0" => some false
  | .text s => flagWord? s
  | .unset | .list _ | .table _ => none

/-- The whole number nearest to a double, a half away from zero, within the range of `UInt64`.
What is not a number counts as zero. -/
def nearestUInt64 (x : Float) : UInt64 :=
  let (negative, m, q) := Text.Shortest.decode x
  let top : Nat := 18446744073709551615
  if x.isNaN || negative then 0
  else if x.isInf then UInt64.ofNat top
  else
    let n := if 0 ≤ q then m * Nat.pow 2 q.toNat
      else
        let d := Nat.pow 2 (-q).toNat
        (2 * m + d) / (2 * d)
    UInt64.ofNat (min n top)

/-- The seed that a scalar stands for. -/
def seed? : Tree → Option UInt64
  | .flag b => some (if b then 1 else 0)
  | .integer n => if 0 ≤ n then some (UInt64.ofInt n.toInt) else none
  | .number x => some (nearestUInt64 x)
  | .text s =>
    match flagWord? s with
    | some b => some (if b then 1 else 0)
    | none => Text.readUInt64? s.toList
  | .unset | .list _ | .table _ => none

/-- The fields of a section: the members of a table, or the items of a list in order. -/
def fields? (names : List String) : Tree → Option (Entries Tree)
  | .table members => some members
  | .list items => some (names.zip items)
  | _ => none

/-- Reads a setting that may be declared absent. -/
def optional? {α : Type} (read? : Tree → Option α) : Tree → Option (Option α)
  | .unset => some none
  | t => (read? t).map some

/-- Reading settings out of a tree. -/
def format : Format Tree where
  fields? := fields?
  text? := text?
  optionalText? := optional? text?
  flag? := flag?
  optionalSeed? := optional? seed?

end Tree

end Paywall.Settings
