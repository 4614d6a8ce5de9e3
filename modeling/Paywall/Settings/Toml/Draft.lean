import Paywall.Settings.Tree

/-!
# Drafts of a document

A document of TOML builds up a table from statements. What may still be added to a table depends on
how it came about, so the draft of a table remembers that: `Draft.assign?`, `Draft.openTable?` and
`Draft.openElement?` refuse a statement that defines something twice.
-/

namespace Paywall.Settings.Toml

/-- How a table came about. -/
inductive Origin where
  /-- It has a header of its own. -/
  | header
  /-- It stands on the way to a table with a header. -/
  | passed
  /-- It was made by a key with points. -/
  | dotted
deriving DecidableEq, Repr

/-- A part of a draft. -/
inductive Part where
  /-- A value, which is complete. -/
  | value (t : Tree)
  | table (origin : Origin) (members : List (String × Part))
  /-- An array of tables, the latest first. -/
  | tables (elements : List (List (String × Part)))

/-- The members of a table that is being built. -/
abbrev Draft := Entries Part

namespace Draft

/-- Changes the table at a path, which starts at a table of the given origin. On the way tables are
made as needed, and of an array of tables the latest element counts. A key with points may not lead
through a table that has a header. -/
def change? (dotted : Bool) (act : Origin → Draft → Option Draft) :
    List String → Origin → Draft → Option Draft
  | [], origin, draft => act origin draft
  | key :: path, _, draft =>
    match draft.find? key with
    | none => do
      let origin := if dotted then .dotted else .passed
      return draft.insert key (.table origin (← change? dotted act path origin []))
    | some (.value _) => none
    | some (.table origin members) =>
      if dotted && origin = .header then none
      else do
        return draft.insert key (.table origin (← change? dotted act path origin members))
    | some (.tables []) => none
    | some (.tables (latest :: earlier)) => do
      return draft.insert key (.tables ((← change? dotted act path .header latest) :: earlier))

/-- Adds a value to a table under a key that is new. -/
def add? (key : String) (t : Tree) (draft : Draft) : Option Draft :=
  if (draft.find? key).isSome then none else some (draft.insert key (.value t))

/-- Assigns a value to a key, which may lead through further tables, in the table with a header. -/
def assign? (header key : List String) (t : Tree) (draft : Draft) : Option Draft := do
  let last ← key.getLast?
  let path := key.dropLast
  let act (origin : Origin) (draft : Draft) : Option Draft :=
    if path ≠ [] ∧ origin ≠ .dotted then none else draft.add? last t
  change? false (fun origin draft => change? true act path origin draft) header .header draft

/-- Gives a table its header. -/
def openTable? (header : List String) (draft : Draft) : Option Draft := do
  let last ← header.getLast?
  let act (_ : Origin) (draft : Draft) : Option Draft :=
    match draft.find? last with
    | none => some (draft.insert last (.table .header []))
    | some (.table .passed members) => some (draft.insert last (.table .header members))
    | some _ => none
  change? false act header.dropLast .header draft

/-- Adds an element to an array of tables. -/
def openElement? (header : List String) (draft : Draft) : Option Draft := do
  let last ← header.getLast?
  let act (_ : Origin) (draft : Draft) : Option Draft :=
    match draft.find? last with
    | none => some (draft.insert last (.tables [[]]))
    | some (.tables elements) => some (draft.insert last (.tables ([] :: elements)))
    | some _ => none
  change? false act header.dropLast .header draft

mutual

/-- The members of a finished table. -/
def trees : List (String × Part) → List (String × Tree)
  | [] => []
  | (key, part) :: rest => (key, tree part) :: trees rest

/-- A finished part. -/
def tree : Part → Tree
  | .value t => t
  | .table _ members => .table (trees members)
  | .tables elements => .list (elementTrees elements).reverse

/-- The elements of a finished array of tables, the latest first. -/
def elementTrees : List (List (String × Part)) → List Tree
  | [] => []
  | members :: rest => .table (trees members) :: elementTrees rest

end

end Draft

end Paywall.Settings.Toml
