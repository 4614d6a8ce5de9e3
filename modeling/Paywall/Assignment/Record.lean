import Paywall.Campaign.Codec
import Paywall.Folder
import Paywall.Json.Reader
import Paywall.Json.Writer

/-!
# The lasting record of confirmed assignments

`Record` is the record as a store sees it: it can be loaded and replaced, and either may fail. A
failed save leaves it as it was. `Record.text` and `Record.read?` are its form as a file of JSON.
-/

namespace Paywall

/-- The record of confirmed assignments. -/
structure Record where
  stored : Assignments
  /-- How often the record has been replaced. -/
  saves : Nat
  /-- Why saving fails for now. -/
  saveFault : Option String
  /-- Why loading fails for now. -/
  loadFault : Option String
deriving DecidableEq

namespace Record

/-- A record that works. -/
def ofStored (a : Assignments) : Record := ⟨a, 0, none, none⟩

/-- Reads the record. -/
def load (r : Record) : Except String Assignments :=
  match r.loadFault with
  | none => .ok r.stored
  | some reason => .error reason

/-- Replaces the record. -/
def save (r : Record) (a : Assignments) : Except String Record :=
  match r.saveFault with
  | none => .ok { r with stored := a, saves := r.saves + 1 }
  | some reason => .error reason

/-- The record as text: an object of variants in the order of their experiments. -/
def text (a : Assignments) : String := (Assignments.toJson a).pretty

/-- Reads the text of a record. -/
def read? (text : String) : Option Assignments := (Json.parse? text).bind Assignments.ofJson?

/-- The assignments in a file. No file is an empty record. -/
def ofContent? : Content → Option Assignments
  | .text s => read? s
  | .absent => some ∅
  | .unreadable => none

/-- The record in a file. -/
def ofContent (content : Content) : Record where
  stored := (ofContent? content).getD ∅
  saves := 0
  saveFault := none
  loadFault := if (ofContent? content).isSome then none else some "the file cannot be read"

end Record

end Paywall
