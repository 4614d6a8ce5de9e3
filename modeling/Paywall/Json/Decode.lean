import Paywall.Json
import Paywall.Text.Numeral

/-!
# Decoding JSON values

A decoder is a function `Json → Option α`. A record is an object or the array of its fields in
order; members that are no fields are not looked at, a field given twice is refused. A field may
have a default, which stands in only for a missing field, never for a null.
-/

namespace Paywall.Json

open Paywall.Text (fitsInt64 fitsUInt64)

/-- A text. -/
def text? : Json → Option String
  | .string s => some s
  | _ => none

/-- A truth value. -/
def bool? : Json → Option Bool
  | .bool b => some b
  | _ => none

/-- A whole number. -/
def int? : Json → Option Int
  | .int n => some n
  | _ => none

/-- A signed number of 64 bits. -/
def int64? (j : Json) : Option Int64 := do
  let n ← j.int?
  if fitsInt64 n then some (Int64.ofInt n) else none

/-- An unsigned number of 64 bits. -/
def uint64? (j : Json) : Option UInt64 := do
  let n ← j.int?
  if fitsUInt64 n then some (UInt64.ofNat n.toNat) else none

/-- An unsigned number of 32 bits. -/
def uint32? (j : Json) : Option UInt32 := do
  let n ← j.int?
  if 0 ≤ n ∧ n < 4294967296 then some (UInt32.ofNat n.toNat) else none

/-- A double. A whole number is read as the nearest one. -/
def float? : Json → Option Float
  | .int n => some (Float.ofInt n)
  | .float x => some x
  | _ => none

/-- Either null or what `decode` reads. -/
def nullable? {α : Type} (decode : Json → Option α) : Json → Option (Option α)
  | .null => some none
  | j => (decode j).map some

/-- An array of what `decode` reads. -/
def list? {α : Type} (decode : Json → Option α) : Json → Option (List α)
  | .array items => items.mapM decode
  | _ => none

/-- An object as a table of what `decode` reads. Of equal keys the last counts. -/
def table? {α : Type} (decode : Json → Option α) : Json → Option (Table α)
  | .object members =>
    (members.mapM fun m => (decode m.2).map fun a => (m.1, a)).map Table.ofList
  | _ => none

/-- A name out of a fixed list: a text, or an object whose only member has that key and is null. -/
def name? : Json → Option String
  | .string s => some s
  | .object [(k, .null)] => some k
  | _ => none

/-- The fields of a record that are given. -/
def fields? (names : List String) : Json → Option (Entries Json)
  | .object members =>
    let known := members.filter fun m => names.contains m.1
    if (known.map (·.1)).Nodup then some known else none
  | .array items => if items.length ≤ names.length then some (names.zip items) else none
  | _ => none

/-- A field that must be given. -/
def required {α : Type} (fields : Entries Json) (name : String) (decode : Json → Option α) :
    Option α :=
  (fields.find? name).bind decode

/-- A field that may be missing. -/
def optional {α : Type} (fields : Entries Json) (name : String) (default : α)
    (decode : Json → Option α) : Option α :=
  match fields.find? name with
  | some j => decode j
  | none => some default

/-- A member of an object, or null if there is none. -/
def member (name : String) : Json → Json
  | .object members => (Entries.find? name members).getD .null
  | _ => .null

end Paywall.Json
