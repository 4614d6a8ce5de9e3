import Paywall.Value
import Paywall.Json
import Paywall.Text.Base64
import Paywall.Text.Numeral

/-!
# Values and plain JSON

Plain JSON carries no types. A number without fraction becomes a signed number if it fits 64 bits,
else an unsigned one; every other number is a double. In the other direction bytes become text in
base 64, timestamps their milliseconds, and a double that is not finite becomes null.
-/

namespace Paywall.Value

open Paywall.Text (fitsInt64 fitsUInt64)

mutual

/-- The plain JSON of a value. -/
def toPlain : Value → Json
  | .list items => .array (toPlainItems items)
  | .map entries => .object (toPlainEntries entries)
  | .int n | .timestamp n => .int n.toInt
  | .uint n => .int n.toNat
  | .float x => .ofFloat x
  | .string s => .string s
  | .bytes data => .string (Text.Base64.encode data)
  | .bool b => .bool b
  | .null => .null

/-- The plain JSON of the items of a list. -/
def toPlainItems : List Value → List Json
  | [] => []
  | v :: rest => toPlain v :: toPlainItems rest

/-- The plain JSON of the entries of a map. -/
def toPlainEntries : List (String × Value) → List (String × Json)
  | [] => []
  | (k, v) :: rest => (k, toPlain v) :: toPlainEntries rest

end

/-- The value of a whole number. -/
def ofInt (n : Int) : Value :=
  if fitsInt64 n then .int (Int64.ofInt n)
  else if fitsUInt64 n then .uint (UInt64.ofNat n.toNat)
  else .float (Float.ofInt n)

mutual

/-- The value of plain JSON; `none` if some part of it is unreadable. -/
def ofPlain? : Json → Option Value
  | .null => some .null
  | .bool b => some (.bool b)
  | .int n => some (ofInt n)
  | .float x => some (.float x)
  | .string s => some (.string s)
  | .array items => (ofPlainItems? items).map .list
  | .object members => (ofPlainMembers? members).map fun entries => .map (Entries.sort entries)
  | .unreadable => none

/-- The values of the items of an array. -/
def ofPlainItems? : List Json → Option (List Value)
  | [] => some []
  | j :: rest => do
    let v ← ofPlain? j
    let rest ← ofPlainItems? rest
    some (v :: rest)

/-- The values of the members of an object, in the order given. -/
def ofPlainMembers? : List (String × Json) → Option (List (String × Value))
  | [] => some []
  | (k, j) :: rest => do
    let v ← ofPlain? j
    let rest ← ofPlainMembers? rest
    some ((k, v) :: rest)

end

end Paywall.Value
