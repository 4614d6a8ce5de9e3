import Paywall.Table

/-!
# JSON values

A number is whole or a double: `1` and `1.0` are different values. The members of an object stand as
they were written, so a text with a repeated key can be told from one without; `Json.canonical?`
sorts them, keeps the last of equal keys and refuses what has no meaning.
-/

namespace Paywall

/-- A JSON value. -/
inductive Json where
  | null
  | bool (b : Bool)
  /-- A number without fraction and exponent, of at most 64 bits. -/
  | int (n : Int)
  /-- Any other number. -/
  | float (x : Float)
  | string (s : String)
  | array (items : List Json)
  | object (members : List (String × Json))
  /-- A well-formed piece of text without a meaning: a number beyond the range of doubles, a text
  with half a surrogate pair, a container nested too deeply. It may stand only where nobody looks.
  -/
  | unreadable

namespace Json

instance : Inhabited Json := ⟨.null⟩

mutual

/-- Equality of values in canonical form. Doubles are compared as numbers, so `0.0` is `-0.0`. -/
def beq : Json → Json → Bool
  | .null, .null => true
  | .bool a, .bool b => a == b
  | .int a, .int b => a == b
  | .float a, .float b => a == b
  | .string a, .string b => a == b
  | .array as, .array bs => beqItems as bs
  | .object as, .object bs => beqMembers as bs
  | _, _ => false

/-- Equality of lists of values. -/
def beqItems : List Json → List Json → Bool
  | [], [] => true
  | a :: as, b :: bs => beq a b && beqItems as bs
  | _, _ => false

/-- Equality of lists of members. -/
def beqMembers : List (String × Json) → List (String × Json) → Bool
  | [], [] => true
  | (k, a) :: as, (l, b) :: bs => k == l && beq a b && beqMembers as bs
  | _, _ => false

end

instance : BEq Json := ⟨beq⟩

mutual

/-- The value with the members of all objects in the order of their keys, the last of equal keys
kept; `none` if some part of it is unreadable. -/
def canonical? : Json → Option Json
  | .array items => (canonicalItems? items).map .array
  | .object members => (canonicalMembers? members).map fun ms => .object (Entries.sort ms)
  | .unreadable => none
  | j => some j

/-- `canonical?` for the items of an array. -/
def canonicalItems? : List Json → Option (List Json)
  | [] => some []
  | j :: rest => do
    let j ← canonical? j
    let rest ← canonicalItems? rest
    some (j :: rest)

/-- `canonical?` for the members of an object, in the order given. -/
def canonicalMembers? : List (String × Json) → Option (List (String × Json))
  | [] => some []
  | (k, j) :: rest => do
    let j ← canonical? j
    let rest ← canonicalMembers? rest
    some ((k, j) :: rest)

end

/-- Whether every part of the value has a meaning. -/
def readable (j : Json) : Bool := (canonical? j).isSome

/-- A text, or null. -/
def ofText? : Option String → Json
  | some s => .string s
  | none => .null

/-- A double, or null if it is not finite. -/
def ofFloat (x : Float) : Json := if x.isFinite then .float x else .null

/-- An object with the entries of a table. -/
def ofTable {α : Type} (encode : α → Json) (t : Table α) : Json :=
  .object (t.entries.map fun e => (e.1, encode e.2))

/-- An array of encoded values. -/
def ofList {α : Type} (encode : α → Json) (xs : List α) : Json := .array (xs.map encode)

/-- An encoded value, or null. -/
def ofOption {α : Type} (encode : α → Json) : Option α → Json
  | some a => encode a
  | none => .null

end Json

end Paywall
