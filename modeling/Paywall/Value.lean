import Paywall.Table
import Paywall.Text.Split

/-!
# Values

What event parameters, user attributes and device attributes hold. Maps may be nested and are walked
by paths such as `profile.level`.
-/

namespace Paywall

/-- A value of a closed set of types. -/
inductive Value where
  | list (items : List Value)
  | map (entries : List (String × Value))
  | int (n : Int64)
  | uint (n : UInt64)
  | float (x : Float)
  | string (s : String)
  | bytes (data : List UInt8)
  | bool (b : Bool)
  /-- Milliseconds from 1970-01-01. -/
  | timestamp (ms : Int64)
  | null

namespace Value

instance : Inhabited Value := ⟨.null⟩

mutual

/-- Equality of type and content. Doubles are compared as numbers. -/
def beq : Value → Value → Bool
  | .list as, .list bs => beqItems as bs
  | .map as, .map bs => beqEntries as bs
  | .int a, .int b => a == b
  | .uint a, .uint b => a == b
  | .float a, .float b => a == b
  | .string a, .string b => a == b
  | .bytes a, .bytes b => a == b
  | .bool a, .bool b => a == b
  | .timestamp a, .timestamp b => a == b
  | .null, .null => true
  | _, _ => false

/-- Equality of lists. -/
def beqItems : List Value → List Value → Bool
  | [], [] => true
  | a :: as, b :: bs => beq a b && beqItems as bs
  | _, _ => false

/-- Equality of map entries. -/
def beqEntries : List (String × Value) → List (String × Value) → Bool
  | [], [] => true
  | (k, a) :: as, (l, b) :: bs => k == l && beq a b && beqEntries as bs
  | _, _ => false

end

instance : BEq Value := ⟨beq⟩

/-- The map with the entries of a table. -/
def ofTable (t : Table Value) : Value := .map t.entries

/-- A text, or null. -/
def ofText? : Option String → Value
  | some s => .string s
  | none => .null

/-- A truth value. -/
def bool? : Value → Option Bool
  | .bool b => some b
  | _ => none

/-- A text. -/
def text? : Value → Option String
  | .string s => some s
  | _ => none

/-- The number that comparisons see: the nearest double. A timestamp counts as its milliseconds. -/
def number? : Value → Option Float
  | .int n | .timestamp n => some (Float.ofInt n.toInt)
  | .uint n => some (Float.ofNat n.toNat)
  | .float x => some x
  | _ => none

/-- Whether the value is null. -/
def isNull : Value → Bool
  | .null => true
  | _ => false

/-- The value under a key of a map. -/
def get? (key : String) : Value → Option Value
  | .map entries => Entries.find? key entries
  | _ => none

/-- Walks from map to map along a list of keys. -/
def walk? (v : Value) : List String → Option Value
  | [] => some v
  | key :: keys => (v.get? key).bind fun w => w.walk? keys

/-- Walks along a dotted path. -/
def path? (v : Value) (path : String) : Option Value := v.walk? (Text.segments path)

end Value

end Paywall
