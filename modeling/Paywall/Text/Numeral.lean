/-!
# Numbers written in decimal

`readInt64?` reads a whole number of 64 bits, `readFloat?` a double: digits with an optional point
on either side and an optional exponent, or one of the words for infinity and for a value that is
not a number. A double is the one nearest to the decimal, with ties to even.
-/

namespace Paywall.Text

/-- The value of an ASCII digit. -/
def digit? (c : Char) : Option Nat :=
  if '0' ≤ c ∧ c ≤ '9' then some (c.toNat - 48) else none

/-- Whether `c` is an ASCII digit. -/
def isDigit (c : Char) : Bool := (digit? c).isSome

/-- The value of a hexadecimal digit. -/
def hexDigit? (c : Char) : Option Nat :=
  if '0' ≤ c ∧ c ≤ '9' then some (c.toNat - 48)
  else if 'a' ≤ c ∧ c ≤ 'f' then some (c.toNat - 87)
  else if 'A' ≤ c ∧ c ≤ 'F' then some (c.toNat - 55)
  else none

/-- The number that a run of digits denotes, in front of which `acc` has been read. -/
def digitsValue (acc : Nat) : List Char → Nat
  | [] => acc
  | c :: cs => digitsValue (acc * 10 + (digit? c).getD 0) cs

/-- The number written by `cs`, when `cs` consists of one or more digits. -/
def readNat? (cs : List Char) : Option Nat :=
  if cs ≠ [] ∧ cs.all isDigit then some (digitsValue 0 cs) else none

/-- Splits off an optional sign. The flag says whether it was a minus. -/
def splitSign : List Char → Bool × List Char
  | '-' :: cs => (true, cs)
  | '+' :: cs => (false, cs)
  | cs => (false, cs)

/-- A whole number with an optional sign. -/
def readInt? (cs : List Char) : Option Int :=
  let (negative, digits) := splitSign cs
  (readNat? digits).map fun n => if negative then -(n : Int) else n

/-- Whether `n` is a signed number of 64 bits. -/
def fitsInt64 (n : Int) : Bool := -9223372036854775808 ≤ n && n ≤ 9223372036854775807

/-- Whether `n` is an unsigned number of 64 bits. -/
def fitsUInt64 (n : Int) : Bool := 0 ≤ n && n ≤ 18446744073709551615

/-- A whole number with an optional sign, in the range of `Int64`. -/
def readInt64? (cs : List Char) : Option Int64 := do
  let n ← readInt? cs
  if fitsInt64 n then some (Int64.ofInt n) else none

/-- A whole number without a minus, in the range of `UInt64`. -/
def readUInt64? (cs : List Char) : Option UInt64 := do
  let n ← readNat? (match cs with | '+' :: cs => cs | cs => cs)
  if fitsUInt64 n then some (UInt64.ofNat n) else none

/-- A decimal number: `± mantissa · 10 ^ exponent`. -/
structure Decimal where
  /-- Whether a minus stands in front. -/
  negative : Bool
  /-- The digits, as a whole number. -/
  mantissa : Nat
  /-- The power of ten. -/
  exponent : Int
deriving DecidableEq, Repr

/-- The nearest double; beyond the range it is an infinity. -/
def Decimal.toFloat (d : Decimal) : Float :=
  let magnitude := Float.ofScientific d.mantissa (d.exponent < 0) d.exponent.natAbs
  if d.negative then -magnitude else magnitude

/-- An exponent: a sign and digits. -/
def readExponent? (cs : List Char) : Option Int := readInt? cs

/-- The decimal with the given digits before and after the point. -/
def Decimal.ofDigits (negative : Bool) (whole fraction : List Char) (exponent : Int) : Decimal :=
  ⟨negative, digitsValue 0 (whole ++ fraction), exponent - fraction.length⟩

/-- Digits with an optional point on either side, at least one digit, and an optional exponent. -/
def readUnsigned? (negative : Bool) (cs : List Char) : Option Decimal :=
  let (whole, rest) := cs.span isDigit
  let (fraction, rest) := match rest with
    | '.' :: rest => rest.span isDigit
    | rest => ([], rest)
  if whole = [] ∧ fraction = [] then none
  else match rest with
    | [] => some (.ofDigits negative whole fraction 0)
    | c :: rest =>
      if c = 'e' ∨ c = 'E' then (readExponent? rest).map (.ofDigits negative whole fraction)
      else none

/-- The positive infinity. -/
def infinity : Float := 1.0 / 0.0

/-- A value that is not a number. -/
def notANumber : Float := 0.0 / 0.0

/-- The words that denote a double, in lower case. -/
def readWord? (cs : List Char) : Option Float :=
  match String.ofList (cs.map Char.toLower) with
  | "inf" | "infinity" => some infinity
  | "nan" => some notANumber
  | _ => none

/-- A double in decimal notation. -/
def readFloat? (cs : List Char) : Option Float :=
  let (negative, rest) := splitSign cs
  match readWord? rest with
  | some x => some (if negative then -x else x)
  | none => (readUnsigned? negative rest).map Decimal.toFloat

end Paywall.Text
