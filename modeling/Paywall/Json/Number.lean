import Paywall.Json
import Paywall.Text.Numeral

/-!
# Numbers of JSON text

A number without fraction and exponent is whole if it fits 64 bits and is not `-0`. Any other is a
double, and it is computed in the arithmetic of doubles: the leading digits that fit 64 bits are
multiplied with a power of ten or divided by one. Each of these steps rounds, so the result need not
be the double nearest to the text. A number that gets too large is unreadable.
-/

namespace Paywall.Json

open Paywall.Text (digit? fitsInt64 fitsUInt64)

/-- Appends digits to a number while it fits 64 bits. Also gives the digits that are left. -/
def takeDigits (n : Nat) : List Char → Nat × List Char
  | [] => (n, [])
  | c :: cs =>
    let m := n * 10 + (digit? c).getD 0
    if fitsUInt64 m then takeDigits m cs else (n, c :: cs)

/-- A power of ten as the nearest double. -/
def powerOfTen (e : Nat) : Float := Float.ofScientific 1 false e

/-- The largest exponent of a power of ten that is a double. -/
def largestPower : Nat := 308

/-- `x · 10 ^ e`; `none` if it is too large. A power that is no double is applied in two steps. -/
def scale? (x : Float) (e : Int) : Option Float :=
  if 0 ≤ e then
    if x == 0.0 then some x
    else if e ≤ largestPower then
      let y := x * powerOfTen e.toNat
      if y.isFinite then some y else none
    else none
  else
    let n := e.natAbs
    if n ≤ largestPower then some (x / powerOfTen n)
    else if n ≤ 2 * largestPower then
      some (x / powerOfTen largestPower / powerOfTen (n - largestPower))
    else some 0.0

/-- The double that digits before and behind a point and an exponent stand for. Digits in front of
the point that do not fit count as zeros; behind the point they are dropped. -/
def ofDigits (negative : Bool) (whole fraction : List Char) (e : Int) : Json :=
  let (n, wholeLeft) := takeDigits 0 whole
  let (n, fractionLeft) := takeDigits n fraction
  let shift : Int := (wholeLeft.length : Int) - (fraction.length - fractionLeft.length : Nat)
  match scale? (Float.ofNat n) (e + shift) with
  | some x => .float (if negative then -x else x)
  | none => .unreadable

/-- The value of a number without fraction and exponent. -/
def ofWhole (negative : Bool) (whole : List Char) : Json :=
  let (n, left) := takeDigits 0 whole
  let z : Int := if negative then -(n : Int) else n
  if left = [] ∧ (fitsInt64 z || fitsUInt64 z) ∧ ¬(negative ∧ n = 0) then .int z
  else ofDigits negative whole [] 0

end Paywall.Json
