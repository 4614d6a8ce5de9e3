/-!
# The shortest decimal of a double

`shortest tie m q` is a decimal with the fewest digits among those that the double `m · 2 ^ q` is
nearest to, and among these the one closest to it; `tie` says which one if there are two. It is
found on the grids of 1, 2, … 17 digits, where only the two neighbours of the value have to be
tried, in exact arithmetic on whole numbers.

`render` and `plain` are two ways to write a double. They differ in the notation and in the tie.
-/

namespace Paywall.Text.Shortest

/-- A positive fraction. -/
structure Ratio where
  /-- Numerator. -/
  num : Nat
  /-- Denominator, not zero. -/
  den : Nat

/-- `n · b ^ e`. -/
def Ratio.scaled (n b : Nat) (e : Int) : Ratio :=
  if 0 ≤ e then ⟨n * Nat.pow b e.toNat, 1⟩ else ⟨n, Nat.pow b (-e).toNat⟩

/-- `a ≤ b`. -/
def Ratio.le (a b : Ratio) : Bool := a.num * b.den ≤ b.num * a.den

/-- `a < b`. -/
def Ratio.lt (a b : Ratio) : Bool := a.num * b.den < b.num * a.den

/-- The whole part of `a / 10 ^ k`. -/
def Ratio.floorAt (a : Ratio) (k : Int) : Nat :=
  if 0 ≤ k then a.num / (a.den * Nat.pow 10 k.toNat)
  else a.num * Nat.pow 10 (-k).toNat / a.den

/-- Number of decimal digits. -/
def digitCount (n : Nat) : Nat := (Nat.toDigits 10 n).length

/-- The exponent of the leading digit of a positive fraction. -/
def leading (a : Ratio) : Int :=
  let e : Int := (digitCount a.num : Int) - digitCount a.den
  if (Ratio.scaled 1 10 e).le a then e else e - 1

/-- The double `m · 2 ^ q` and the ends of the interval of numbers that it is nearest to. -/
structure Target where
  value : Ratio
  low : Ratio
  high : Ratio
  /-- Whether the ends belong to the interval. -/
  closed : Bool

/-- The interval of `m · 2 ^ q`. Below a power of two the neighbour is only half as far away. -/
def Target.of (m : Nat) (q : Int) : Target :=
  let low := if m = Nat.pow 2 52 ∧ q ≠ -1074 then 4 * m - 1 else 4 * m - 2
  ⟨.scaled (4 * m) 2 (q - 2), .scaled low 2 (q - 2), .scaled (4 * m + 2) 2 (q - 2), m % 2 = 0⟩

/-- Whether `d · 10 ^ k` lies in the interval. -/
def Target.holds (t : Target) (k : Int) (d : Nat) : Bool :=
  let x := Ratio.scaled d 10 k
  if t.closed then t.low.le x && x.le t.high else t.low.lt x && x.lt t.high

/-- Which of two neighbours is taken if they are equally close. -/
inductive Tie where
  /-- The one whose last digit is even. -/
  | even
  /-- The larger one. -/
  | up
deriving DecidableEq, Repr

/-- The neighbour that a tie between `d` and `d + 1` goes to. -/
def Tie.choose : Tie → Nat → Nat
  | .even, d => if d % 2 = 0 then d else d + 1
  | .up, d => d + 1

/-- The better of the neighbours `d · 10 ^ k` and `(d + 1) · 10 ^ k` of the value in the interval.
-/
def Target.pick (tie : Tie) (t : Target) (k : Int) : Option Nat :=
  let d := t.value.floorAt k
  match t.holds k d, t.holds k (d + 1) with
  | false, false => none
  | true, false => some d
  | false, true => some (d + 1)
  | true, true =>
    let middle := Ratio.scaled (2 * d + 1) 10 k
    let twice : Ratio := ⟨2 * t.value.num, t.value.den⟩
    if twice.lt middle then some d
    else if middle.lt twice then some (d + 1)
    else some (tie.choose d)

/-- The digits and the exponent of the shortest decimal for `m · 2 ^ q`, where `m` is not zero. -/
def shortest (tie : Tie) (m : Nat) (q : Int) : Nat × Int :=
  let t := Target.of m q
  let e := leading t.value
  let grids := (List.range 17).map fun n => e - Int.ofNat n
  match grids.findSome? fun k => (t.pick tie k).map fun d => (d, k) with
  | some found => found
  | none => (m, q)

/-- Moves trailing zeros of the digits into the exponent, at most `rounds` of them. -/
def stripZeros (rounds : Nat) (d : Nat) (k : Int) : Nat × Int :=
  match rounds with
  | 0 => (d, k)
  | rounds + 1 => if d % 10 = 0 ∧ d ≠ 0 then stripZeros rounds (d / 10) (k + 1) else (d, k)

/-- The sign, the mantissa and the exponent of a finite double: `± mantissa · 2 ^ exponent`. -/
def decode (x : Float) : Bool × Nat × Int :=
  let bits := x.toBits.toNat
  let exponent : Nat := bits / Nat.pow 2 52 % Nat.pow 2 11
  let fraction : Nat := bits % Nat.pow 2 52
  let negative := bits / Nat.pow 2 63 = 1
  if exponent = 0 then (negative, fraction, -1074)
  else (negative, Nat.pow 2 52 + fraction, Int.ofNat exponent - 1075)

/-- Digits with a point in their place: positional while the leading digit is less than sixteen
places in front of the point or five behind it, else with an exponent. -/
def layout (digits : List Char) (k : Int) : List Char :=
  let n : Int := digits.length
  let point := n + k
  if 0 ≤ k ∧ point ≤ 16 then digits ++ List.replicate k.toNat '0' ++ ['.', '0']
  else if 0 < point ∧ point ≤ 16 then digits.take point.toNat ++ '.' :: digits.drop point.toNat
  else if -5 < point ∧ point ≤ 0 then
    ['0', '.'] ++ List.replicate (-point).toNat '0' ++ digits
  else
    let exponent := 'e' :: (toString (point - 1)).toList
    match digits with
    | [d] => d :: exponent
    | d :: rest => d :: '.' :: rest ++ exponent
    | [] => exponent

/-- The text of a finite double. A tie goes to the even digit. -/
def render (x : Float) : List Char :=
  let (negative, m, q) := decode x
  let text :=
    if m = 0 then ['0', '.', '0']
    else
      let (d, k) := shortest .even m q
      let (d, k) := stripZeros 20 d k
      layout (Nat.toDigits 10 d) k
  if negative then '-' :: text else text

/-- Digits with a point in their place, always positional, and without a point if they are whole. -/
def positional (digits : List Char) (k : Int) : List Char :=
  let point : Int := digits.length + k
  if 0 ≤ k then digits ++ List.replicate k.toNat '0'
  else if 0 < point then digits.take point.toNat ++ '.' :: digits.drop point.toNat
  else ['0', '.'] ++ List.replicate (-point).toNat '0' ++ digits

/-- The plain text of a double: positional, and with words for what is not finite. A tie goes away
from zero. -/
def plain (x : Float) : List Char :=
  if x.isNaN then ['N', 'a', 'N']
  else
    let (negative, m, q) := decode x
    let text :=
      if x.isInf then ['i', 'n', 'f']
      else if m = 0 then ['0']
      else
        let (d, k) := shortest .up m q
        let (d, k) := stripZeros 20 d k
        positional (Nat.toDigits 10 d) k
    if negative then '-' :: text else text

end Paywall.Text.Shortest
