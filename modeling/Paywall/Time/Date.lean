/-!
# Calendar dates

Dates of the Gregorian calendar, extended to all years. A date is numbered by the days from
1970-01-01, negative before it; `Date.dayNumber` and `Date.ofDayNumber` go between the two.
-/

namespace Paywall

/-- A calendar date. -/
structure Date where
  year : Int
  /-- From 1 for January to 12. -/
  month : Nat
  /-- From 1. -/
  day : Nat
deriving DecidableEq, Repr

namespace Date

/-- Every fourth year, of the full centuries only every fourth. -/
def isLeap (year : Int) : Bool := year % 4 = 0 && (year % 100 ≠ 0 || year % 400 = 0)

/-- The lengths of the months. -/
def monthLengths (leap : Bool) : List Nat :=
  [31, if leap then 29 else 28, 31, 30, 31, 30, 31, 31, 30, 31, 30, 31]

/-- The length of a month, zero if there is no such month. -/
def monthLength (year : Int) (month : Nat) : Nat :=
  if month = 0 then 0 else (monthLengths (isLeap year)).getD (month - 1) 0

/-- Whether the month exists and has that day. -/
def isValid (d : Date) : Bool := 1 ≤ d.day && d.day ≤ monthLength d.year d.month

/-- The number of the first day of a year. -/
def yearStart (year : Int) : Int :=
  let past := year - 1
  365 * past + past / 4 - past / 100 + past / 400 - 719162

/-- Days of a year before a month. -/
def daysBefore (year : Int) (month : Nat) : Nat :=
  ((monthLengths (isLeap year)).take (month - 1)).foldl (· + ·) 0

/-- The number of a date. -/
def dayNumber (d : Date) : Int := yearStart d.year + daysBefore d.year d.month + (d.day - 1)

/-- The year that a day falls in. A year has 146097 / 400 days on average, which leaves a guess that
is at most one off. -/
def yearOf (n : Int) : Int :=
  let guess := (n + 719162) * 400 / 146097 + 1
  if n < yearStart guess then guess - 1
  else if yearStart (guess + 1) ≤ n then guess + 1
  else guess

/-- The month and the day of a day that comes `n` days after the first of the first of the given
months; `month` is the number of that first month. -/
def findMonth (month : Nat) : List Nat → Nat → Nat × Nat
  | [], n => (month, n + 1)
  | length :: rest, n =>
    if n < length then (month, n + 1) else findMonth (month + 1) rest (n - length)

/-- The date with a number. -/
def ofDayNumber (n : Int) : Date :=
  let year := yearOf n
  let (month, day) := findMonth 1 (monthLengths (isLeap year)) (n - yearStart year).toNat
  ⟨year, month, day⟩

end Date

end Paywall
