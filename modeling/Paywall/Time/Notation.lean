import Paywall.Time.Instant
import Paywall.Text.Blank
import Paywall.Text.Numeral

/-!
# Timestamps

The notation of instants: `2024-05-10T15:30:00.5Z`. Writing is always in UTC, with a fraction of 3,
6 or 9 digits, the shortest that is exact, and none if it is zero. A year has four digits, and
beyond 9999 or before 0 a sign and as many as it needs.

Reading is more lenient. Fields may be shorter, there may be blanks in front of each field and each
mark between fields, date and time may be parted by `t` or a blank, and digits of a fraction behind
the ninth are dropped. The zone is `Z`, `UTC` or an offset of less than a day, with a minus of
either kind. The second 60 is a leap second.
-/

namespace Paywall.Instant

open Paywall.Text (isDigit digitsValue isBlank trimStart)

/-- Reads a number of one digit or more, but at most `limit`. -/
def readNumber? (limit : Nat) (cs : List Char) : Option (Nat × List Char) :=
  let digits := (cs.take limit).takeWhile isDigit
  if digits = [] then none else some (digitsValue 0 digits, cs.drop digits.length)

/-- Reads the character `c`. -/
def expect? (c : Char) : List Char → Option (List Char)
  | d :: rest => if d = c then some rest else none
  | [] => none

/-- Reads a field of at most two digits. -/
def readField? (cs : List Char) : Option (Nat × List Char) := readNumber? 2 (trimStart cs)

/-- Reads the mark between two fields. -/
def readMark? (c : Char) (cs : List Char) : Option (List Char) := expect? c (trimStart cs)

/-- Reads a year: at most four digits, or a sign and any number of them. -/
def readYear? (cs : List Char) : Option (Int × List Char) :=
  match trimStart cs with
  | '-' :: cs => (readNumber? cs.length cs).map fun (n, cs) => (-(n : Int), cs)
  | '+' :: cs => (readNumber? cs.length cs).map fun (n, cs) => (n, cs)
  | cs => (readNumber? 4 cs).map fun (n, cs) => (n, cs)

/-- The year of the first date that can be written. -/
def firstYear : Int := -262143

/-- The year of the last date that can be written. -/
def lastYear : Int := 262142

/-- Whether a year is among those that can be written. -/
def hasYear (year : Int) : Bool := firstYear ≤ year && year ≤ lastYear

/-- Reads a date: `YYYY-MM-DD`. -/
def readDate? (cs : List Char) : Option (Date × List Char) := do
  let (year, cs) ← readYear? cs
  let (month, cs) ← readField? (← readMark? '-' cs)
  let (day, cs) ← readField? (← readMark? '-' cs)
  let date : Date := ⟨year, month, day⟩
  if hasYear year && date.isValid then some (date, cs) else none

/-- Reads a time of day, `HH:MM:SS`, as seconds and the nanoseconds of a leap second. -/
def readClock? (cs : List Char) : Option (Nat × Nat × List Char) := do
  let (hour, cs) ← readField? cs
  let (minute, cs) ← readField? (← readMark? ':' cs)
  let (second, cs) ← readField? (← readMark? ':' cs)
  if hour < 24 ∧ minute < 60 ∧ second ≤ 60 then
    let leap := if second = 60 then 1 else 0
    some (hour * 3600 + minute * 60 + (second - leap), leap * nanosPerSecond, cs)
  else none

/-- The nanoseconds that the digits after a point stand for. -/
def fractionNanos (digits : List Char) : Nat :=
  let digits := digits.take 9
  digitsValue 0 (digits ++ List.replicate (9 - digits.length) '0')

/-- Reads an optional fraction: a point and digits. -/
def readFraction? : List Char → Option (Nat × List Char)
  | '.' :: cs =>
    let (digits, rest) := cs.span isDigit
    if digits = [] then none else some (fractionNanos digits, rest)
  | cs => some (0, cs)

/-- Reads a number of exactly two digits. -/
def readPair? : List Char → Option (Nat × List Char)
  | a :: b :: cs => if isDigit a && isDigit b then some (digitsValue 0 [a, b], cs) else none
  | _ => none

/-- Reads the seconds of an offset: hours and minutes of two digits each, with any number of colons
and blanks between them. -/
def readOffset? (cs : List Char) : Option (Nat × List Char) := do
  let (hours, cs) ← readPair? cs
  let (minutes, cs) ← readPair? (cs.dropWhile fun c => c = ':' || isBlank c)
  if hours < 24 ∧ minutes < 60 then some (hours * 3600 + minutes * 60, cs) else none

/-- Reads a zone: how many seconds local time is ahead of UTC. -/
def readZone? (cs : List Char) : Option (Int × List Char) :=
  match cs with
  | '+' :: cs => (readOffset? cs).map fun (n, cs) => (n, cs)
  | '-' :: cs | '−' :: cs => (readOffset? cs).map fun (n, cs) => (-(n : Int), cs)
  | 'Z' :: cs | 'z' :: cs => some (0, cs)
  | cs => if (cs.take 3).map Char.toUpper = ['U', 'T', 'C'] then some (0, cs.drop 3) else none

/-- Reads a timestamp. -/
def parse? (s : String) : Option Instant := do
  let (date, cs) ← readDate? s.toList
  let cs ← match cs with
    | 'T' :: cs | 't' :: cs | ' ' :: cs => some cs
    | _ => none
  let (second, leap, cs) ← readClock? cs
  let (nanos, cs) ← readFraction? cs
  let (offset, cs) ← readZone? (trimStart cs)
  let t : Instant := ⟨date.dayNumber * secondsPerDay + second - offset, nanos + leap⟩
  if hasYear t.date.year && cs.all isBlank then some t else none

/-- A number with zeros in front up to the given width. -/
def padded (width n : Nat) : List Char :=
  let digits := Nat.toDigits 10 n
  List.replicate (width - digits.length) '0' ++ digits

/-- A year in four digits, with a sign outside the years 0 to 9999. -/
def yearText (year : Int) : List Char :=
  if 0 ≤ year ∧ year ≤ 9999 then padded 4 year.toNat
  else (if year < 0 then '-' else '+') :: padded 4 year.natAbs

/-- The fraction of a second. -/
def fractionText (nanos : Nat) : List Char :=
  if nanos = 0 then []
  else if nanos % 1000000 = 0 then '.' :: padded 3 (nanos / 1000000)
  else if nanos % 1000 = 0 then '.' :: padded 6 (nanos / 1000)
  else '.' :: padded 9 nanos

/-- Writes a timestamp. -/
def render (t : Instant) : String :=
  let date := t.date
  let second := t.secondOfDay.toNat
  let leap := if t.inLeapSecond then 1 else 0
  String.ofList <|
    yearText date.year ++ '-' :: padded 2 date.month ++ '-' :: padded 2 date.day ++
    'T' :: padded 2 (second / 3600) ++ ':' :: padded 2 (second / 60 % 60) ++
    ':' :: padded 2 (second % 60 + leap) ++ fractionText (t.nanos - leap * nanosPerSecond) ++ ['Z']

end Paywall.Instant
