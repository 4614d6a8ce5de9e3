import Paywall.Text.Numeral
import Paywall.Time.Date

/-!
# Dates and times of TOML

A moment is a date, a time of day, or both with or without an offset from UTC. Settings take it as a
text, in one form: a capital `T` between date and time, a capital `Z`, a fraction of at most nine
digits without zeros at its end, and no minus in front of an offset of zero.
-/

namespace Paywall.Settings.Toml.DateTime

open Paywall.Text (isDigit digitsValue)

/-- A text and what follows it. -/
abbrev Reader := List Char → Option (List Char × List Char)

/-- A number of exactly `n` digits. -/
def digits? (n : Nat) : Reader := fun cs =>
  let digits := cs.take n
  if digits.length = n ∧ digits.all isDigit then some (digits, cs.drop n) else none

/-- A number of two digits that is at most `limit`. -/
def field? (limit : Nat) : Reader := fun cs => do
  let (digits, rest) ← digits? 2 cs
  if digitsValue 0 digits ≤ limit then some (digits, rest) else none

/-- A character behind which another reader goes on. -/
def behind? (c : Char) (read? : Reader) : Reader
  | [] => none
  | d :: cs => if d = c then (read? cs).map fun (text, rest) => (c :: text, rest) else none

/-- A date: `YYYY-MM-DD`. -/
def date? : Reader := fun cs => do
  let (year, rest) ← digits? 4 cs
  let (month, rest) ← behind? '-' (digits? 2) rest
  let (day, rest) ← behind? '-' (digits? 2) rest
  let date : Date := ⟨digitsValue 0 year, digitsValue 0 month.tail, digitsValue 0 day.tail⟩
  if date.isValid then some (year ++ month ++ day, rest) else none

/-- An optional fraction. -/
def fraction (cs : List Char) : List Char × List Char :=
  match cs with
  | '.' :: cs =>
    let (digits, rest) := cs.span isDigit
    if digits = [] then ([], '.' :: cs)
    else
      let kept := ((digits.take 9).reverse.dropWhile (· = '0')).reverse
      (if kept = [] then [] else '.' :: kept, rest)
  | cs => ([], cs)

/-- A time of day: `HH:MM:SS`. -/
def clock? : Reader := fun cs => do
  let (hour, rest) ← field? 23 cs
  let (minute, rest) ← behind? ':' (field? 59) rest
  let (second, rest) ← behind? ':' (field? 60) rest
  let (part, rest) := fraction rest
  some (hour ++ minute ++ second ++ part, rest)

/-- An offset behind its sign. -/
def offset? : Reader := fun cs => do
  let (hours, rest) ← field? 23 cs
  let (minutes, rest) ← behind? ':' (field? 59) rest
  some (hours ++ minutes, rest)

/-- An optional zone. -/
def zone (cs : List Char) : List Char × List Char :=
  match cs with
  | 'Z' :: rest | 'z' :: rest => (['Z'], rest)
  | '+' :: rest =>
    match offset? rest with
    | some (text, rest) => ('+' :: text, rest)
    | none => ([], cs)
  | '-' :: rest =>
    match offset? rest with
    | some (text, rest) => ((if text = "00:00".toList then '+' else '-') :: text, rest)
    | none => ([], cs)
  | _ => ([], cs)

/-- An optional time of day behind a date, with an optional zone. -/
def timeBehindDate (cs : List Char) : List Char × List Char :=
  match cs with
  | [] => ([], [])
  | c :: rest =>
    if c = 'T' || c = 't' || c = ' ' then
      match clock? rest with
      | some (text, rest) =>
        let (zoneText, rest) := zone rest
        ('T' :: text ++ zoneText, rest)
      | none => ([], cs)
    else ([], cs)

/-- A moment. -/
def read? : Reader := fun cs =>
  match date? cs with
  | some (date, rest) =>
    let (time, rest) := timeBehindDate rest
    some (date ++ time, rest)
  | none => clock? cs

end Paywall.Settings.Toml.DateTime
