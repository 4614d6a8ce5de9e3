import Paywall.Json.Number

/-!
# Tokens of JSON text

`Token.scan` cuts a text into tokens. Texts end at the next quote, may not hold a raw control
character, and join escaped surrogate pairs.
-/

namespace Paywall.Json

open Paywall.Text (isDigit hexDigit? digitsValue)

/-- A token of JSON text. -/
inductive Token where
  | openArray
  | closeArray
  | openObject
  | closeObject
  | comma
  | colon
  /-- A text; `none` if it holds half a surrogate pair. -/
  | string (s : Option String)
  /-- A number or one of the words for null, true and false. -/
  | scalar (j : Json)

/-- The character that a letter after a backslash stands for. -/
def escaped? : Char → Option Char
  | '"' => some '"'
  | '\\' => some '\\'
  | '/' => some '/'
  | 'b' => some '\x08'
  | 'f' => some '\x0c'
  | 'n' => some '\n'
  | 'r' => some '\r'
  | 't' => some '\t'
  | _ => none

/-- The code points of a text up to its closing quote, escaped surrogates still apart, and what
follows the quote. -/
def scanUnits? : List Char → Option (List Nat × List Char)
  | [] => none
  | '"' :: rest => some ([], rest)
  | '\\' :: 'u' :: a :: b :: c :: d :: rest => do
    let a ← hexDigit? a
    let b ← hexDigit? b
    let c ← hexDigit? c
    let d ← hexDigit? d
    let (units, rest) ← scanUnits? rest
    some ((((a * 16 + b) * 16 + c) * 16 + d) :: units, rest)
  | '\\' :: e :: rest => do
    let c ← escaped? e
    let (units, rest) ← scanUnits? rest
    some (c.toNat :: units, rest)
  | c :: rest =>
    if c.toNat < 0x20 ∨ c = '\\' then none
    else do
      let (units, rest) ← scanUnits? rest
      some (c.toNat :: units, rest)

/-- Joins surrogate pairs; `none` if a half stands alone. -/
def joinSurrogates? : List Nat → Option (List Char)
  | [] => some []
  | [u] => if 0xD800 ≤ u ∧ u ≤ 0xDFFF then none else some [Char.ofNat u]
  | u :: v :: rest =>
    if 0xD800 ≤ u ∧ u ≤ 0xDBFF then
      if 0xDC00 ≤ v ∧ v ≤ 0xDFFF then
        (joinSurrogates? rest).map
          (Char.ofNat (0x10000 + (u - 0xD800) * 0x400 + (v - 0xDC00)) :: ·)
      else none
    else if 0xDC00 ≤ u ∧ u ≤ 0xDFFF then none
    else (joinSurrogates? (v :: rest)).map (Char.ofNat u :: ·)

/-- The digits of an exponent, after its letter. -/
def scanExponent? (cs : List Char) : Option (Int × List Char) :=
  let (negative, cs) := Text.splitSign cs
  let (digits, rest) := cs.span isDigit
  if digits = [] then none
  else
    let n : Int := digitsValue 0 digits
    some (if negative then -n else n, rest)

/-- What may follow the whole part of a number. -/
def scanFraction? (negative : Bool) (whole : List Char) (cs : List Char) :
    Option (Json × List Char) :=
  match cs with
  | '.' :: cs =>
    let (fraction, rest) := cs.span isDigit
    if fraction = [] then none else scanPower fraction rest
  | cs => scanPower [] cs
where
  /-- The optional exponent. -/
  scanPower (fraction cs : List Char) : Option (Json × List Char) :=
    match cs with
    | 'e' :: cs | 'E' :: cs =>
      (scanExponent? cs).map fun (e, rest) =>
        (ofDigits negative whole fraction e, rest)
    | cs =>
      if fraction = [] then some (ofWhole negative whole, cs)
      else some (ofDigits negative whole fraction 0, cs)

/-- A number. Its whole part is `0` or starts with another digit. -/
def scanNumber? (cs : List Char) : Option (Json × List Char) :=
  let (negative, cs) := match cs with
    | '-' :: cs => (true, cs)
    | cs => (false, cs)
  match cs with
  | '0' :: rest => scanFraction? negative ['0'] rest
  | cs =>
    let (whole, rest) := cs.span isDigit
    if whole = [] then none else scanFraction? negative whole rest

namespace Token

/-- The first token of a text that does not start with a blank, and what follows it. -/
def next? : List Char → Option (Token × List Char)
  | [] => none
  | '[' :: rest => some (.openArray, rest)
  | ']' :: rest => some (.closeArray, rest)
  | '\x7b' :: rest => some (.openObject, rest)
  | '\x7d' :: rest => some (.closeObject, rest)
  | ',' :: rest => some (.comma, rest)
  | ':' :: rest => some (.colon, rest)
  | '"' :: rest =>
    (scanUnits? rest).map fun (units, rest) =>
      (.string ((joinSurrogates? units).map String.ofList), rest)
  | 'n' :: 'u' :: 'l' :: 'l' :: rest => some (.scalar .null, rest)
  | 't' :: 'r' :: 'u' :: 'e' :: rest => some (.scalar (.bool true), rest)
  | 'f' :: 'a' :: 'l' :: 's' :: 'e' :: rest => some (.scalar (.bool false), rest)
  | cs => (scanNumber? cs).map fun (j, rest) => (.scalar j, rest)

/-- Whether a character may stand between tokens. -/
def isSpace (c : Char) : Bool := c == ' ' || c == '\n' || c == '\t' || c == '\r'

/-- The tokens of a text. Every token takes at least one character, so as many rounds as there are
characters are enough. -/
def scan (cs : List Char) : Option (List Token) := go cs.length cs
where
  /-- The tokens of `cs`, in at most `rounds` rounds. -/
  go (rounds : Nat) (cs : List Char) : Option (List Token) :=
    match cs.dropWhile isSpace with
    | [] => some []
    | c :: cs =>
      match rounds with
      | 0 => none
      | rounds + 1 => do
        let (token, rest) ← next? (c :: cs)
        let tokens ← go rounds rest
        some (token :: tokens)

end Token

end Paywall.Json
