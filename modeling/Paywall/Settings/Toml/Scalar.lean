import Paywall.Settings.Tree

/-!
# Scalars of TOML

A scalar without quotes is a run of `isBareChar` characters: a word, a whole number of 64 bits in
one of four bases, or a double. Digits may be grouped by single underscores. Quoted texts come in
four forms: with or without escapes, on one line or on several.
-/

namespace Paywall.Settings.Toml

open Paywall.Text (isDigit hexDigit? digitsValue splitSign fitsInt64 Decimal)

/-- Whether a character may stand for itself in a comment or a text. -/
def isPlain (c : Char) : Bool := c = '\t' || (0x20 ≤ c.toNat && c.toNat ≠ 0x7F)

/-- Whether a character may stand in a key without quotes. -/
def isKeyChar (c : Char) : Bool := c.isAlphanum || c = '_' || c = '-'

/-- Whether a character may stand in a scalar without quotes. -/
def isBareChar (c : Char) : Bool := isKeyChar c || c = '+' || c = '.'

/-- The digits of a run in which single underscores may stand between digits. -/
def ungrouped? (isDigit : Char → Bool) (cs : List Char) : Option (List Char) :=
  let groups := Text.split '_' cs
  if groups.all fun g => g ≠ [] && g.all isDigit then some groups.flatten else none

/-- A whole number in base `base`. -/
def natOfBase? (base : Nat) (cs : List Char) : Option Nat := do
  let digits ← ungrouped? (fun c => (hexDigit? c).any (· < base)) cs
  return digits.foldl (fun n c => n * base + (hexDigit? c).getD 0) 0

/-- The digits of a whole part, which does not start with a zero unless it is one. -/
def wholeDigits? (cs : List Char) : Option (List Char) := do
  let digits ← ungrouped? isDigit cs
  if digits.length = 1 ∨ digits.head? ≠ some '0' then some digits else none

/-- A whole number of 64 bits: decimal with an optional sign, or in another base. -/
def integer? (cs : List Char) : Option Tree := do
  let n : Int ← match cs with
    | '0' :: 'x' :: digits => (natOfBase? 16 digits).map Int.ofNat
    | '0' :: 'o' :: digits => (natOfBase? 8 digits).map Int.ofNat
    | '0' :: 'b' :: digits => (natOfBase? 2 digits).map Int.ofNat
    | cs =>
      let (negative, digits) := splitSign cs
      (wholeDigits? digits).map fun ds =>
        let n := digitsValue 0 ds
        if negative then -(n : Int) else n
  if fitsInt64 n then some (.integer (Int64.ofInt n)) else none

/-- The exponent behind its letter. -/
def exponent? (cs : List Char) : Option Int := do
  let (negative, digits) := splitSign cs
  let n := digitsValue 0 (← ungrouped? isDigit digits)
  return if negative then -(n : Int) else n

/-- A decimal with a fraction, an exponent, or both. -/
def decimal? (cs : List Char) : Option Decimal := do
  let (negative, rest) := splitSign cs
  let (mantissa, tail) := rest.span fun c => c ≠ 'e' && c ≠ 'E'
  let exponent ← match tail with
    | [] => some 0
    | _ :: tail => exponent? tail
  match Text.splitOnce? '.' mantissa with
  | some (whole, fraction) =>
    return .ofDigits negative (← wholeDigits? whole) (← ungrouped? isDigit fraction) exponent
  | none =>
    if tail = [] then none
    else return .ofDigits negative (← wholeDigits? mantissa) [] exponent

/-- A double. A number too large for one is refused. -/
def number? (cs : List Char) : Option Tree :=
  let (negative, rest) := splitSign cs
  let signed (x : Float) : Tree := .number (if negative then -x else x)
  match String.ofList rest with
  | "inf" => some (signed Text.infinity)
  | "nan" => some (signed Text.notANumber)
  | _ => do
    let x := (← decimal? cs).toFloat
    if x == Text.infinity then none else some (.number x)

/-- A scalar without quotes. -/
def bare? (cs : List Char) : Option Tree :=
  match String.ofList cs with
  | "true" => some (.flag true)
  | "false" => some (.flag false)
  | _ => (integer? cs).or (number? cs)

/-! ## Quoted texts -/

/-- The character that a letter after a backslash stands for. -/
def escaped? : Char → Option Char
  | 'b' => some '\x08'
  | 't' => some '\t'
  | 'n' => some '\n'
  | 'f' => some '\x0c'
  | 'r' => some '\r'
  | '"' => some '"'
  | '\\' => some '\\'
  | _ => none

/-- The character with a code point, if there is one. -/
def charOf? (n : Nat) : Option Char := if n.isValidChar then some (Char.ofNat n) else none

/-- How a text is quoted. -/
structure Quoting where
  quote : Char
  /-- Whether the text may go over several lines; then three quotes enclose it. -/
  lines : Bool

namespace Quoting

/-- Whether a backslash starts an escape. -/
def escapes (q : Quoting) : Bool := q.quote = '"'

/-- Where a reader of a quoted text is. -/
inductive Place where
  | plain
  /-- Behind a backslash. -/
  | escape
  /-- In an escape that still needs some digits of a code point. -/
  | code (missing value : Nat)
  /-- Behind a backslash and blanks, so that the line has to end. -/
  | fold
  /-- Behind a backslash and the end of the line: blanks and line ends are skipped. -/
  | skip

/-- What a character of a quoted text leads to. -/
inductive Effect where
  /-- The text ends with some more characters; something follows it. -/
  | stop (more rest : List Char)
  /-- The text goes on after some more characters. -/
  | go (more : List Char) (place : Place)

/-- Whether a character in front of `rest` is the first half of a line end. -/
def isReturn (c : Char) (rest : List Char) : Bool := c = '\r' && rest.head? = some '\n'

/-- The end of a text, from a quote on. Three quotes end a text on several lines, and up to two more
in front of them belong to it. -/
def close (q : Quoting) (rest : List Char) : Effect :=
  if q.lines then
    let n := min 5 (1 + (rest.takeWhile (· = q.quote)).length)
    if 3 ≤ n then .stop (List.replicate (n - 3) q.quote) (rest.drop (n - 1))
    else .go [q.quote] .plain
  else .stop [] rest

/-- A character outside of any escape. -/
def onPlain? (q : Quoting) (c : Char) (rest : List Char) : Option Effect :=
  if c = q.quote then some (q.close rest)
  else if q.escapes && c = '\\' then some (.go [] .escape)
  else if isPlain c || (q.lines && c = '\n') then some (.go [c] .plain)
  else if q.lines && isReturn c rest then some (.go [] .plain)
  else none

/-- A character behind a backslash. -/
def onEscape? (q : Quoting) (c : Char) (rest : List Char) : Option Effect :=
  if c = 'u' then some (.go [] (.code 4 0))
  else if c = 'U' then some (.go [] (.code 8 0))
  else if q.lines && c = '\n' then some (.go [] .skip)
  else if q.lines && (c = ' ' || c = '\t' || isReturn c rest) then some (.go [] .fold)
  else (escaped? c).map fun d => .go [d] .plain

/-- The effect of a character in front of `rest`; `none` if it may not stand there. -/
def effect? (q : Quoting) (place : Place) (c : Char) (rest : List Char) : Option Effect :=
  match place with
  | .plain => q.onPlain? c rest
  | .escape => q.onEscape? c rest
  | .code missing value => do
    let value := value * 16 + (← hexDigit? c)
    if 1 < missing then return .go [] (.code (missing - 1) value)
    else return .go [← charOf? value] .plain
  | .fold =>
    if c = '\n' then some (.go [] .skip)
    else if c = ' ' || c = '\t' || isReturn c rest then some (.go [] .fold)
    else none
  | .skip =>
    if c = ' ' || c = '\t' || c = '\n' || isReturn c rest then some (.go [] .skip)
    else q.onPlain? c rest

/-- A text up to its end, and what follows. -/
def read? (q : Quoting) : Place → List Char → Option (List Char × List Char)
  | _, [] => none
  | place, c :: rest =>
    match q.effect? place c rest with
    | none => none
    | some (.stop more rest) => some (more, rest)
    | some (.go more place) => (q.read? place rest).map fun (text, rest) => (more ++ text, rest)

end Quoting

/-- Skips the line end that directly follows an opening. -/
def skipLineEnd : List Char → List Char
  | '\n' :: cs | '\r' :: '\n' :: cs => cs
  | cs => cs

/-- A quoted text and what follows it. -/
def quoted? (lines : Bool) (cs : List Char) : Option (List Char × List Char) :=
  match cs with
  | a :: b :: c :: rest =>
    if !(a = '"' || a = '\x27') then none
    else if lines && b = a && c = a then Quoting.read? ⟨a, true⟩ .plain (skipLineEnd rest)
    else Quoting.read? ⟨a, false⟩ .plain (b :: c :: rest)
  | a :: rest =>
    if a = '"' || a = '\x27' then Quoting.read? ⟨a, false⟩ .plain rest else none
  | [] => none

end Paywall.Settings.Toml
