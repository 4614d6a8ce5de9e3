/-!
# Cutting an expression at its connectives

The connectives `&&` and `||` are a character written twice. They count only outside quotes; a quote
ends at the next quote of the same kind, or not at all.
-/

namespace Paywall.Expression

/-- A connective of clauses. -/
inductive Connective where
  | and
  | or
deriving DecidableEq, Repr

/-- The character that a connective doubles. -/
def Connective.mark : Connective → Char
  | .and => '&'
  | .or => '|'

/-- Whether a character opens a quote. -/
def isQuote (c : Char) : Bool := c == '"' || c == '\''

/-- The quote that is open behind the character `c`. -/
def nextQuote (quote : Option Char) (c : Char) : Option Char :=
  match quote with
  | some q => if c = q then none else some q
  | none => if isQuote c then some c else none

/-- Puts a character in front of the first part. -/
def consFirst (c : Char) : List (List Char) → List (List Char)
  | [] => [[c]]
  | part :: parts => (c :: part) :: parts

/-- The parts between the connectives, where `quote` is the quote that is open in front. -/
def splitFrom (mark : Char) (quote : Option Char) : List Char → List (List Char)
  | [] => [[]]
  | [c] => [[c]]
  | c :: d :: rest =>
    if quote = none ∧ c = mark ∧ d = mark then [] :: splitFrom mark none rest
    else consFirst c (splitFrom mark (nextQuote quote c) (d :: rest))

/-- The parts of a text between the occurrences of a connective outside quotes. -/
def Connective.split (k : Connective) (cs : List Char) : List (List Char) :=
  splitFrom k.mark none cs

end Paywall.Expression
