import Paywall.Text.Numeral
import Paywall.Text.Split

/-!
# Paths of settings

The key of a setting is a path into a tree: names with points in front of them, and numbers of list
items in brackets, such as `device.locale` or `device[0]`. A negative number counts from the end of
the list.
-/

namespace Paywall.Settings

/-- A step from a tree into a part of it. -/
inductive Step where
  | key (name : String)
  | item (index : Int)
deriving DecidableEq, Repr

/-- A way into a tree. It has at least one step. -/
abbrev Path := List Step

namespace Path

/-- Whether a character may stand in a name. -/
def isNameChar (c : Char) : Bool := c.isAlphanum || c = '_' || c = '-' || c = ' '

/-- Whether a character is skipped inside brackets. -/
def isGap (c : Char) : Bool := c = ' ' || c = '\t'

/-- The index in brackets, behind the opening one: a whole number of 64 bits without a plus. -/
def index? (cs : List Char) : Option (Int × List Char) := do
  let (inside, rest) ← Text.splitOnce? ']' cs
  let trimmed := ((inside.dropWhile isGap).reverse.dropWhile isGap).reverse
  let n ← if trimmed.head? = some '+' then none else Text.readInt? trimmed
  if Text.fitsInt64 n then some (n, rest) else none

/-- Reads steps, each a name behind a point or an index in brackets. Every step takes at least one
character, so as many rounds as there are characters are enough. -/
def steps? (cs : List Char) : Option Path := go cs.length cs
where
  /-- Reads at most `rounds` steps. -/
  go (rounds : Nat) (cs : List Char) : Option Path := do
    match rounds, cs with
    | _, [] => return []
    | rounds + 1, '.' :: cs =>
      let (name, rest) := cs.span isNameChar
      if name = [] then none else return .key (String.ofList name) :: (← go rounds rest)
    | rounds + 1, '[' :: cs =>
      let (n, rest) ← index? cs
      return .item n :: (← go rounds rest)
    | _, _ => none

/-- The path that a key denotes. A key that is no path stands for itself. -/
def ofKey (key : List Char) : Path := (steps? ('.' :: key)).getD [.key (String.ofList key)]

end Path

end Paywall.Settings
