import Paywall.Settings.Toml.Value

/-!
# Documents of TOML

A document is a sequence of statements, each on a line of its own: a pair, the header of a table, or
the header of an element of an array of tables. Pairs belong to the header in front of them.
-/

namespace Paywall.Settings.Toml

/-- A statement of a document. -/
inductive Statement where
  | pair (key : List String) (t : Tree)
  | table (header : List String)
  | element (header : List String)

/-- Ends a line, after blanks and a comment. -/
def lineEnd? (cs : List Char) : Option (List Char) :=
  let rest := match skipBlanks cs with
    | '#' :: comment => comment.dropWhile isPlain
    | rest => rest
  match rest with
  | [] => some []
  | '\n' :: rest | '\r' :: '\n' :: rest => some rest
  | _ => none

/-- A statement at the start of a line. -/
def statement? (cs : List Char) : Option (Statement × List Char) := do
  match cs with
  | '[' :: '[' :: rest =>
    match ← key? rest with
    | (header, ']' :: ']' :: rest) => return (.element header, ← lineEnd? rest)
    | _ => none
  | '[' :: rest =>
    match ← key? rest with
    | (header, ']' :: rest) => return (.table header, ← lineEnd? rest)
    | _ => none
  | cs =>
    let (key, t, rest) ← pair? (value? depthLimit) cs
    return (.pair key t, ← lineEnd? rest)

/-- The statements of a document. Every statement takes at least one character, so as many rounds as
there are characters are enough. -/
def statements? (cs : List Char) : Option (List Statement) := go cs.length cs
where
  /-- The statements of `cs`, in at most `rounds` rounds. -/
  go (rounds : Nat) (cs : List Char) : Option (List Statement) := do
    match rounds, skipLines false cs with
    | _, [] => return []
    | 0, _ => none
    | rounds + 1, cs =>
      let (statement, rest) ← statement? cs
      return statement :: (← go rounds rest)

/-- A document in the making: the table so far and the header that pairs belong to. -/
structure Progress where
  draft : Draft
  header : List String

/-- Carries out a statement. -/
def Progress.apply? (p : Progress) : Statement → Option Progress
  | .pair key t => do return { p with draft := ← p.draft.assign? p.header key t }
  | .table header => do return ⟨← p.draft.openTable? header, header⟩
  | .element header => do return ⟨← p.draft.openElement? header, header⟩

/-- The members of the table that a document describes. A mark of the byte order is skipped. -/
def parse? (text : String) : Option (List (String × Tree)) := do
  let cs := match text.toList with
    | '\ufeff' :: cs => cs
    | cs => cs
  let done ← (← statements? cs).foldlM Progress.apply? ⟨[], []⟩
  return Draft.trees done.draft

end Paywall.Settings.Toml
