import Paywall.Settings.Toml.Draft
import Paywall.Settings.Toml.DateTime
import Paywall.Settings.Toml.Scalar

/-!
# Values and keys of TOML

A value is a scalar, an array or a table on one line. Arrays may go over lines and hold comments;
arrays and tables may be nested at most `depthLimit` levels deep.
-/

namespace Paywall.Settings.Toml

/-- Skips blanks within a line. -/
def skipBlanks (cs : List Char) : List Char := cs.dropWhile fun c => c = ' ' || c = '\t'

/-- Skips blanks, line ends and comments. It stops where a comment holds what it may not. -/
def skipLines (inComment : Bool) : List Char → List Char
  | [] => []
  | '\n' :: rest => skipLines false rest
  | '\r' :: '\n' :: rest => skipLines false rest
  | c :: rest =>
    if inComment then if isPlain c then skipLines true rest else c :: rest
    else if c = ' ' || c = '\t' then skipLines false rest
    else if c = '#' then skipLines true rest
    else c :: rest

/-- A part of a key. -/
def keyPart? (cs : List Char) : Option (String × List Char) :=
  match cs.span isKeyChar with
  | ([], cs) => (quoted? false cs).map fun (text, rest) => (String.ofList text, rest)
  | (name, rest) => some (String.ofList name, rest)

/-- How deep values may be nested and how many parts a key may have. -/
def depthLimit : Nat := 79

/-- A key: at most `depthLimit` parts with points between them. -/
def key? (cs : List Char) : Option (List String × List Char) := go depthLimit cs
where
  /-- A key of at most `rounds` parts. -/
  go (rounds : Nat) (cs : List Char) : Option (List String × List Char) := do
    match rounds with
    | 0 => none
    | rounds + 1 =>
      let (part, rest) ← keyPart? (skipBlanks cs)
      match skipBlanks rest with
      | '.' :: rest =>
        let (parts, rest) ← go rounds rest
        return (part :: parts, rest)
      | rest => return ([part], rest)

/-- Reads a value. -/
abbrev Reader := List Char → Option (Tree × List Char)

/-- A key, an equals sign and a value. -/
def pair? (value? : Reader) (cs : List Char) : Option (List String × Tree × List Char) := do
  let (key, rest) ← key? cs
  match rest with
  | '=' :: rest =>
    let (t, rest) ← value? (skipBlanks rest)
    return (key, t, skipBlanks rest)
  | _ => none

/-- The items of an array up to its end, at most `rounds` of them. -/
def items? (value? : Reader) (rounds : Nat) (cs : List Char) : Option (List Tree × List Char) := do
  match rounds, skipLines false cs with
  | _, ']' :: rest => return ([], rest)
  | 0, _ => none
  | rounds + 1, cs =>
    let (t, rest) ← value? cs
    match skipLines false rest with
    | ',' :: rest =>
      let (ts, rest) ← items? value? rounds rest
      return (t :: ts, rest)
    | ']' :: rest => return ([t], rest)
    | _ => none

/-- The pairs of a table on one line up to its end, at most `rounds` of them. -/
def pairs? (value? : Reader) (rounds : Nat) (cs : List Char) :
    Option (List (List String × Tree) × List Char) := do
  match rounds with
  | 0 => none
  | rounds + 1 =>
    let (key, t, rest) ← pair? value? cs
    match rest with
    | ',' :: rest =>
      let (ps, rest) ← pairs? value? rounds rest
      return ((key, t) :: ps, rest)
    | '\x7d' :: rest => return ([(key, t)], rest)
    | _ => none

/-- A table on one line, behind its opening. -/
def inlineTable? (value? : Reader) (cs : List Char) : Option (Tree × List Char) := do
  match skipBlanks cs with
  | '\x7d' :: rest => return (.table [], rest)
  | cs =>
    let (ps, rest) ← pairs? value? cs.length cs
    let draft ← ps.foldlM (fun draft (key, t) => Draft.assign? [] key t draft) []
    return (.table (Draft.trees draft), rest)

/-- A scalar. A date or a time is taken as a text. -/
def scalar? (cs : List Char) : Option (Tree × List Char) :=
  let text (part : List Char × List Char) : Tree × List Char :=
    (.text (String.ofList part.1), part.2)
  match DateTime.read? cs, cs.span isBareChar with
  | some moment, _ => some (text moment)
  | none, ([], cs) => (quoted? true cs).map text
  | none, (word, rest) => (bare? word).map fun t => (t, rest)

/-- A value with at most `depth` levels of arrays and tables in it. -/
def value? (depth : Nat) (cs : List Char) : Option (Tree × List Char) :=
  match depth, cs with
  | depth + 1, '[' :: rest =>
    (items? (value? depth) rest.length rest).map fun (ts, rest) => (.list ts, rest)
  | depth + 1, '\x7b' :: rest => inlineTable? (value? depth) rest
  | _, cs => scalar? cs

end Paywall.Settings.Toml
