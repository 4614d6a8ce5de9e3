import Paywall.Expression.Scope
import Paywall.Text.Blank
import Paywall.Text.Numeral

/-!
# Clauses

A clause compares a variable with a literal, asks whether a variable is set, or is a constant.
`Clause.parse` reads a clause from its text alone; `Clause.holds` looks up the variables.
-/

namespace Paywall.Expression

/-- Why a clause cannot be read. -/
inductive Fault where
  | emptyClause
  | missingOperand
  | invalidLiteral (literal : String)
deriving DecidableEq, Repr

/-- The wording of a fault. -/
def Fault.message : Fault → String
  | .emptyClause => "empty clause"
  | .missingOperand => "comparison is missing an operand"
  | .invalidLiteral literal => "invalid literal `" ++ literal ++ "`"

/-- A comparison operator. -/
inductive Comparison where
  | eq
  | notEq
  | atLeast
  | atMost
  | greater
  | less
deriving DecidableEq, Repr

/-- The first operator of a text, with what stands in front of it and behind it. Of two operators at
one place the longer is meant. -/
def splitComparison? : List Char → Option (List Char × Comparison × List Char)
  | [] => none
  | '=' :: '=' :: rest => some ([], .eq, rest)
  | '!' :: '=' :: rest => some ([], .notEq, rest)
  | '>' :: '=' :: rest => some ([], .atLeast, rest)
  | '<' :: '=' :: rest => some ([], .atMost, rest)
  | '>' :: rest => some ([], .greater, rest)
  | '<' :: rest => some ([], .less, rest)
  | c :: rest => (splitComparison? rest).map fun (a, op, b) => (c :: a, op, b)

/-- How two doubles compare; not at all if one is not a number. -/
def order? (a b : Float) : Option Ordering :=
  if a < b then some .lt else if a == b then some .eq else if b < a then some .gt else none

/-- How two values compare as numbers. -/
def numericOrder? (a b : Value) : Option Ordering := do order? (← a.number?) (← b.number?)

/-- Whether a value stands in a relation to a literal. Numbers of all types compare by size. Other
values are equal or not, and never less or greater. -/
def Comparison.holds (op : Comparison) (actual expected : Value) : Bool :=
  let order := numericOrder? actual expected
  match op with
  | .eq => match order with
    | some o => o == .eq
    | none => actual == expected
  | .notEq => match order with
    | some o => o != .eq
    | none => !(actual == expected)
  | .greater => order == some .gt
  | .atLeast => order == some .gt || order == some .eq
  | .less => order == some .lt
  | .atMost => order == some .lt || order == some .eq

/-- The text between two quotes of the kind `q`. -/
def quoted? (q : Char) : List Char → Option (List Char)
  | [] => none
  | c :: rest => if c = q ∧ rest.getLast? = some q then some rest.dropLast else none

/-- A literal: a word, a text in quotes, or a number. -/
def literal? (cs : List Char) : Option Value :=
  match String.ofList cs with
  | "true" => some (.bool true)
  | "false" => some (.bool false)
  | "null" => some .null
  | _ =>
    match quoted? '"' cs <|> quoted? '\'' cs with
    | some text => some (.string (String.ofList text))
    | none =>
      match Text.readInt64? cs with
      | some n => some (.int n)
      | none => (Text.readFloat? cs).map .float

/-- A clause. -/
inductive Clause where
  | constant (b : Bool)
  /-- The variable is set, or with `negated` it is not. -/
  | isSet (negated : Bool) (path : String)
  | compare (path : String) (op : Comparison) (literal : Value)

namespace Clause

/-- A clause without an operator: a path, maybe with an exclamation mark in front. -/
def parseIsSet : List Char → Clause
  | '!' :: rest => .isSet true (String.ofList (Text.trim rest))
  | cs => .isSet false (String.ofList cs)

/-- Reads a clause without blanks around it. -/
def parseTrimmed (cs : List Char) : Except Fault Clause :=
  if cs = [] then .error .emptyClause
  else match String.ofList cs with
    | "true" => .ok (.constant true)
    | "false" => .ok (.constant false)
    | _ =>
      match splitComparison? cs with
      | none => .ok (parseIsSet cs)
      | some (path, op, literal) =>
        let path := Text.trim path
        let literal := Text.trim literal
        if path = [] ∨ literal = [] then .error .missingOperand
        else match literal? literal with
          | some value => .ok (.compare (String.ofList path) op value)
          | none => .error (.invalidLiteral (String.ofList literal))

/-- Reads a clause. -/
def parse (cs : List Char) : Except Fault Clause := parseTrimmed (Text.trim cs)

/-- Whether a variable counts as set: a truth value by itself, any other value unless it is null. -/
def truthy : Option Value → Bool
  | some (.bool b) => b
  | some .null | none => false
  | some _ => true

/-- Whether a clause holds. A missing variable compares as null. -/
def holds (scope : Scope) : Clause → Bool
  | .constant b => b
  | .isSet negated path => truthy (scope.lookup? path) != negated
  | .compare path op literal => op.holds ((scope.lookup? path).getD .null) literal

end Clause

end Paywall.Expression
