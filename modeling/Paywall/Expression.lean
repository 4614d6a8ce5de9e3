import Paywall.Expression.Connective
import Paywall.Expression.Clause

/-!
# Expressions

An expression is a list of alternatives, joined by `||`, each a list of clauses joined by `&&`. It
is read as a whole before a variable is looked up, so what is wrong with it does not depend on them:
the first clause that cannot be read is reported even if an earlier one decides.
-/

namespace Paywall

/-- Why an evaluator gives no answer. -/
inductive EvaluatorError where
  | parse (expression reason : String)
  | nonBoolean (result : String)
  | unavailable (reason : String)
deriving DecidableEq, Repr

/-- The wording of an error. -/
def EvaluatorError.message : EvaluatorError → String
  | .parse expression reason => "cannot parse expression `" ++ expression ++ "`: " ++ reason
  | .nonBoolean result => "expression did not produce a boolean: " ++ result
  | .unavailable reason => "evaluator unavailable: " ++ reason

/-- Anything that answers expressions. -/
abbrev Evaluator := String → Scope → Except EvaluatorError Bool

namespace Expression

/-- Alternatives of clauses. -/
abbrev Formula := List (List Clause)

/-- Reads an expression. -/
def parse (cs : List Char) : Except Fault Formula :=
  (Connective.or.split cs).mapM fun alternative =>
    (Connective.and.split alternative).mapM Clause.parse

/-- Whether all clauses of some alternative hold. -/
def Formula.holds (scope : Scope) (f : Formula) : Bool :=
  f.any fun clauses => clauses.all fun c => c.holds scope

/-- Answers an expression. -/
def evaluate : Evaluator := fun expression scope =>
  match parse expression.toList with
  | .ok formula => .ok (Formula.holds scope formula)
  | .error fault => .error (.parse expression fault.message)

end Expression

end Paywall
