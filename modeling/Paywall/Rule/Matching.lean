import Paywall.Campaign
import Paywall.Expression
import Paywall.Rule.History

/-!
# Matching rules

The first rule of an event's trigger that passes its expression and its throttle matches. A rule
that does not is reported with the first check it failed. The expression is answered by any
evaluator, the throttle by any counter; a failing call disqualifies the rule.
-/

namespace Paywall

/-- What an event is judged by. -/
structure Situation where
  event : HostEvent
  device : Device
  user : Table Value
  now : Instant

/-- Why a rule did not match. -/
inductive MismatchReason where
  | expression
  | occurrence
  | evaluatorError (message : String)
deriving DecidableEq, Repr

/-- A rule that did not match, named by its experiment. -/
structure Mismatch where
  experimentId : String
  reason : MismatchReason
deriving DecidableEq, Repr

/-- A rule that matched. -/
structure RuleMatch where
  rule : Rule
  /-- The firing to be recorded once the match is acted on. -/
  unsaved : Option Occurrence

/-- What became of an event. -/
inductive RuleOutcome where
  | matched (m : RuleMatch)
  | noMatch (mismatches : List Mismatch)
  | eventNotFound

/-- The answers to questions for the time since events. An event that was never seen, or whose time
cannot be read, has no variable. -/
def elapsedVariables (requests : List ElapsedRequest) (counter : Counter) (now : Instant) :
    Table Value :=
  requests.foldl (fun table r =>
    match counter.lastEvent r.eventName with
    | .ok (some last) =>
      table.insert r.variableName (.int (.ofInt (r.unit.elapsed last now)))
    | _ => table) ∅

/-- The successor of a count, which stays at the largest number. -/
def nextCount (n : UInt32) : UInt32 := if n + 1 = 0 then n else n + 1

namespace Rule

/-- The variables that the expression of a rule sees. -/
def scope (r : Rule) (counter : Counter) (s : Situation) : Scope :=
  .build s.event s.device s.user (elapsedVariables r.elapsed counter s.now)

/-- Checks the expression. -/
def checkExpression (r : Rule) (evaluator : Evaluator) (counter : Counter) (s : Situation) :
    Except MismatchReason Unit :=
  match r.expression with
  | none => .ok ()
  | some expression =>
    match evaluator expression (r.scope counter s) with
    | .ok true => .ok ()
    | .ok false => .error .expression
    | .error e => .error (.evaluatorError e.message)

/-- Checks the throttle, counting the firing about to happen. -/
def checkOccurrence (r : Rule) (counter : Counter) : Except MismatchReason (Option Occurrence) :=
  match r.occurrence with
  | none => .ok none
  | some o =>
    match counter.count o with
    | .ok prior => if o.maxCount < nextCount prior then .error .occurrence else .ok (some o)
    | .error _ => .error .occurrence

/-- Checks a rule: first the expression, then the throttle. -/
def check (r : Rule) (evaluator : Evaluator) (counter : Counter) (s : Situation) :
    Except MismatchReason (Option Occurrence) := do
  r.checkExpression evaluator counter s
  r.checkOccurrence counter

end Rule

/-- The first rule that passes, or why each one failed. -/
def firstMatch (evaluator : Evaluator) (counter : Counter) (s : Situation) :
    List Rule → Except (List Mismatch) RuleMatch
  | [] => .error []
  | r :: rest =>
    match r.check evaluator counter s with
    | .ok unsaved => .ok ⟨r, unsaved⟩
    | .error reason =>
      match firstMatch evaluator counter s rest with
      | .ok m => .ok m
      | .error mismatches => .error (⟨r.experiment.id, reason⟩ :: mismatches)

/-- Matches an event. Without a campaign it is not found. -/
def matchEvent (evaluator : Evaluator) (counter : Counter) (s : Situation)
    (campaign : Option Campaign) : RuleOutcome :=
  match campaign.bind fun c => c.trigger? s.event.name with
  | none => .eventNotFound
  | some trigger =>
    match firstMatch evaluator counter s trigger.rules with
    | .ok m => .matched m
    | .error mismatches => .noMatch mismatches

end Paywall
