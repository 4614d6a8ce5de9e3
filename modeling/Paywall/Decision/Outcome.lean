import Paywall.Campaign.Codec
import Paywall.Rule.Matching
import Paywall.Error

/-!
# Outcomes

How a request ends: with a paywall, or with the reason why there is none.
-/

namespace Paywall

/-- Why a paywall is not presented although there is one. -/
inductive SkipReason where
  /-- The user is a subscriber. -/
  | subscribed
deriving DecidableEq, Repr

/-- The end of a request. -/
inductive Outcome where
  | paywall (resource : Resource) (experiment : Option AssignedExperiment)
  | holdout (experiment : AssignedExperiment)
  | noRuleMatch (mismatches : List Mismatch)
  | eventNotFound
  | skipped (reason : SkipReason)
  | error (cause : PaywallError)

namespace MismatchReason

def toJson : MismatchReason → Json
  | .expression => .string "expression"
  | .occurrence => .string "occurrence"
  | .evaluatorError message => .object [("evaluator_error", .string message)]

end MismatchReason

namespace Mismatch

def toJson (m : Mismatch) : Json :=
  .object [("experiment_id", .string m.experimentId), ("source", m.reason.toJson)]

end Mismatch

namespace Outcome

/-- A short name. -/
def label : Outcome → String
  | .paywall .. => "paywall"
  | .holdout _ => "holdout"
  | .noRuleMatch _ => "no_rule_match"
  | .eventNotFound => "event_not_found"
  | .skipped _ => "skipped"
  | .error _ => "error"

/-- The experiment that led here. -/
def experiment? : Outcome → Option AssignedExperiment
  | .paywall _ experiment => experiment
  | .holdout experiment => some experiment
  | _ => none

/-- An outcome as JSON; an error appears with its wording. -/
def toJson (o : Outcome) : Json :=
  .object <| ("outcome", .string o.label) ::
    match o with
    | .paywall resource experiment =>
      [("resource", resource.toJson),
        ("experiment", .ofOption AssignedExperiment.toJson experiment)]
    | .holdout experiment => [("experiment", experiment.toJson)]
    | .noRuleMatch mismatches => [("unmatched", .ofList Mismatch.toJson mismatches)]
    | .eventNotFound => []
    | .skipped .subscribed => [("reason", .string "subscribed")]
    | .error cause => [("cause", .string cause.message)]

end Outcome

end Paywall
