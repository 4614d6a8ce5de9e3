import Paywall.Campaign.Experiment
import Paywall.Json

/-!
# Paywalls

A paywall is a payload that is passed through as it is, with the products it sells. Before it is
presented, the experiment of the user and the free trial are filled in (`Resource.finalize`).
-/

namespace Paywall

/-- When a paywall is presented to a subscriber. -/
inductive PresentationCondition where
  | always
  | checkUserSubscription
deriving DecidableEq, Repr, Inhabited

/-- The place of a product on a paywall. -/
inductive ProductKind where
  | primary
  | secondary
  | tertiary
deriving DecidableEq, Repr

/-- A product that a paywall sells. -/
structure Product where
  id : String
  kind : ProductKind
  hasFreeTrial : Bool
deriving DecidableEq, Repr

/-- A paywall. -/
structure Resource where
  identifier : String
  products : List Product
  condition : PresentationCondition
  isFreeTrialAvailable : Bool
  payload : Json
  experiment : Option AssignedExperiment
deriving BEq

namespace Resource

/-- Whether a free trial is offered: as the first primary product says, unless it has been
purchased. A forced value wins over both. -/
def freeTrialAvailable (r : Resource) (purchased : List String) (forced : Option Bool) : Bool :=
  match forced with
  | some available => available
  | none =>
    match r.products.find? fun p => p.kind == .primary with
    | some primary => primary.hasFreeTrial && !purchased.contains primary.id
    | none => false

/-- Fills in the experiment and the free trial. -/
def finalize (r : Resource) (experiment : Option AssignedExperiment) (purchased : List String)
    (forced : Option Bool) : Resource :=
  { r with isFreeTrialAvailable := r.freeTrialAvailable purchased forced, experiment }

end Resource

end Paywall
