import Paywall.Time.Notation
import Paywall.Json.Decode

/-!
# Decision events

Every stage of a decision reports what it does as an event. A log keeps them in order.
-/

namespace Paywall

/-- What an event reports. -/
inductive EventKind where
  | triggerFire
  | holdout
  | noRuleMatch
  | eventNotFound
  | loadStart
  | loadComplete
  | loadFail
  | assignmentConfirmed
  | presentationSkipped
  | configRefreshed
  | preloadStart
  | preloadComplete
deriving DecidableEq, Repr

namespace EventKind

/-- The name of a kind. -/
def name : EventKind → String
  | .triggerFire => "trigger_fire"
  | .holdout => "holdout"
  | .noRuleMatch => "no_rule_match"
  | .eventNotFound => "event_not_found"
  | .loadStart => "paywall_response_load_start"
  | .loadComplete => "paywall_response_load_complete"
  | .loadFail => "paywall_response_load_fail"
  | .assignmentConfirmed => "assignment_confirmed"
  | .presentationSkipped => "presentation_skipped"
  | .configRefreshed => "config_refreshed"
  | .preloadStart => "paywall_preload_start"
  | .preloadComplete => "paywall_preload_complete"

/-- The kind with a name. -/
def ofName? : String → Option EventKind
  | "trigger_fire" => some .triggerFire
  | "holdout" => some .holdout
  | "no_rule_match" => some .noRuleMatch
  | "event_not_found" => some .eventNotFound
  | "paywall_response_load_start" => some .loadStart
  | "paywall_response_load_complete" => some .loadComplete
  | "paywall_response_load_fail" => some .loadFail
  | "assignment_confirmed" => some .assignmentConfirmed
  | "presentation_skipped" => some .presentationSkipped
  | "config_refreshed" => some .configRefreshed
  | "paywall_preload_start" => some .preloadStart
  | "paywall_preload_complete" => some .preloadComplete
  | _ => none

def toJson (k : EventKind) : Json := .string k.name

def ofJson? (j : Json) : Option EventKind := j.name?.bind ofName?

end EventKind

/-- An event of a decision. -/
structure DecisionEvent where
  kind : EventKind
  /-- The host event that is decided. -/
  eventName : Option String
  experimentId : Option String
  variantId : Option String
  paywallId : Option String
  timestamp : Instant
deriving DecidableEq, Repr

namespace DecisionEvent

/-- An event that names nothing but a host event. -/
def make (kind : EventKind) (eventName : Option String) (now : Instant) : DecisionEvent :=
  ⟨kind, eventName, none, none, none, now⟩

/-- Names an experiment and a variant. -/
def withExperiment (e : DecisionEvent) (experimentId variantId : String) : DecisionEvent :=
  { e with experimentId := some experimentId, variantId := some variantId }

/-- Names a paywall, or none. -/
def withPaywall (e : DecisionEvent) (paywallId : Option String) : DecisionEvent :=
  { e with paywallId }

end DecisionEvent

/-- Events in the order in which they were reported. -/
abbrev EventLog := List DecisionEvent

namespace EventLog

/-- Adds an event. -/
def emit (log : EventLog) (e : DecisionEvent) : EventLog := log ++ [e]

/-- How many events report the given. -/
def countKind (log : EventLog) (kind : EventKind) : Nat := log.countP fun e => e.kind == kind

end EventLog

end Paywall
