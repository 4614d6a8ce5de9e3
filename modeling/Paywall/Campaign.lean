import Paywall.Campaign.Resource
import Paywall.Campaign.Occurrence
import Paywall.Campaign.Elapsed

/-!
# Campaigns

A campaign says which events may present a paywall. Each of its triggers belongs to an event and
lists rules; a rule has conditions and an experiment. A campaign may bring the paywalls along and
name assignments that the server has made.
-/

namespace Paywall

/-- A rule of a trigger. -/
structure Rule where
  /-- The condition on the variables; without one the rule always passes. -/
  expression : Option String
  /-- The limit on how often the rule matches. -/
  occurrence : Option Occurrence
  experiment : Experiment
  /-- What the expression wants to know about past events. -/
  elapsed : List ElapsedRequest
  /-- Replaces the condition of the paywall. -/
  condition : Option PresentationCondition

/-- The rules of an event. -/
structure Trigger where
  eventName : String
  rules : List Rule

/-- A campaign. -/
structure Campaign where
  triggers : List Trigger
  paywalls : List Resource
  assignments : List ServerAssignment
  requestId : Option String

namespace Campaign

/-- The first trigger of an event. -/
def trigger? (c : Campaign) (eventName : String) : Option Trigger :=
  c.triggers.find? fun t => t.eventName == eventName

/-- The triggers by event. Of two triggers of one event the earlier one counts. -/
def triggersByEvent (c : Campaign) : Table Trigger :=
  .ofListFirst (c.triggers.map fun t => (t.eventName, t))

/-- The first paywall with an identifier. -/
def paywall? (c : Campaign) (identifier : String) : Option Resource :=
  c.paywalls.find? fun p => p.identifier == identifier

/-- The paywalls by identifier. Of two paywalls with one identifier the later one counts. -/
def paywallsByIdentifier (c : Campaign) : Table Resource :=
  .ofList (c.paywalls.map fun p => (p.identifier, p))

/-- The identifiers of the paywalls that a new campaign lacks or has changed, in order. -/
def stalePaywalls (old new : Campaign) : List String :=
  let current := new.paywallsByIdentifier
  let stale := old.paywalls.filter fun p =>
    match current.get? p.identifier with
    | some fresh => !(fresh == p)
    | none => true
  sortedSet (stale.map (·.identifier))

end Campaign

/-- All experiments of a list of triggers, in order. -/
def experimentsOf (triggers : List Trigger) : List Experiment :=
  triggers.flatMap fun t => t.rules.map (·.experiment)

/-- The paywalls of all treatments that the triggers offer, in order. -/
def treatmentPaywalls (triggers : List Trigger) : List String :=
  sortedSet <| (experimentsOf triggers).flatMap fun e =>
    (e.variants.filter fun v => v.kind == .treatment).filterMap (·.paywallId)

/-- The paywalls of the treatments that the user is assigned to, in order. An assignment counts
while a trigger offers its experiment, and a confirmed one wins over an unconfirmed one. -/
def activeTreatmentPaywalls (triggers : List Trigger) (confirmed unconfirmed : Assignments) :
    List String :=
  let offered := sortedSet ((experimentsOf triggers).map (·.id))
  let assigned := offered.filterMap fun id => confirmed.get? id <|> unconfirmed.get? id
  sortedSet ((assigned.filter fun v => v.kind == .treatment).filterMap (·.paywallId))

end Paywall
