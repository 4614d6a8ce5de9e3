import Paywall.Decision.Context
import Paywall.Decision.Request

/-!
# Presenting

A request passes through stages, each of which may end it: the event is matched, the variant of the
matched rule's experiment is resolved, the paywall is fetched, and the subscription is checked. What
binds the user to a variant happens at the very end, or at a holdout: the assignment is confirmed
and the throttle counted, unless the request is speculative.

A request has two parts, `begin` until it waits for its paywall and `finish` once it is there, so
that requests made at the same time can share a fetch (`presentAll`).
-/

namespace Paywall

/-- A request on its way. -/
structure Decision where
  request : Request
  /-- The user as known when the request began. -/
  user : User
  matched : Option RuleMatch
  experiment : Option AssignedExperiment
  /-- Whether the assignment still has to be confirmed. -/
  confirmable : Bool

/-- A request that has asked for its paywall. -/
structure Waiting where
  decision : Decision
  fetch : FetchRequest
  /-- What the cache said. -/
  resolution : Resolution Resource

namespace Decision

/-- A request before the first stage. -/
def start (r : Request) (user : User) : Decision := ⟨r, user, none, none, false⟩

/-- The paywall that is asked for: by name, or by the variant. -/
def identifier (d : Decision) : Option String :=
  d.request.paywallIdentifier <|> d.experiment.bind (·.variant.paywallId)

/-- The condition under which subscribers see the paywall: the rule's, else that of the paywall. -/
def condition (d : Decision) (resource : Resource) : PresentationCondition :=
  (d.matched.bind (·.rule.condition)).getD resource.condition

end Decision

namespace Context

/-- Whether a request is a preview. -/
def isPreview (c : Context) (r : Request) : Bool := r.preview || c.settings.debug.preview

/-- Notes the event of a request in the history. A failure is of no consequence. -/
def recordRequest (c : Context) (r : Request) : Context :=
  match r.event? with
  | none => c
  | some e =>
    if r.speculative then c
    else match c.ledger.recordEvent e.name e.createdAt with
      | .ok ledger => { c with ledger }
      | .error _ => c

/-- What the event of a request is judged by. -/
def situation (c : Context) (d : Decision) (e : HostEvent) : Situation :=
  ⟨e, c.device, d.user.attributes, c.now⟩

/-- Matches the event of a request. -/
def matchRule (c : Context) (d : Decision) : Except Outcome Decision × Context :=
  match d.request.event? with
  | none => (.ok d, c)
  | some e =>
    match matchEvent c.evaluator (c.ledger.counter c.now) (c.situation d e) c.campaign with
    | .matched m => (.ok { d with matched := some m }, c)
    | .noMatch mismatches =>
      (.error (.noRuleMatch mismatches), c.emit .noRuleMatch (some e.name) id)
    | .eventNotFound => (.error .eventNotFound, c.emit .eventNotFound (some e.name) id)

/-- Confirms the assignment of a request. A failure is of no consequence. -/
def confirmAssignment (c : Context) (d : Decision) : Context :=
  match d.confirmable, d.experiment with
  | true, some e => { c with assignments := (c.assignments.confirm ⟨e.id, e.variant⟩).2 }
  | _, _ => c

/-- Counts the throttle of the matched rule. A failure is of no consequence. -/
def recordOccurrence (c : Context) (d : Decision) : Context :=
  match d.matched.bind (·.unsaved) with
  | none => c
  | some o =>
    match c.ledger.record o c.now with
    | .ok ledger => { c with ledger }
    | .error _ => c

/-- Binds the user to the decision, unless the request is speculative. -/
def commit (c : Context) (d : Decision) : Context :=
  if d.request.speculative then c else (c.confirmAssignment d).recordOccurrence d

/-- Resolves the variant of the matched rule's experiment. A holdout ends the request. -/
def resolveVariant (c : Context) (d : Decision) : Except Outcome Decision × Context :=
  match d.matched with
  | none => (.ok d, c)
  | some m =>
    let e := m.rule.experiment
    match c.assignments.resolve e with
    | (.error error, assignments) => (.error (.error (.ofAssignment error)), { c with assignments })
    | (.ok resolved, assignments) =>
      let c := { c with assignments }
      let assigned : AssignedExperiment := ⟨e.id, e.groupId, resolved.variant⟩
      let eventName := d.request.eventName
      let c := c.emit .triggerFire eventName (·.withExperiment e.id resolved.variant.id)
      let d := { d with experiment := some assigned, confirmable := resolved.confirmable }
      match resolved.variant.kind with
      | .holdout =>
        let c := c.emit .holdout eventName (·.withExperiment e.id resolved.variant.id)
        (.error (.holdout assigned), c.commit d)
      | .treatment => (.ok d, c)

/-- The fetch that a request needs. -/
def fetchRequest (c : Context) (d : Decision) : FetchRequest where
  identifier := d.identifier
  eventName := d.request.eventName
  locale := c.device.locale
  key := requestKey d.identifier d.request.eventName c.device.locale

/-- Whether a request does without cached results. -/
def bypassesCache (c : Context) (r : Request) : Bool :=
  c.isPreview r || !r.overrides.allowCache || !c.settings.cache.enabled

/-- Asks the cache for the paywall of a request. `number` names the request to the cache. -/
def askForPaywall (c : Context) (d : Decision) (number : Nat) : Waiting × Context :=
  let fetch := c.fetchRequest d
  let c := c.emit .loadStart d.request.eventName (·.withPaywall d.identifier)
  let (resolution, c) := c.ask fetch (c.bypassesCache d.request) number
  (⟨d, fetch, resolution⟩, c)

/-- Takes a request to the point where it has asked for its paywall, unless it ends before. -/
def begin (c : Context) (r : Request) (number : Nat) : Except Outcome Waiting × Context :=
  let d := Decision.start r c.user
  let c := c.recordRequest r
  match c.matchRule d with
  | (.error outcome, c) => (.error outcome, c)
  | (.ok d, c) =>
    match c.resolveVariant d with
    | (.error outcome, c) => (.error outcome, c)
    | (.ok d, c) =>
      let (waiting, c) := c.askForPaywall d number
      (.ok waiting, c)

/-- Whether the subscription keeps a paywall from being presented. -/
def isSkipped (c : Context) (d : Decision) (resource : Resource) : Bool :=
  d.user.subscribed && !c.isPreview d.request && !d.request.overrides.ignoreSubscription &&
    d.condition resource != .always

/-- Ends a request with the paywall it has asked for, or the reason why there is none. -/
def finish (c : Context) (d : Decision) (result : Except PaywallError Resource) :
    Outcome × Context :=
  let eventName := d.request.eventName
  match result with
  | .error cause => (.error cause, c.emit .loadFail eventName (·.withPaywall d.identifier))
  | .ok resource =>
    let c := c.emit .loadComplete eventName (·.withPaywall (some resource.identifier))
    let resource :=
      resource.finalize d.experiment d.user.purchased d.request.overrides.freeTrial
    if c.isSkipped d resource then
      (.skipped .subscribed,
        c.emit .presentationSkipped eventName (·.withPaywall (some resource.identifier)))
    else (.paywall resource d.experiment, c.commit d)

/-- Presents a request by itself. If a fetch for its paywall is under way, it waits for the end of
that fetch. -/
def present (c : Context) (r : Request) : Outcome × Context :=
  match c.begin r 0 with
  | (.error outcome, c) => (outcome, c)
  | (.ok w, c) =>
    let (result, c) := c.await w.fetch w.resolution
    c.finish w.decision result

/-! ## Requests at the same time -/

/-- A request among others. -/
inductive Progress where
  | ended (outcome : Outcome)
  | waiting (w : Waiting)

/-- Begins requests one after the other. A request whose paywall is cached ends at once. -/
def beginAll (c : Context) (number : Nat) : List Request → List Progress × Context
  | [] => ([], c)
  | r :: rest =>
    let (progress, c) := match c.begin r number with
      | (.error outcome, c) => (Progress.ended outcome, c)
      | (.ok w, c) =>
        match w.resolution with
        | .hit resource =>
          let (outcome, c) := c.finish w.decision (.ok resource)
          (.ended outcome, c)
        | _ => (.waiting w, c)
    let (others, c) := beginAll c (number + 1) rest
    (progress :: others, c)

/-- The fetch that a request waits for, by its token. -/
def Progress.token? : Progress → Option Nat
  | .ended _ => none
  | .waiting w =>
    match w.resolution with
    | .hit _ => none
    | .joined token | .started token => some token

/-- Ends those of the requests with the given numbers that wait for a fetch, one after the other. -/
def finishAll (c : Context) (token : Nat) (result : Except PaywallError Resource) :
    List Nat → List Progress → List Progress × Context
  | [], all => (all, c)
  | number :: rest, all =>
    match all[number]? with
    | some (.waiting w) =>
      if (Progress.waiting w).token? = some token then
        let (outcome, c) := c.finish w.decision result
        finishAll c token result rest (all.set number (.ended outcome))
      else finishAll c token result rest all
    | _ => finishAll c token result rest all

/-- Brings the fetches under the given tokens to their ends, one after the other, and ends those who
wait for them. A fetch that has ended already is passed over. -/
def runFetches (c : Context) : List Nat → List Progress → List Progress × Context
  | [], all => (all, c)
  | token :: rest, all =>
    match c.fetchUnderWay? token with
    | none => runFetches c rest all
    | some fetch =>
      let (result, waiters, c) := c.runFetch fetch token
      let (all, c) := finishAll c token result waiters all
      runFetches c rest all

/-- How a request has ended. -/
def Progress.outcome : Progress → Outcome
  | .ended outcome => outcome
  | .waiting w => .error (.abandoned w.fetch.key)

/-- Presents requests at the same time: each runs until it waits for a fetch or ends; then the
fetches end in the order in which requests came to wait for them, and those who wait in turn. -/
def presentAll (c : Context) (requests : List Request) : List Outcome × Context :=
  let (all, c) := c.beginAll 0 requests
  let (all, c) := c.runFetches (all.filterMap Progress.token?) all
  (all.map Progress.outcome, c)

end Context

end Paywall
