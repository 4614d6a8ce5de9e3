import Paywall.Settings
import Paywall.Event
import Paywall.Cache.Key
import Paywall.Cache.SingleFlight
import Paywall.Decision.Outcome

/-!
# The state of a host

A context holds everything that decisions share: the settings, the campaign, the assignments, the
cache, the history, what is known about the user, the clock, and the events reported so far. The
evaluator of expressions and the source of paywalls are exchangeable.
-/

namespace Paywall

/-- What the host knows about the user. -/
structure User where
  attributes : Table Value := ∅
  subscribed : Bool := false
  /-- The products bought, each once. -/
  purchased : List String := []

/-- A paywall to be fetched. -/
structure FetchRequest where
  identifier : Option String
  eventName : Option String
  locale : String
  /-- The key under which the result is cached. -/
  key : String
deriving DecidableEq, Repr

/-- Who asks the cache for a paywall: a request, by its number, and the fetch that it needs. -/
structure Caller where
  number : Nat
  fetch : FetchRequest
deriving DecidableEq, Repr

/-- A list of paywalls that a host serves by itself. -/
structure Catalogue where
  paywalls : Table Resource
  /-- The keys whose fetch fails for now; `*` means all. -/
  failing : List String
  /-- Why they fail. -/
  reason : String

/-- Fetches a paywall from a catalogue. -/
def Catalogue.fetch (c : Catalogue) (r : FetchRequest) : Except FetchError Resource :=
  if c.failing.contains r.key || c.failing.contains "*" then .error (.transient r.key c.reason)
  else match r.identifier.bind c.paywalls.get? with
    | some resource => .ok resource
    | none => .error (.notFound r.key)

/-- Where paywalls are fetched from. -/
inductive PaywallSource where
  /-- The paywalls of the current campaign. -/
  | campaign
  | host (fetch : FetchRequest → Except FetchError Resource)

/-- Serves a paywall of a campaign. -/
def Campaign.fetch (campaign : Option Campaign) (r : FetchRequest) : Except FetchError Resource :=
  match campaign, r.identifier with
  | none, _ => .error .configUnavailable
  | some _, none => .error (.notFound r.key)
  | some c, some identifier =>
    match c.paywall? identifier with
    | some resource => .ok resource
    | none => .error (.notFound identifier)

/-- Everything that decisions share. -/
structure Context where
  settings : Settings
  evaluator : Evaluator
  source : PaywallSource
  /-- The campaign loaded last. -/
  campaign : Option Campaign
  assignments : AssignmentStore
  cache : SingleFlight Resource Caller
  ledger : Ledger
  user : User
  now : Instant
  /-- The events reported so far. -/
  events : EventLog
  /-- The fetches started so far. -/
  fetches : List FetchRequest

namespace Context

/-- Opens a context over a record of assignments. No campaign is loaded. -/
def openWith (settings : Settings) (evaluator : Evaluator) (source : PaywallSource)
    (record : Record) (ledger : Ledger) (seed : UInt64) (now : Instant) :
    Except PaywallError Context :=
  match AssignmentStore.openRecord record (settings.assignments.seed.getD seed) with
  | .error e => .error (.ofAssignment e)
  | .ok assignments => .ok {
      settings, evaluator, source, assignments, ledger, now
      campaign := none
      cache := .empty
      user := {}
      events := []
      fetches := [] }

/-- The attributes of the device. -/
def device (c : Context) : Device where
  locale := c.settings.device.locale
  appVersion := c.settings.device.appVersion
  platform := some c.settings.device.platform
  extra := ∅

/-- The name that came with the campaign. -/
def requestId (c : Context) : Option String := c.campaign.bind (·.requestId)

/-- Reports an event. -/
def emit (c : Context) (kind : EventKind) (eventName : Option String)
    (describe : DecisionEvent → DecisionEvent) : Context :=
  { c with events := c.events.emit (describe (.make kind eventName c.now)) }

/-- What a fetch gives. -/
def fetch (c : Context) (f : FetchRequest) : Except PaywallError Resource :=
  let result := match c.source with
    | .campaign => Campaign.fetch c.campaign f
    | .host fetch => fetch f
  result.mapError .ofFetch

/-- Asks the cache for a paywall, and starts the fetch if the cache wants it. `number` names the
request to the cache. -/
def ask (c : Context) (f : FetchRequest) (bypass : Bool) (number : Nat) :
    Resolution Resource × Context :=
  let (resolution, cache) := c.cache.resolve f.key bypass ⟨number, f⟩
  let fetches := match resolution with
    | .started _ => c.fetches ++ [f]
    | _ => c.fetches
  (resolution, { c with cache, fetches })

/-- The fetch that is under way under a token: that of the caller who started it, and so was the
first to wait for it. -/
def fetchUnderWay? (c : Context) (token : Nat) : Option FetchRequest :=
  (c.cache.waiters token).head?.map (·.fetch)

/-- Brings a fetch to its end and hands its result to the cache. Also gives the numbers of those who
wait for it. -/
def runFetch (c : Context) (f : FetchRequest) (token : Nat) :
    Except PaywallError Resource × List Nat × Context :=
  let result := c.fetch f
  let (waiters, cache) := c.cache.settle f.key token result
  (result, waiters.map (·.number), { c with cache })

/-- What a caller gets: what is cached, or the result of the fetch that it waits for. That is the one
under way, whoever has started it; `f` is the caller's own. -/
def await (c : Context) (f : FetchRequest) :
    Resolution Resource → Except PaywallError Resource × Context
  | .hit resource => (.ok resource, c)
  | .joined token | .started token =>
    let (result, _, c) := c.runFetch ((c.fetchUnderWay? token).getD f) token
    (result, c)

/-- Gets a paywall by way of the cache, for a caller that is by itself. -/
def serve (c : Context) (f : FetchRequest) (bypass : Bool) :
    Except PaywallError Resource × Context :=
  let (resolution, c) := c.ask f bypass 0
  c.await f resolution

/-- Sets an attribute of the user. -/
def setAttribute (c : Context) (key : String) (value : Value) : Context :=
  { c with user := { c.user with attributes := c.user.attributes.insert key value } }

/-- Says whether the user is a subscriber. -/
def setSubscribed (c : Context) (subscribed : Bool) : Context :=
  { c with user := { c.user with subscribed } }

/-- Notes that the user has bought a product. -/
def recordPurchase (c : Context) (product : String) : Context :=
  { c with user := { c.user with purchased := sortedSet (product :: c.user.purchased) } }

/-- Forgets the user: all assignments, cached paywalls, attributes and purchases. The subscription
stays. -/
def reset (c : Context) : Except PaywallError Unit × Context :=
  let (result, assignments) := c.assignments.clear
  let c := { c with assignments }
  match result with
  | .error e => (.error (.ofAssignment e), c)
  | .ok () =>
    (.ok (), { c with
      cache := c.cache.clear
      user := { c.user with attributes := ∅, purchased := [] } })

/-- Delivers the confirmations in the outbox as events. -/
def deliver (c : Context) : Context :=
  let (posts, assignments) := c.assignments.takeOutbox
  posts.foldl (fun c a =>
    c.emit .assignmentConfirmed none (·.withExperiment a.experimentId a.variant.id))
    { c with assignments }

end Context

end Paywall
