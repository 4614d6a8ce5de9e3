import Paywall.Decision.Context

/-!
# Preloading

Fills the cache with the treatments that a user is likely to see next: those of the user's own
assignments, or all that certain events can show.
-/

namespace Paywall.Context

/-- The fetch by which a paywall is preloaded. -/
def preloadFetch (c : Context) (identifier : String) : FetchRequest :=
  let locale := c.settings.device.locale
  ⟨some identifier, none, locale, requestKey (some identifier) none locale⟩

/-- Fetches a paywall into the cache unless it is there; whether it is there afterwards. -/
def warm (c : Context) (identifier : String) : Bool × Context :=
  let (result, c) := c.serve (c.preloadFetch identifier) false
  (result.isOk, c)

/-- Fetches paywalls into the cache and counts those that are there. -/
def warmAll (c : Context) : List String → Nat × Context
  | [] => (0, c)
  | identifier :: rest =>
    let (loaded, c) := c.warm identifier
    let (count, c) := warmAll c rest
    (count + loaded.toNat, c)

/-- Preloads paywalls, unless results are not cached at all. -/
def preload (c : Context) (identifiers : List String) : Nat × Context :=
  if c.settings.cache.enabled then
    let c := c.emit .preloadStart none id
    let (count, c) := c.warmAll identifiers
    (count, c.emit .preloadComplete none id)
  else (0, c)

/-- Preloads the paywalls of the user's treatments. -/
def preloadActive (c : Context) : Nat × Context :=
  match c.campaign with
  | none => (0, c)
  | some campaign =>
    c.preload (activeTreatmentPaywalls campaign.triggers c.assignments.confirmed
      c.assignments.unconfirmed)

/-- The paywalls of all treatments that the given events can show. -/
def eventPaywalls (campaign : Campaign) (eventNames : List String) : List String :=
  let byEvent := campaign.triggersByEvent
  treatmentPaywalls (eventNames.filterMap byEvent.get?)

/-- Preloads the paywalls of all treatments that the given events can show. -/
def preloadEvents (c : Context) (eventNames : List String) : Nat × Context :=
  match c.campaign with
  | none => (0, c)
  | some campaign => c.preload (eventPaywalls campaign eventNames)

end Paywall.Context
