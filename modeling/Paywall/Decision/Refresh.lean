import Paywall.Decision.Preload

/-!
# Refreshing the campaign

A new campaign replaces the old one as a whole. Cached paywalls that it lacks or has changed are
forgotten, and the assignments are brought in line with it. If no campaign comes, the old one stays.
-/

namespace Paywall.Context

/-- Forgets the cached paywalls that a new campaign lacks or has changed. -/
def evictStale (c : Context) (previous : Option Campaign) (campaign : Campaign) : Context :=
  match previous with
  | none => c
  | some previous =>
    let keys := (previous.stalePaywalls campaign).map fun identifier =>
      requestKey (some identifier) none c.settings.device.locale
    { c with cache := keys.foldl SingleFlight.invalidate c.cache }

/-- Brings the assignments in line with a campaign. -/
def alignAssignments (c : Context) (campaign : Campaign) : Except PaywallError Unit × Context :=
  match c.assignments.reconcile campaign.triggers with
  | (.error e, assignments) => (.error (.ofAssignment e), { c with assignments })
  | (.ok (), assignments) =>
    match assignments.transfer campaign.assignments campaign.triggers with
    | (.error e, assignments) => (.error (.ofAssignment e), { c with assignments })
    | (.ok _, assignments) => (.ok (), { c with assignments })

/-- Takes over a campaign, or the failure to fetch one. -/
def load (c : Context) (fetched : Except PaywallError Campaign) :
    Except PaywallError Campaign × Context :=
  match fetched with
  | .error e => (.error e, c)
  | .ok campaign =>
    let previous := c.campaign
    let c := { c with campaign := some campaign }.evictStale previous campaign
    match c.alignAssignments campaign with
    | (.error e, c) => (.error e, c)
    | (.ok (), c) => (.ok campaign, c.emit .configRefreshed none id)

/-- Takes over a campaign and preloads, if the settings say so. -/
def refresh (c : Context) (fetched : Except PaywallError Campaign) :
    Except PaywallError Campaign × Context :=
  match c.load fetched with
  | (.error e, c) => (.error e, c)
  | (.ok campaign, c) =>
    if c.settings.cache.preload then (.ok campaign, c.preloadActive.2) else (.ok campaign, c)

end Paywall.Context
