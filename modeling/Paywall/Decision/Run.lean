import Paywall.Decision.Present
import Paywall.Decision.Refresh

/-!
# A host at work

A run of a context is any sequence of steps: refreshes, requests, preloads, resets, news about the
user, and changes of the world around. Confirmations are posted at the end of the step that made
them.
-/

namespace Paywall

/-- A step of a host. -/
inductive HostStep where
  /-- A campaign arrives, or the failure to fetch one, without preloading. -/
  | load (fetched : Except PaywallError Campaign)
  | refresh (fetched : Except PaywallError Campaign)
  | present (r : Request)
  | presentAll (rs : List Request)
  | preloadActive
  | preloadEvents (eventNames : List String)
  | reset
  | setAttribute (key : String) (value : Value)
  | setSubscribed (subscribed : Bool)
  | recordPurchase (product : String)
  /-- The clock reads differently. -/
  | setClock (now : Instant)
  /-- A throttle fires outside of any request. -/
  | recordAt (key : String) (time : Instant)
  /-- Paywalls come from elsewhere. -/
  | setSource (source : PaywallSource)
  /-- The history refuses other calls. -/
  | setRefused (calls : List CounterCall) (reason : String)
  /-- The record can be saved again, or not any more. -/
  | setSaveFault (reason : Option String)

/-- What a step answers. -/
inductive StepResult where
  | done
  | loaded (result : Except PaywallError Campaign)
  | outcome (o : Outcome)
  | outcomes (os : List Outcome)
  | count (n : Nat)
  | cleared (result : Except PaywallError Unit)

namespace Context

/-- Takes a step, confirmations not yet posted. -/
def perform (c : Context) : HostStep → StepResult × Context
  | .load fetched => let (result, c) := c.load fetched; (.loaded result, c)
  | .refresh fetched => let (result, c) := c.refresh fetched; (.loaded result, c)
  | .present r => let (o, c) := c.present r; (.outcome o, c)
  | .presentAll rs => let (os, c) := c.presentAll rs; (.outcomes os, c)
  | .preloadActive => let (n, c) := c.preloadActive; (.count n, c)
  | .preloadEvents names => let (n, c) := c.preloadEvents names; (.count n, c)
  | .reset => let (result, c) := c.reset; (.cleared result, c)
  | .setAttribute key value => (.done, c.setAttribute key value)
  | .setSubscribed subscribed => (.done, c.setSubscribed subscribed)
  | .recordPurchase product => (.done, c.recordPurchase product)
  | .setClock now => (.done, { c with now })
  | .recordAt key time =>
    (.done, { c with ledger := { c.ledger with history := c.ledger.history.recordAt key time } })
  | .setSource source => (.done, { c with source })
  | .setRefused refused reason => (.done, { c with ledger := { c.ledger with refused, reason } })
  | .setSaveFault reason => (.done, { c with assignments := c.assignments.withSaveFault reason })

/-- Takes a step. -/
def step (c : Context) (s : HostStep) : StepResult × Context :=
  let (result, c) := c.perform s
  (result, c.deliver)

/-- Takes the steps of a list, with all their answers. -/
def run (c : Context) : List HostStep → List StepResult × Context
  | [] => ([], c)
  | s :: rest =>
    let (result, c) := c.step s
    let (results, c) := run c rest
    (result :: results, c)

end Context

end Paywall
