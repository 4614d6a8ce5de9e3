import Paywall.Proofs.Decision.Commitment
import Paywall.Proofs.Decision.Transparency

/-!
# What becomes of the ledger

A request notes its event when it begins and, if it ends with a paywall or a holdout, a firing of the
throttle that has let it through. Of the other steps only those change the ledger that are meant to.
-/

namespace Paywall

/-! ## Firing -/

namespace Ledger

variable {l : Ledger} {throttle : Option Occurrence} {now : Instant}

@[simp] theorem refused_fire : (l.fire throttle now).refused = l.refused := by
  cases throttle <;> rfl

@[simp] theorem sessionStart_fire :
    (l.fire throttle now).history.sessionStart = l.history.sessionStart := by
  cases throttle with
  | none => rfl
  | some o =>
    unfold fire
    by_cases hrefused : CounterCall.record ∈ l.refused
    · simp [hrefused]
    · simp [hrefused, History.recordAt]

theorem firingsOf_fire (h : .record ∉ l.refused) (key : String) :
    (l.fire throttle now).history.firingsOf key =
      l.history.firingsOf key ++ if throttle.map (·.key) = some key then [now] else [] := by
  cases throttle with
  | none => simp [fire]
  | some o =>
    unfold fire
    simp only [if_neg h, History.firingsOf_recordAt, Option.map_some, Option.some.injEq,
      eq_comm (a := key)]

end Ledger

namespace Context

variable {c : Context} {r : Request}

/-! ## What a request does to the ledger -/

/-- The throttle that has let a request through: that of the matched rule, where the request ends
with a paywall or a holdout and is not speculative. -/
def throttle? (c : Context) (r : Request) : Option Occurrence :=
  match r.event? with
  | none => none
  | some e =>
    match c.judge r e with
    | .matched m =>
      if r.speculative ∨ (c.present r).1.isBinding = false then none else m.rule.occurrence
    | _ => none

theorem throttle?_of_not_binding (h : (c.present r).1.isBinding = false) : c.throttle? r = none := by
  unfold throttle?
  cases r.event? with
  | none => rfl
  | some e =>
    simp only
    cases c.judge r e with
    | matched m => simp [h]
    | noMatch ms => rfl
    | eventNotFound => rfl

theorem throttle?_of_matched {e : HostEvent} {m : RuleMatch} (hr : r.event? = some e)
    (hj : c.judge r e = .matched m) (h : (c.present r).1.isBinding) :
    c.throttle? r = if r.speculative then none else m.unsaved := by
  rw [unsaved_of_matchEvent hj]
  unfold throttle?
  simp only [hr, hj, h, Bool.true_eq_false, or_false]

/-- Committing to a variant fires the throttle of the matched rule. -/
theorem ledger_commit_ofVariant (c : Context) (user : User) (m : RuleMatch) (v : ResolvedVariant) :
    (c.commit (.ofVariant r user m v)).ledger =
      c.ledger.fire (if r.speculative then none else m.unsaved) c.now := by
  have hspec : (Decision.ofVariant r user m v).request.speculative = r.speculative := rfl
  rw [ledger_commit, hspec]
  by_cases hr : r.speculative
  · rw [if_pos hr, if_pos hr]
    rfl
  · rw [if_neg hr, if_neg hr]
    rfl

/-- A request notes its event and, at its end, the firing of the throttle that let it through. -/
theorem ledger_present (c : Context) (r : Request) :
    (c.present r).2.ledger = (c.recordRequest r).ledger.fire (c.throttle? r) c.now := by
  have hnow : (c.recordRequest r).now = c.now := congrArg Scene.now scene_recordRequest
  obtain ⟨x, c₁, h⟩ := exists_assigned c r
  cases x with
  | error outcome =>
    have heq := present_of_error h
    cases h with
    | eventNotFound hr hj | noRuleMatch hr hj | noVariant hr hj hs =>
      have hnone : c.throttle? r = none := throttle?_of_not_binding (by rw [heq]; rfl)
      rw [heq, hnone]
      rfl
    | @holdout e m v s hr hj hs hv =>
      have hthrottle := throttle?_of_matched hr hj (by rw [heq]; rfl)
      have hheld : (c.heldOut r m v s).now = c.now := hnow
      rw [heq, hthrottle, ledger_commit_ofVariant, hheld]
      rfl
  | ok d =>
    have heq := present_of_ok h
    cases h with
    | direct hr =>
      have hnone : c.throttle? r = none := by
        unfold throttle?
        rw [hr]
      have hkept : (c.conclude (.start r c.user)).2.ledger = c.ledger := by
        rcases conclude_cases c (.start r c.user) with ⟨p, c', hend, -, hledger, -⟩ | ⟨-, -, hledger⟩
        · rw [hend, commit_start]
          exact hledger
        · exact hledger
      rw [heq, hnone, hkept, recordRequest_of_direct hr]
      rfl
    | @treatment e m v s hr hj hs hv =>
      rcases conclude_cases (c.fired r m v s) (.ofVariant r c.user m v) with
        ⟨p, c', hend, -, hledger, hscene⟩ | ⟨hbinding, -, hledger⟩
      · have hthrottle := throttle?_of_matched hr hj (by rw [heq, hend]; rfl)
        have hfired : c'.now = c.now := (congrArg Scene.now hscene).trans hnow
        rw [heq, hend, hthrottle, ledger_commit_ofVariant, hledger, hfired]
        rfl
      · have hnone : c.throttle? r = none := throttle?_of_not_binding (by rw [heq]; exact hbinding)
        rw [heq, hnone, hledger]
        rfl

theorem recordRequest_history (c : Context) (r : Request) (key : String) :
    (c.recordRequest r).ledger.history.firingsOf key = c.ledger.history.firingsOf key ∧
      (c.recordRequest r).ledger.history.sessionStart = c.ledger.history.sessionStart := by
  rcases c.ledger_recordRequest r with hledger | ⟨e, -, hledger⟩
  · rw [hledger]
    exact ⟨rfl, rfl⟩
  · rw [hledger, History.recordEvent_eq]
    exact ⟨rfl, rfl⟩

end Context

/-! ## What a step does to the ledger -/

/-- What the clock shows after a step. -/
def HostStep.clock (now : Instant) : HostStep → Instant
  | .setClock later => later
  | _ => now

namespace Context

variable {c c' : Context} {s : HostStep}

theorem ledger_now_of_core (h : c'.core = c.core) : c'.ledger = c.ledger ∧ c'.now = c.now := by
  have hledger : c'.core.ledger = c.core.ledger := by rw [h]
  have hnow : c'.core.now = c.core.now := by rw [h]
  exact ⟨hledger, hnow⟩

theorem ledger_now_load (fetched : Except PaywallError Campaign) :
    (c.load fetched).2.ledger = c.ledger ∧ (c.load fetched).2.now = c.now := by
  have halign : ∀ (d : Context) (m : Campaign),
      (d.alignAssignments m).2.ledger = d.ledger ∧ (d.alignAssignments m).2.now = d.now := by
    intro d m
    unfold alignAssignments
    rcases d.assignments.reconcile m.triggers with ⟨_ | _, reconciled⟩
    · exact ⟨rfl, rfl⟩
    · simp only
      rcases reconciled.transfer m.assignments m.triggers with ⟨_ | _, transferred⟩
      · exact ⟨rfl, rfl⟩
      · exact ⟨rfl, rfl⟩
  cases fetched with
  | error e => exact ⟨rfl, rfl⟩
  | ok m =>
    have hevicted : ({ c with campaign := some m }.evictStale c.campaign m).ledger = c.ledger ∧
        ({ c with campaign := some m }.evictStale c.campaign m).now = c.now := by
      unfold evictStale
      cases c.campaign with
      | none => exact ⟨rfl, rfl⟩
      | some previous => exact ⟨rfl, rfl⟩
    have haligned := halign ({ c with campaign := some m }.evictStale c.campaign m) m
    rw [hevicted.1, hevicted.2] at haligned
    unfold load
    simp only
    generalize ({ c with campaign := some m }.evictStale c.campaign m).alignAssignments m = aligned
      at haligned
    obtain ⟨_ | _, d⟩ := aligned
    · exact haligned
    · exact haligned

theorem ledger_now_refresh (fetched : Except PaywallError Campaign) :
    (c.refresh fetched).2.ledger = c.ledger ∧ (c.refresh fetched).2.now = c.now := by
  have hloaded := ledger_now_load (c := c) fetched
  unfold refresh
  generalize c.load fetched = loaded at hloaded
  obtain ⟨_ | m, d⟩ := loaded
  · exact hloaded
  · simp only
    split
    · obtain ⟨hledger, hnow⟩ := ledger_now_of_core (core_preloadActive (c := d))
      exact ⟨hledger.trans hloaded.1, hnow.trans hloaded.2⟩
    · exact hloaded

theorem ledger_now_reset : c.reset.2.ledger = c.ledger ∧ c.reset.2.now = c.now := by
  unfold reset
  rcases c.assignments.clear with ⟨_ | _, cleared⟩
  · exact ⟨rfl, rfl⟩
  · exact ⟨rfl, rfl⟩

theorem ledger_now_deliver : c.deliver.ledger = c.ledger ∧ c.deliver.now = c.now := by
  rw [deliver_eq]
  exact ⟨rfl, rfl⟩

/-- The ledger behind a step. -/
def ledgerAfter (c : Context) : HostStep → Ledger
  | .present r => (c.recordRequest r).ledger.fire (c.throttle? r) c.now
  | .recordAt key time => { c.ledger with history := c.ledger.history.recordAt key time }
  | .setRefused refused reason => { c.ledger with refused, reason }
  | _ => c.ledger

theorem ledger_now_step (hs : ∀ rs, s ≠ .presentAll rs) :
    (c.step s).2.ledger = c.ledgerAfter s ∧ (c.step s).2.now = s.clock c.now := by
  have hdeliver := ledger_now_deliver (c := (c.perform s).2)
  suffices hperform : (c.perform s).2.ledger = c.ledgerAfter s ∧
      (c.perform s).2.now = s.clock c.now from
    ⟨hdeliver.1.trans hperform.1, hdeliver.2.trans hperform.2⟩
  cases s with
  | load fetched => exact ledger_now_load fetched
  | refresh fetched => exact ledger_now_refresh fetched
  | present r => exact ⟨ledger_present c r, congrArg Scene.now scene_present⟩
  | presentAll rs => exact absurd rfl (hs rs)
  | preloadActive => exact ledger_now_of_core core_preloadActive
  | preloadEvents names => exact ledger_now_of_core (core_preloadEvents names)
  | reset => exact ledger_now_reset
  | setAttribute key value => exact ⟨rfl, rfl⟩
  | setSubscribed subscribed => exact ⟨rfl, rfl⟩
  | recordPurchase product => exact ⟨rfl, rfl⟩
  | setClock later => exact ⟨rfl, rfl⟩
  | recordAt key time => exact ⟨rfl, rfl⟩
  | setSource source => exact ⟨rfl, rfl⟩
  | setRefused calls reason => exact ⟨rfl, rfl⟩
  | setSaveFault reason => exact ⟨rfl, rfl⟩

end Context

end Paywall
