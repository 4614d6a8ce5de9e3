import Paywall.Proofs.Campaign.Window
import Paywall.Proofs.Decision.Ledger

/-!
# A throttle is not exceeded

A rule is checked against the firings that the history has in its window, and its own firing is noted
only when the request ends. In between nothing else happens, so the firing that the check has allowed
for is the one that is noted. The history may count more than the outcomes of one throttle: rules
share keys, and throttles fire outside of requests. It never counts less, and what has left the
window stays outside as long as the clock does not go back.
-/

namespace Paywall

/-- Whether a step presents at most one request, lets the clock go on if it touches it at all, and
leaves the counting of firings in working order. -/
def HostStep.Advances (now : Instant) : HostStep → Prop
  | .presentAll _ => False
  | .setClock later => now.Passes later
  | .setRefused calls _ => .record ∉ calls
  | _ => True

/-- Whether all steps of a run do, if the clock shows `now` at its start. -/
def Orderly (now : Instant) : List HostStep → Prop
  | [] => True
  | s :: rest => s.Advances now ∧ Orderly (s.clock now) rest

namespace Context

variable {c c' : Context} {r : Request} {o : Occurrence} {s : HostStep} {steps : List HostStep}

/-- Whether an instant lies in the window of a throttle, as the window stands now. -/
def inWindow (c : Context) (o : Occurrence) (t : Instant) : Bool :=
  o.window.holds c.now c.ledger.history.sessionStart t

/-- A throttle lets a request through only if its window has room for one more firing of the key. -/
theorem countP_lt_of_throttle? (h : c.throttle? r = some o)
    (hfew : (c.ledger.history.firingsOf o.key).length < UInt32.size - 1) :
    (c.ledger.history.firingsOf o.key).countP (c.inWindow o) + 1 ≤ o.maxCount.toNat := by
  obtain ⟨m, e, hj, ho⟩ : ∃ m e, c.judge r e = .matched m ∧ m.rule.occurrence = some o := by
    unfold throttle? at h
    split at h
    · cases h
    · next e he =>
      split at h
      · next m hj =>
        split at h
        · cases h
        · exact ⟨m, e, hj, h⟩
      · cases h
  obtain ⟨-, hpassed⟩ := throttle_of_check (check_of_matchEvent hj)
  obtain ⟨prior, hcount, hle⟩ := hpassed o ho
  have hprior : prior = (c.recordRequest r).ledger.history.count o c.now := by
    simp only [Ledger.counter, Ledger.call] at hcount
    split at hcount
    · cases hcount
    · exact (Except.ok.inj hcount).symm
  obtain ⟨hfirings, hsession⟩ := c.recordRequest_history r o.key
  have hwithin : (c.ledger.history.firingsOf o.key).countP (c.inWindow o) < UInt32.size - 1 := by
    have hbound := List.countP_le_length (l := c.ledger.history.firingsOf o.key) (p := c.inWindow o)
    omega
  rw [hprior, History.count_eq, hfirings, hsession, UInt32.le_iff_toNat_le] at hle
  have hnext := toNat_nextCount hwithin
  unfold inWindow at hnext
  rw [hnext] at hle
  exact hle

/-! ## Steps that lose no firing -/

theorem ledger_of_advances (hs : s.Advances c.now) :
    (c.step s).2.ledger = c.ledgerAfter s ∧ (c.step s).2.now = s.clock c.now := by
  refine ledger_now_step ?_
  intro rs heq
  rw [heq] at hs
  exact hs

theorem passes_step (hs : s.Advances c.now) : c.now.Passes (c.step s).2.now := by
  rw [(ledger_of_advances hs).2]
  cases s with
  | setClock later => exact hs
  | _ => exact Instant.passes_refl c.now

theorem counted_step (h : .record ∉ c.ledger.refused) (hs : s.Advances c.now) :
    .record ∉ (c.step s).2.ledger.refused := by
  rw [(ledger_of_advances hs).1]
  cases s with
  | present r =>
    show .record ∉ ((c.recordRequest r).ledger.fire (c.throttle? r) c.now).refused
    rw [Ledger.refused_fire, (firings_recordRequest c r).2]
    exact h
  | setRefused calls reason => exact hs
  | _ => exact h

theorem sessionStart_step (hs : s.Advances c.now) :
    (c.step s).2.ledger.history.sessionStart = c.ledger.history.sessionStart := by
  rw [(ledger_of_advances hs).1]
  cases s with
  | present r =>
    show ((c.recordRequest r).ledger.fire (c.throttle? r) c.now).history.sessionStart = _
    rw [Ledger.sessionStart_fire, (c.recordRequest_history r "").2]
  | _ => rfl

theorem firingsOf_step_present (h : .record ∉ c.ledger.refused) (key : String) :
    (c.step (.present r)).2.ledger.history.firingsOf key =
      c.ledger.history.firingsOf key ++
        if (c.throttle? r).map (·.key) = some key then [c.now] else [] := by
  have hadvances : (HostStep.present r).Advances c.now := trivial
  have hcounted : .record ∉ (c.recordRequest r).ledger.refused := by
    rw [(firings_recordRequest c r).2]
    exact h
  rw [(ledger_of_advances hadvances).1]
  show ((c.recordRequest r).ledger.fire (c.throttle? r) c.now).history.firingsOf key = _
  rw [Ledger.firingsOf_fire hcounted, (c.recordRequest_history r key).1]

theorem firingsOf_step (h : .record ∉ c.ledger.refused) (hs : s.Advances c.now) (key : String) :
    (c.ledger.history.firingsOf key).Sublist ((c.step s).2.ledger.history.firingsOf key) := by
  cases s with
  | present r =>
    rw [firingsOf_step_present h]
    exact List.sublist_append_left _ _
  | recordAt k time =>
    rw [(ledger_of_advances hs).1]
    show (c.ledger.history.firingsOf key).Sublist ((c.ledger.history.recordAt k time).firingsOf key)
    rw [History.firingsOf_recordAt]
    exact List.sublist_append_left _ _
  | _ =>
    rw [(ledger_of_advances hs).1]
    exact List.Sublist.refl _

/-! ## What a throttle has shown -/

/-- When a step shows a paywall or a holdout on account of a throttle. -/
def showing (c : Context) (o : Occurrence) : HostStep → List Instant
  | .present r => if c.throttle? r = some o then [c.now] else []
  | _ => []

/-- When the steps of a run do. -/
def showings (c : Context) (o : Occurrence) : List HostStep → List Instant
  | [] => []
  | s :: rest => c.showing o s ++ (c.step s).2.showings o rest

/-- What a throttle has shown is counted, and it has not shown more in its window than it may. -/
structure Capped (c : Context) (o : Occurrence) (shown : List Instant) : Prop where
  counted : .record ∉ c.ledger.refused
  recorded : shown.Sublist (c.ledger.history.firingsOf o.key)
  capped : shown.countP (c.inWindow o) ≤ o.maxCount.toNat

/-- A step may move the window on, past some of what has been shown. -/
theorem countP_inWindow_step (hs : s.Advances c.now) (shown : List Instant) :
    shown.countP ((c.step s).2.inWindow o) ≤ shown.countP (c.inWindow o) := by
  refine List.countP_mono_left fun t _ ht => ?_
  unfold inWindow at ht ⊢
  rw [sessionStart_step hs] at ht
  exact Window.holds_of_passes (passes_step hs) ht

theorem Capped.step {shown : List Instant} (h : c.Capped o shown) (hs : s.Advances c.now)
    (hfew : (c.ledger.history.firingsOf o.key).length < UInt32.size - 1) :
    (c.step s).2.Capped o (shown ++ c.showing o s) := by
  have hcounted := counted_step h.counted hs
  have hwindow := countP_inWindow_step (o := o) hs shown
  by_cases hshowing : c.showing o s = []
  · have hgrown := firingsOf_step h.counted hs o.key
    rw [hshowing, List.append_nil]
    exact ⟨hcounted, h.recorded.trans hgrown, Nat.le_trans hwindow h.capped⟩
  · obtain ⟨r, rfl, hthrottle⟩ : ∃ r, s = .present r ∧ c.throttle? r = some o := by
      cases s with
      | present r =>
        refine ⟨r, rfl, ?_⟩
        by_contra hne
        exact hshowing (if_neg hne)
      | _ => exact absurd rfl hshowing
    have hshown : c.showing o (.present r) = [c.now] := if_pos hthrottle
    have hrecorded : (shown ++ [c.now]).Sublist
        ((c.step (.present r)).2.ledger.history.firingsOf o.key) := by
      rw [firingsOf_step_present h.counted, hthrottle]
      simp only [Option.map_some, if_true]
      exact List.Sublist.append h.recorded (List.Sublist.refl _)
    have hfired := h.recorded.countP_le (p := c.inWindow o)
    have hroom := countP_lt_of_throttle? hthrottle hfew
    have hone : [c.now].countP ((c.step (.present r)).2.inWindow o) ≤ 1 := List.countP_le_length
    rw [hshown]
    refine ⟨hcounted, hrecorded, ?_⟩
    rw [List.countP_append]
    omega

/-- Firings are never forgotten. -/
theorem firingsOf_run (h : .record ∉ c.ledger.refused) (hsteps : Orderly c.now steps)
    (key : String) :
    (c.ledger.history.firingsOf key).Sublist ((c.run steps).2.ledger.history.firingsOf key) := by
  induction steps generalizing c with
  | nil => exact List.Sublist.refl _
  | cons s rest ih =>
    obtain ⟨hs, hrest⟩ := hsteps
    rw [← (ledger_of_advances hs).2] at hrest
    have hgrown := firingsOf_step h hs key
    exact hgrown.trans (ih (counted_step h hs) hrest)

theorem Capped.run {shown : List Instant} (h : c.Capped o shown) (hsteps : Orderly c.now steps)
    (hfew : ((c.run steps).2.ledger.history.firingsOf o.key).length < UInt32.size - 1) :
    (c.run steps).2.Capped o (shown ++ c.showings o steps) := by
  induction steps generalizing c shown with
  | nil =>
    rw [showings, List.append_nil]
    exact h
  | cons s rest ih =>
    have hgrown := (firingsOf_run h.counted hsteps o.key).length_le
    obtain ⟨hs, hrest⟩ := hsteps
    rw [← (ledger_of_advances hs).2] at hrest
    have hstep := h.step hs (by omega)
    have hrun := ih hstep hrest hfew
    rw [List.append_assoc] at hrun
    exact hrun

/-- Whatever a host does, requests one after the other, and whatever else fires under the key: of the
outcomes that a throttle has let through since the beginning of its window, as it stands now, there
are at most as many as the throttle says. -/
theorem showings_le_maxCount (hcounted : .record ∉ c.ledger.refused)
    (hsteps : Orderly c.now steps)
    (hfew : ((c.run steps).2.ledger.history.firingsOf o.key).length < UInt32.size - 1) :
    (c.showings o steps).countP ((c.run steps).2.inWindow o) ≤ o.maxCount.toNat := by
  have hstart : c.Capped o [] := ⟨hcounted, List.nil_sublist _, Nat.zero_le _⟩
  exact (hstart.run hsteps hfew).capped

/-- At most one firing a day. -/
def onceADay : Occurrence := ⟨"k", 1, .today⟩

/-- A campaign with a rule for that and another rule under the same key. -/
def sharedKey : Campaign where
  triggers :=
    [⟨"open", [⟨none, some onceADay, ⟨"e", "g", [⟨"v", 1, .holdout, none⟩]⟩, [], none⟩]⟩,
      ⟨"close", [⟨none, some ⟨"k", 5, .sinceInstall⟩, ⟨"f", "h", [⟨"w", 1, .holdout, none⟩]⟩, [],
        none⟩]⟩]
  paywalls := []
  assignments := []
  requestId := none

/-- Noon of two days in a row, and requests for both events. -/
def twoDays : List HostStep :=
  let opening : Request := .forEvent ⟨"open", ∅, ⟨1715342400, 0⟩⟩
  let closing : Request := .forEvent ⟨"close", ∅, ⟨1715342400, 0⟩⟩
  [.refresh (.ok sharedKey), .present opening, .present opening, .present closing,
    .setClock ⟨1715428800, 0⟩, .recordAt "j" ⟨0, 0⟩, .present opening, .present opening]

/-- The general theorem at two days: an opening each day, and the second one in the window. -/
theorem showings_twoDays :
    ∃ c, openWith {} Expression.evaluate .campaign (.ofStored ∅)
        (.ofHistory (.start ⟨1715342400, 0⟩)) 0 ⟨1715342400, 0⟩ = .ok c ∧
      .record ∉ c.ledger.refused ∧ Orderly c.now twoDays ∧
      ((c.run twoDays).2.ledger.history.firingsOf onceADay.key).length < UInt32.size - 1 ∧
      c.showings onceADay twoDays = [⟨1715342400, 0⟩, ⟨1715428800, 0⟩] ∧
      (c.showings onceADay twoDays).countP ((c.run twoDays).2.inWindow onceADay) ≤
        onceADay.maxCount.toNat := by
  have hcounted : CounterCall.record ∉ ([] : List CounterCall) := List.not_mem_nil
  have hnextDay : Instant.Passes ⟨1715342400, 0⟩ ⟨1715428800, 0⟩ :=
    Instant.passes_of_le rfl (by decide)
  have hsteps : Orderly ⟨1715342400, 0⟩ twoDays :=
    ⟨trivial, trivial, trivial, trivial, hnextDay, trivial, trivial, trivial, trivial⟩
  exact ⟨_, rfl, hcounted, hsteps, by decide +kernel, by decide +kernel,
    showings_le_maxCount hcounted hsteps (by decide +kernel)⟩

end Context

end Paywall
