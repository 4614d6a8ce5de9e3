import Paywall.Proofs.Assignment.Scan

/-!
# Memory and record agree

Each call decides by itself whether there is anything to save. As long as what it saves is written,
the record equals the confirmed map after every call: a scan that leaves the confirmed map alone has
nothing to write, all others write it as a whole. A confirmation that cannot be saved takes its entry
back, so for those the record may fail.
-/

namespace Paywall

namespace AssignmentStore

variable {s : AssignmentStore} {c : StoreCall}

/-- A confirmation keeps the agreement whether it is saved or not. -/
theorem recorded_confirm (h : s.record.stored = s.confirmed) (a : ConfirmableAssignment) :
    (s.confirm a).2.record.stored = (s.confirm a).2.confirmed := by
  rcases s.confirm_cases a with ⟨-, heq⟩ | ⟨-, -, heq⟩ | ⟨-, reason, -, heq⟩
  · rw [heq]
    exact h
  · rw [heq]
  · rw [heq]
    exact h

theorem recorded_perform (h : s.record.stored = s.confirmed)
    (hsaved : (s.perform c).1.isUnsaved = false) :
    (s.perform c).2.record.stored = (s.perform c).2.confirmed := by
  by_cases hc : c.isConfirm
  · cases c with
    | confirm a => exact recorded_confirm h a
    | _ => cases hc
  · rw [Bool.not_eq_true] at hc
    rcases s.perform_cases hc with ⟨-, hkept, heq⟩ | ⟨-, -, heq⟩ | ⟨hno, -, -⟩
    · rw [heq, record_scan, hkept, h]
    · rw [heq]
      rfl
    · rw [hno] at hsaved
      cases hsaved

end AssignmentStore

namespace StoreSession

variable {t : StoreSession} {steps : List StoreStep}

/-- The answers to the calls of a run. -/
def answers (t : StoreSession) : List StoreStep → List StoreAnswer
  | [] => []
  | step :: steps => (t.perform step).1.toList ++ (t.perform step).2.answers steps

/-- The record is what an open store has confirmed. -/
def Recorded : StoreSession → Prop
  | .opened s => s.record.stored = s.confirmed
  | .closed _ => True

theorem Recorded.perform (h : t.Recorded) {step : StoreStep}
    (hsaved : ∀ answer ∈ (t.perform step).1.toList, answer.isUnsaved = false) :
    (t.perform step).2.Recorded := by
  cases step with
  | call c =>
    cases t with
    | opened s =>
      have hanswer := hsaved (s.perform c).1 (by simp [StoreSession.perform])
      exact AssignmentStore.recorded_perform h hanswer
    | closed record => exact trivial
  | close => exact trivial
  | reopen seed =>
    simp only [StoreSession.perform, AssignmentStore.openRecord, Record.load]
    cases t.record.loadFault with
    | none => exact rfl
    | some reason => exact h
  | faults save load =>
    cases t with
    | opened s => exact h
    | closed record => exact trivial

theorem Recorded.run (h : t.Recorded)
    (hsaved : ∀ answer ∈ t.answers steps, answer.isUnsaved = false) :
    (t.run steps).Recorded := by
  induction steps generalizing t with
  | nil => exact h
  | cons step steps ih =>
    have hstep : (t.perform step).2.Recorded := by
      refine h.perform fun answer hanswer => ?_
      exact hsaved answer (List.mem_append_left _ hanswer)
    exact ih hstep fun answer hanswer => hsaved answer (List.mem_append_right _ hanswer)

/-- Stores over one record, opened and left behind at any time, whose calls are all saved but for
confirmations: what is confirmed in memory is what the record holds. So a restart brings the same
confirmed map back, and nothing unconfirmed. -/
theorem recorded_of_run {record : Record} {s : AssignmentStore}
    (hsaved : ∀ answer ∈ (closed record).answers steps, answer.isUnsaved = false)
    (hopen : (closed record).run steps = .opened s) :
    s.record.stored = s.confirmed ∧
      ∀ seed, s.record.loadFault = none →
        ∃ s', (opened s).run [.close, .reopen seed] = .opened s' ∧
          s'.confirmed = s.confirmed ∧ s'.unconfirmed = ∅ := by
  have hrecorded : ((closed record).run steps).Recorded := Recorded.run trivial hsaved
  rw [hopen] at hrecorded
  have hstored : s.record.stored = s.confirmed := hrecorded
  refine ⟨hstored, fun seed hload => ?_⟩
  have hreopen : AssignmentStore.openRecord s.record seed =
      .ok ⟨s.record.stored, ∅, .ofSeed seed, s.record, []⟩ := by
    unfold AssignmentStore.openRecord Record.load
    rw [hload]
  refine ⟨⟨s.record.stored, ∅, .ofSeed seed, s.record, []⟩, ?_, hstored, rfl⟩
  simp only [run, List.foldl_cons, List.foldl_nil, StoreSession.perform, StoreSession.record]
  rw [hreopen]

/-- A variant is confirmed, dropped and drawn anew; a confirmation of another experiment cannot be
saved, and the store goes away and comes back in between. -/
def eventfulSteps : List StoreStep :=
  let e : Experiment := ⟨"e", "g", [⟨"w", 1.0, .holdout, none⟩]⟩
  let triggers : List Trigger := [⟨"open", [⟨none, none, e, [], none⟩]⟩]
  [.reopen 1, .call (.confirm ⟨"e", ⟨"v", .treatment, some "p"⟩⟩), .call (.reconcile triggers),
    .faults (some "disk full") none, .call (.confirm ⟨"f", ⟨"y", .holdout, none⟩⟩), .close,
    .reopen 2, .faults none none, .call (.resolve e), .call (.transfer [⟨"e", "w"⟩] triggers)]

/-- The general theorem at a run with a confirmation that fails. -/
theorem recorded_after_eventfulSteps :
    (∀ answer ∈ (closed (.ofStored ∅)).answers eventfulSteps, answer.isUnsaved = false) ∧
      ∃ s, (closed (.ofStored ∅)).run eventfulSteps = .opened s ∧
        s.record.stored = s.confirmed ∧
          ∀ seed, s.record.loadFault = none →
            ∃ s', (opened s).run [.close, .reopen seed] = .opened s' ∧
              s'.confirmed = s.confirmed ∧ s'.unconfirmed = ∅ := by
  have hsaved : ∀ answer ∈ (closed (.ofStored ∅)).answers eventfulSteps,
      answer.isUnsaved = false := by decide
  exact ⟨hsaved, _, rfl, recorded_of_run hsaved rfl⟩

end StoreSession

end Paywall
