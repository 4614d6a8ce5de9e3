import Paywall.Assignment.Session
import Paywall.Proofs.Assignment.Store

/-!
# A confirmed variant stays

Once an assignment is confirmed, memory and record both hold it, and every step that does not take
it away on purpose leaves it in both: also one that fails halfway, after which memory and record may
differ about other experiments. A store that is opened later therefore finds it again.
-/

namespace Paywall

variable {a : ConfirmableAssignment}

/-- Whether a call may take an assignment away: it drops everything, it reconciles with an
experiment that does not offer the variant any more, or it adopts another assignment. -/
def StoreCall.Unsettles (a : ConfirmableAssignment) : StoreCall → Prop
  | .clear => True
  | .reconcile triggers =>
    ∃ e, VisitedExperiment triggers e ∧ e.id = a.experimentId ∧ ¬ e.hasVariant a.variant.id
  | .transfer assignments triggers =>
    ∃ b ∈ assignments, b.experimentId = a.experimentId ∧ Adopted triggers b
  | _ => False

/-- Whether a step may take an assignment away. -/
def StoreStep.Unsettles (a : ConfirmableAssignment) : StoreStep → Prop
  | .call c => c.Unsettles a
  | _ => False

instance : DecidablePred (StoreCall.Unsettles a)
  | .clear => isTrue trivial
  | .reconcile triggers =>
    decidable_of_iff
      (∃ e ∈ experimentsOf (AssignmentStore.visited [] triggers),
        e.id = a.experimentId ∧ ¬ e.hasVariant a.variant.id)
      (by simp only [AssignmentStore.mem_experimentsOf_visited, StoreCall.Unsettles])
  | .transfer assignments triggers =>
    inferInstanceAs
      (Decidable (∃ b ∈ assignments, b.experimentId = a.experimentId ∧ Adopted triggers b))
  | .resolve _ | .confirm _ => isFalse id

instance : DecidablePred (StoreStep.Unsettles a)
  | .call c => inferInstanceAs (Decidable (c.Unsettles a))
  | .close | .reopen _ | .faults _ _ => isFalse id

namespace AssignmentStore

variable {s : AssignmentStore}

/-- Memory and record both hold an assignment. -/
structure Settled (a : ConfirmableAssignment) (s : AssignmentStore) : Prop where
  confirmed : s.confirmed.get? a.experimentId = some a.variant
  recorded : s.record.stored.get? a.experimentId = some a.variant

theorem Settled.attemptSave (h : s.Settled a) : s.attemptSave.Settled a where
  confirmed := by rw [confirmed_attemptSave, h.confirmed]
  recorded := by
    rcases s.stored_attemptSave with hs | hs
    · rw [hs, h.confirmed]
    · rw [hs, h.recorded]

theorem Settled.resolve (h : s.Settled a) (e : Experiment) : (s.resolve e).2.Settled a := by
  obtain ⟨hc, hr⟩ := s.confirmed_record_resolve e
  exact ⟨by rw [hc, h.confirmed], by rw [hr, h.recorded]⟩

/-- A confirmation that reports success settles its assignment. -/
theorem settled_of_confirm (h : (s.confirm a).1 = .ok true) : (s.confirm a).2.Settled a := by
  rcases s.confirm_cases a with ⟨-, hs⟩ | ⟨-, -, hs⟩ | ⟨-, reason, -, hs⟩
  · exact absurd h (by simp [hs])
  · rw [hs]
    exact ⟨by simp, by simp⟩
  · exact absurd h (by simp [hs])

/-- A confirmation of another experiment adds an entry; one of the same experiment is ignored. -/
theorem Settled.confirm (h : s.Settled a) (b : ConfirmableAssignment) :
    (s.confirm b).2.Settled a := by
  rcases s.confirm_cases b with ⟨-, hs⟩ | ⟨hb, -, hs⟩ | ⟨-, reason, -, hs⟩
  · rw [hs]
    exact ⟨h.confirmed, h.recorded⟩
  · have hne : b.experimentId ≠ a.experimentId := by
      intro e
      rw [e, Table.contains, h.confirmed] at hb
      exact absurd hb (by simp)
    have hget : (s.confirmed.insert b.experimentId b.variant).get? a.experimentId =
        some a.variant := by rw [Table.get?_insert, if_neg hne, h.confirmed]
    rw [hs]
    exact ⟨hget, hget⟩
  · rw [hs]
    exact h

theorem Settled.reconcile (h : s.Settled a) {triggers : List Trigger}
    (hc : ¬ (StoreCall.reconcile triggers).Unsettles a) : (s.reconcile triggers).2.Settled a := by
  have hoffered : ∀ e, VisitedExperiment triggers e → e.id = a.experimentId →
      e.hasVariant a.variant.id := by
    intro e he hid
    refine Decidable.byContradiction fun hv => ?_
    exact hc ⟨e, he, hid, hv⟩
  have hscan : (s.reconciled triggers).Settled a :=
    ⟨confirmed_reconciled.mpr ⟨h.confirmed, hoffered⟩, by rw [record_reconciled, h.recorded]⟩
  rw [reconcile_snd]
  split
  · exact hscan
  · exact hscan.attemptSave

theorem Settled.transfer (h : s.Settled a) {assignments : List ServerAssignment}
    {triggers : List Trigger} (hc : ¬ (StoreCall.transfer assignments triggers).Unsettles a) :
    (s.transfer assignments triggers).2.Settled a := by
  have hother : ∀ b ∈ assignments, b.experimentId = a.experimentId → ¬ Adopted triggers b := by
    intro b hb hid had
    exact hc ⟨b, hb, hid, had⟩
  have hscan : (s.transferred assignments triggers).Settled a :=
    ⟨by rw [confirmed_transferred_of_not_adopted hother, h.confirmed],
      by rw [record_transferred, h.recorded]⟩
  rw [transfer_snd]
  split
  · exact h
  · exact hscan.attemptSave

theorem Settled.perform (h : s.Settled a) {c : StoreCall} (hc : ¬ c.Unsettles a) :
    (s.perform c).2.Settled a := by
  cases c with
  | resolve e => exact h.resolve e
  | confirm b => exact h.confirm b
  | clear => exact absurd trivial hc
  | reconcile triggers => exact h.reconcile hc
  | transfer assignments triggers => exact h.transfer hc

end AssignmentStore

namespace StoreSession

variable {t t' : StoreSession}

/-- What is open and the record both hold an assignment. -/
def Settled (a : ConfirmableAssignment) : StoreSession → Prop
  | .opened s => s.Settled a
  | .closed record => record.stored.get? a.experimentId = some a.variant

theorem Settled.recorded (h : t.Settled a) :
    t.record.stored.get? a.experimentId = some a.variant := by
  cases t with
  | opened s => exact AssignmentStore.Settled.recorded h
  | closed record => exact h

theorem Settled.perform (h : t.Settled a) {step : StoreStep} (hs : ¬ step.Unsettles a) :
    (t.perform step).2.Settled a := by
  cases step with
  | call c =>
    cases t with
    | opened s => exact AssignmentStore.Settled.perform h hs
    | closed record => exact h
  | close => exact h.recorded
  | reopen seed =>
    have hr := h.recorded
    simp only [StoreSession.perform, AssignmentStore.openRecord, Record.load]
    cases t.record.loadFault with
    | none => exact ⟨hr, hr⟩
    | some reason => exact h
  | faults save load =>
    cases t with
    | opened s =>
      have hs : s.Settled a := h
      exact ⟨hs.confirmed, hs.recorded⟩
    | closed record => exact h

theorem Settled.run (h : t.Settled a) {steps : List StoreStep}
    (hs : ∀ step ∈ steps, ¬ step.Unsettles a) : (t.run steps).Settled a := by
  induction steps generalizing t with
  | nil => exact h
  | cons step steps ih =>
    obtain ⟨hstep, hs⟩ := List.forall_mem_cons.mp hs
    exact ih (h.perform hstep) hs

/-- Only an open store confirms anything. -/
theorem settled_of_confirmed
    (h : (t.perform (.call (.confirm a))).1 = some (.confirmed (.ok true))) :
    (t.perform (.call (.confirm a))).2.Settled a := by
  cases t with
  | opened s =>
    have hok : (s.confirm a).1 = .ok true := StoreAnswer.confirmed.inj (Option.some.inj h)
    exact AssignmentStore.settled_of_confirm hok
  | closed record => exact absurd h (by simp [StoreSession.perform])

/-- Whatever has been done to a session before: once an experiment is confirmed, its variant is
given to everybody who asks for the experiment, as one that needs no confirmation, until a step takes
the assignment away. -/
theorem resolve_after_confirm {later : List StoreStep} {s : AssignmentStore} {e : Experiment}
    (hconfirm : (t.perform (.call (.confirm a))).1 = some (.confirmed (.ok true)))
    (hlater : ∀ step ∈ later, ¬ step.Unsettles a)
    (hopen : (t.perform (.call (.confirm a))).2.run later = .opened s)
    (he : e.id = a.experimentId) :
    s.perform (.resolve e) = (.resolved (.ok ⟨a.variant, false⟩), s) := by
  have hsettled := (settled_of_confirmed hconfirm).run hlater
  rw [hopen] at hsettled
  have hget : s.confirmed.get? e.id = some a.variant :=
    he ▸ AssignmentStore.Settled.confirmed hsettled
  rw [AssignmentStore.perform, AssignmentStore.resolve_of_confirmed hget]
  rfl

/-- A trigger with two experiments. -/
def twoExperiments : List Trigger :=
  let e : Experiment := ⟨"e", "g", [⟨"v", 1.0, .treatment, some "p"⟩, ⟨"w", 1.0, .holdout, none⟩]⟩
  let f : Experiment := ⟨"f", "g", [⟨"y", 1.0, .holdout, none⟩]⟩
  [⟨"open", [⟨none, none, e, [], none⟩, ⟨none, none, f, [], none⟩]⟩]

/-- An assignment for the first of them. -/
def chosen : ConfirmableAssignment := ⟨"e", ⟨"v", .treatment, some "p"⟩⟩

/-- Saves fail, so that memory and record come to differ about the experiment `f`; then the store
goes away, and the record cannot be loaded at first. -/
def troubledSteps : List StoreStep :=
  [.faults (some "disk full") none, .call (.confirm ⟨"f", ⟨"z", .holdout, none⟩⟩),
    .call (.transfer [⟨"f", "y"⟩] twoExperiments), .call (.reconcile twoExperiments), .close,
    .faults none (some "record unreadable"), .reopen 2, .faults none none, .reopen 3]

/-- The general theorem at a run with faults and restarts. -/
theorem resolve_after_troubledSteps :
    let t := (closed (.ofStored ∅)).run [.reopen 1]
    (t.perform (.call (.confirm chosen))).1 = some (.confirmed (.ok true)) ∧
      (∀ step ∈ troubledSteps, ¬ step.Unsettles chosen) ∧
      ∃ s, (t.perform (.call (.confirm chosen))).2.run troubledSteps = .opened s ∧
        s.perform (.resolve ⟨"e", "other", []⟩) = (.resolved (.ok ⟨chosen.variant, false⟩), s) := by
  intro t
  have hconfirm : (t.perform (.call (.confirm chosen))).1 = some (.confirmed (.ok true)) := rfl
  have hlater : ∀ step ∈ troubledSteps, ¬ step.Unsettles chosen := by decide
  exact ⟨hconfirm, hlater, _, rfl, resolve_after_confirm hconfirm hlater rfl rfl⟩

end StoreSession

end Paywall
