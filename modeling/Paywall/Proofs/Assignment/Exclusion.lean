import Paywall.Proofs.Assignment.Scan

/-!
# One assignment per experiment

No experiment has a confirmed and an unconfirmed variant at once. What gives an experiment one of the
two takes the other away, and a confirmation that cannot be saved gives nothing. A store that is
opened has nothing unconfirmed, whatever record it finds.
-/

namespace Paywall

namespace AssignmentStore

variable {s : AssignmentStore}

/-- No experiment has both a confirmed and an unconfirmed variant. -/
def Exclusive (s : AssignmentStore) : Prop :=
  ∀ id, s.confirmed.get? id = none ∨ s.unconfirmed.get? id = none

theorem Exclusive.of_unconfirmed_empty (h : s.unconfirmed = ∅) : s.Exclusive := by
  intro id
  rw [h]
  exact Or.inr (Table.get?_empty id)

/-- Taking unconfirmed variants away does no harm. -/
theorem Exclusive.erase_unconfirmed (h : s.Exclusive) (id : String) :
    Exclusive { s with unconfirmed := s.unconfirmed.erase id } := by
  intro k
  refine (h k).imp_right fun hk => ?_
  rw [Table.get?_erase, hk, ite_self]

/-- An unconfirmed variant may be given to an experiment that has no confirmed one. -/
theorem Exclusive.insert_unconfirmed (h : s.Exclusive) {id : String}
    (hid : s.confirmed.get? id = none) (v : Variant) :
    Exclusive { s with unconfirmed := s.unconfirmed.insert id v } := by
  intro k
  by_cases hk : id = k
  · exact Or.inl (hk ▸ hid)
  · refine (h k).imp_right fun hnone => ?_
    rw [Table.get?_insert, if_neg hk, hnone]

/-- Taking a confirmed variant away does no harm. -/
theorem Exclusive.erase_confirmed (h : s.Exclusive) (id : String) :
    Exclusive { s with confirmed := s.confirmed.erase id } := by
  intro k
  refine (h k).imp_left fun hk => ?_
  rw [Table.get?_erase, hk, ite_self]

/-- A confirmed variant takes the place of an unconfirmed one. -/
theorem Exclusive.settle (h : s.Exclusive) (id : String) (v : Variant) :
    Exclusive { s with
      confirmed := s.confirmed.insert id v
      unconfirmed := s.unconfirmed.erase id } := by
  intro k
  by_cases hk : id = k
  · exact Or.inr (by simp [hk])
  · simpa [hk] using h k

/-! ## The operations -/

theorem Exclusive.resolve (h : s.Exclusive) (e : Experiment) : (s.resolve e).2.Exclusive := by
  unfold AssignmentStore.resolve
  cases hc : s.confirmed.get? e.id with
  | some v => exact h
  | none =>
    cases s.unconfirmed.get? e.id with
    | some v => exact h
    | none =>
      have hdrawn : (s.draw e.variants).2.Exclusive := h
      have hfree : (s.draw e.variants).2.confirmed.get? e.id = none := hc
      rcases hd : s.draw e.variants with ⟨_ | v, t⟩
      all_goals rw [hd] at hdrawn hfree
      · exact hdrawn
      · exact hdrawn.insert_unconfirmed hfree v

theorem Exclusive.confirm (h : s.Exclusive) (a : ConfirmableAssignment) :
    (s.confirm a).2.Exclusive := by
  rcases s.confirm_cases a with ⟨-, heq⟩ | ⟨-, -, heq⟩ | ⟨-, reason, -, heq⟩
  · rw [heq]
    exact h.erase_unconfirmed a.experimentId
  · rw [heq]
    exact h.settle a.experimentId a.variant
  · rw [heq]
    exact h

theorem Exclusive.refreshUnconfirmed (h : s.Exclusive) {e : Experiment}
    (hfree : s.confirmed.get? e.id = none) : (s.refreshUnconfirmed e).Exclusive := by
  have hdrawn : (s.draw e.variants).2.Exclusive := h
  have hfree : (s.draw e.variants).2.confirmed.get? e.id = none := hfree
  unfold AssignmentStore.refreshUnconfirmed
  split
  · exact h
  · rcases hd : s.draw e.variants with ⟨_ | v, t⟩
    all_goals rw [hd] at hdrawn hfree
    · exact hdrawn.erase_unconfirmed e.id
    · exact hdrawn.insert_unconfirmed hfree v

theorem Exclusive.reconcileExperiment (h : s.Exclusive) (e : Experiment) :
    (s.reconcileExperiment e).Exclusive := by
  unfold AssignmentStore.reconcileExperiment
  split
  · exact h.erase_unconfirmed e.id
  · exact (h.erase_confirmed e.id).refreshUnconfirmed (by simp)

theorem Exclusive.adopt (h : s.Exclusive) (table : Table Experiment) (b : ServerAssignment) :
    (adopt table s b).Exclusive := by
  unfold AssignmentStore.adopt
  cases adopted? table b with
  | none => exact h
  | some v => exact h.settle b.experimentId v

/-- A list may be worked off if each of its items may. -/
theorem Exclusive.foldl {α : Type} {f : AssignmentStore → α → AssignmentStore} (h : s.Exclusive)
    (hf : ∀ s x, s.Exclusive → (f s x).Exclusive) (xs : List α) :
    (xs.foldl f s).Exclusive := by
  induction xs generalizing s with
  | nil => exact h
  | cons x xs ih => exact ih (hf s x h)

theorem Exclusive.scan (h : s.Exclusive) (c : StoreCall) : (c.scan s).Exclusive := by
  cases c with
  | resolve e => exact h.resolve e
  | confirm a => exact h
  | clear => exact of_unconfirmed_empty rfl
  | reconcile triggers => exact h.foldl (fun _ e hs => hs.reconcileExperiment e) _
  | transfer assignments triggers => exact h.foldl (fun _ b hs => hs.adopt _ b) _

/-- A call leaves the maps of its scan behind, whether they could be saved or not. -/
theorem Exclusive.perform (h : s.Exclusive) (c : StoreCall) : (s.perform c).2.Exclusive := by
  by_cases hc : c.isConfirm
  · cases c with
    | confirm a => exact h.confirm a
    | _ => cases hc
  · rw [Bool.not_eq_true] at hc
    obtain ⟨r, hend⟩ := s.perform_eq_scan hc
    rw [hend]
    exact h.scan c

end AssignmentStore

namespace StoreSession

variable {t : StoreSession}

/-- If a store is open, no experiment has two variants in it. -/
def Exclusive : StoreSession → Prop
  | .opened s => s.Exclusive
  | .closed _ => True

theorem Exclusive.perform (h : t.Exclusive) (step : StoreStep) : (t.perform step).2.Exclusive := by
  cases step with
  | call c =>
    cases t with
    | opened s => exact AssignmentStore.Exclusive.perform h c
    | closed record => exact trivial
  | close => exact trivial
  | reopen seed =>
    simp only [StoreSession.perform, AssignmentStore.openRecord, Record.load]
    cases t.record.loadFault with
    | none => exact AssignmentStore.Exclusive.of_unconfirmed_empty rfl
    | some reason => exact h
  | faults save load =>
    cases t with
    | opened s => exact h
    | closed record => exact trivial

theorem Exclusive.run (h : t.Exclusive) (steps : List StoreStep) : (t.run steps).Exclusive := by
  induction steps generalizing t with
  | nil => exact h
  | cons step steps ih => exact ih (h.perform step)

/-- Whatever record the stores of a run find, and whichever saves and loads fail: in no store that is
open an experiment is a key of both maps. -/
theorem not_confirmed_and_unconfirmed {record : Record} {steps : List StoreStep}
    {s : AssignmentStore} (hopen : (closed record).run steps = .opened s) (id : String) :
    ¬ (s.confirmed.contains id ∧ s.unconfirmed.contains id) := by
  have hclosed : (closed record).Exclusive := trivial
  have hrun := hclosed.run steps
  rw [hopen] at hrun
  have hid : s.confirmed.get? id = none ∨ s.unconfirmed.get? id = none := hrun id
  unfold Table.contains
  rintro ⟨hc, hu⟩
  rcases hid with hnone | hnone
  · rw [hnone] at hc
    cases hc
  · rw [hnone] at hu
    cases hu

/-- The record brings a variant that is not offered any more. The experiment is drawn anew and the
draw is not confirmed, as nothing can be saved; then the server assigns a variant, and that cannot be
saved either. -/
def unsavedSteps : List StoreStep :=
  let e : Experiment := ⟨"e", "g", [⟨"w", 1.0, .holdout, none⟩]⟩
  let triggers : List Trigger := [⟨"open", [⟨none, none, e, [], none⟩]⟩]
  [.reopen 1, .faults (some "disk full") none, .call (.reconcile triggers),
    .call (.confirm ⟨"e", ⟨"w", .holdout, none⟩⟩), .call (.resolve e),
    .call (.transfer [⟨"e", "w"⟩] triggers)]

/-- The general theorem at a run in which every save fails. -/
theorem not_both_after_unsavedSteps :
    let record := Record.ofStored (Table.insert ∅ "e" ⟨"v", .treatment, some "p"⟩)
    ∃ s, (closed record).run unsavedSteps = .opened s ∧ s.confirmed.contains "e" ∧
      ¬ (s.confirmed.contains "e" ∧ s.unconfirmed.contains "e") := by
  intro record
  have hopen : (closed record).run unsavedSteps = .opened _ := rfl
  exact ⟨_, hopen, rfl, not_confirmed_and_unconfirmed hopen "e"⟩

end StoreSession

end Paywall
