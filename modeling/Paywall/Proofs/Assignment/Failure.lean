import Paywall.Proofs.Assignment.Scan

/-!
# What is left of a call that cannot be saved

Clearing, reconciling and transferring change the maps in memory before they are saved and do not
take that back. So the maps behind a failed call are those behind a successful one, and memory is
ahead of the record until something else is saved or the store goes away. The maps are as they were
before only if the call had nothing to change in them.
-/

namespace Paywall

/-- Whether a call that has to be saved finds the maps as it would make them. Reconciling never does:
it is saved only if it drops a confirmed variant. -/
def StoreCall.Redundant (s : AssignmentStore) : StoreCall → Prop
  | .clear => s.confirmed = ∅ ∧ s.unconfirmed = ∅
  | .transfer assignments triggers =>
    ∀ id v, AssignmentStore.lastAdopted? assignments triggers id = some v →
      s.confirmed.get? id = some v ∧ s.unconfirmed.get? id = none
  | _ => False

namespace AssignmentStore

variable {s : AssignmentStore} {c : StoreCall}

theorem not_isConfirm_of_isUnsaved (h : (s.perform c).1.isUnsaved) : c.isConfirm = false := by
  cases c with
  | confirm a => exact absurd h Bool.false_ne_true
  | _ => rfl

/-- If the change cannot be saved, the call ends where its scan ended, over the same record. -/
theorem perform_of_isUnsaved (h : (s.perform c).1.isUnsaved) : (s.perform c).2 = c.scan s := by
  have hc := not_isConfirm_of_isUnsaved h
  rcases s.perform_cases hc with ⟨hno, -⟩ | ⟨hno, -⟩ | ⟨-, -, hend⟩
  · rw [hno] at h
    cases h
  · rw [hno] at h
    cases h
  · exact hend

/-- Once the record works again, the same call leaves the same maps. -/
theorem maps_of_isUnsaved (h : (s.perform c).1.isUnsaved) :
    (s.perform c).2 = { ((s.withSaveFault none).perform c).2 with record := s.record } := by
  have hc := not_isConfirm_of_isUnsaved h
  obtain ⟨r, hsaved⟩ := (s.withSaveFault none).perform_eq_scan hc
  have hframe := s.scan_frame { s.record with saveFault := none } s.outbox c
  have hrecord : (c.scan s).record = s.record := record_scan
  have houtbox : (c.scan s).outbox = s.outbox := outbox_scan
  have hscan : c.scan (s.withSaveFault none) =
      { c.scan s with record := { s.record with saveFault := none }, outbox := s.outbox } := hframe
  rw [perform_of_isUnsaved h, hsaved, hscan, ← hrecord, ← houtbox]

/-! ## When the maps are as before -/

theorem confirmed_ne_of_reconcile_error {triggers : List Trigger}
    (h : (s.perform (.reconcile triggers)).1.isUnsaved) :
    (s.reconciled triggers).confirmed ≠ s.confirmed := by
  intro hkept
  simp only [perform, reconcile] at h
  rw [← reconciled, if_pos hkept] at h
  cases h

/-- A transfer leaves the maps alone if and only if it has nothing to change in them. -/
theorem transferred_maps_iff {assignments : List ServerAssignment} {triggers : List Trigger} :
    (s.transferred assignments triggers).confirmed = s.confirmed ∧
        (s.transferred assignments triggers).unconfirmed = s.unconfirmed ↔
      (StoreCall.transfer assignments triggers).Redundant s := by
  constructor
  · rintro ⟨hconfirmed, hunconfirmed⟩ id v hlast
    constructor
    · have hget := s.confirmed_transferred assignments triggers id
      rw [hconfirmed, hlast] at hget
      exact hget
    · have hget := s.unconfirmed_transferred assignments triggers id
      rw [hunconfirmed, hlast] at hget
      exact hget
  · intro hredundant
    constructor
    · refine Table.ext_get? fun id => ?_
      rw [confirmed_transferred]
      cases hlast : lastAdopted? assignments triggers id with
      | none => rfl
      | some v => exact (hredundant id v hlast).1.symm
    · refine Table.ext_get? fun id => ?_
      rw [unconfirmed_transferred]
      cases hlast : lastAdopted? assignments triggers id with
      | none => rfl
      | some v => exact (hredundant id v hlast).2.symm

theorem scan_maps_iff (h : (s.perform c).1.isUnsaved) :
    (c.scan s).confirmed = s.confirmed ∧ (c.scan s).unconfirmed = s.unconfirmed ↔
      c.Redundant s := by
  cases c with
  | resolve e => exact absurd h Bool.false_ne_true
  | confirm a => exact absurd h Bool.false_ne_true
  | clear => exact ⟨fun hk => ⟨hk.1.symm, hk.2.symm⟩, fun hk => ⟨hk.1.symm, hk.2.symm⟩⟩
  | reconcile triggers =>
    have hne := confirmed_ne_of_reconcile_error h
    exact ⟨fun hk => absurd hk.1 hne, fun hk => hk.elim⟩
  | transfer assignments triggers => exact transferred_maps_iff

/-- A call that reports that it cannot be saved has changed the maps like one that is saved, only the
record is untouched. They are as they were before if and only if there was nothing to change. -/
theorem maps_of_unsaved_call (h : (s.perform c).1.isUnsaved) :
    (s.perform c).2 = { ((s.withSaveFault none).perform c).2 with record := s.record } ∧
      ((s.perform c).2.confirmed = s.confirmed ∧ (s.perform c).2.unconfirmed = s.unconfirmed ↔
        c.Redundant s) := by
  refine ⟨maps_of_isUnsaved h, ?_⟩
  rw [perform_of_isUnsaved h]
  exact scan_maps_iff h

end AssignmentStore

namespace StoreSession

/-- A trigger whose experiment offers a single variant. -/
def onlyW : List Trigger :=
  [⟨"open", [⟨none, none, ⟨"e", "g", [⟨"w", 1.0, .holdout, none⟩]⟩, [], none⟩]⟩]

/-- A session in which a variant is confirmed that `onlyW` does not offer; after that nothing can be
saved. -/
def fullDisk : StoreSession :=
  (closed (.ofStored ∅)).run
    [.reopen 1, .call (.confirm ⟨"e", ⟨"v", .treatment, some "p"⟩⟩), .faults (some "disk full") none]

/-- The general theorem at a clearing that cannot be saved. -/
theorem maps_of_unsaved_clear :
    ∃ s, fullDisk = .opened s ∧ (s.perform .clear).1.isUnsaved ∧
      (s.perform .clear).2 = { ((s.withSaveFault none).perform .clear).2 with record := s.record } ∧
      ((s.perform .clear).2.confirmed = s.confirmed ∧
          (s.perform .clear).2.unconfirmed = s.unconfirmed ↔
        StoreCall.clear.Redundant s) :=
  ⟨_, rfl, rfl, AssignmentStore.maps_of_unsaved_call rfl⟩

/-- Each of the three calls fails there and leaves its change behind: the confirmed variant is gone
or replaced in memory, while the record still has it. -/
theorem unsaved_calls_leave_changes :
    ∃ s, fullDisk = .opened s ∧
      ∀ c ∈ [StoreCall.clear, .reconcile onlyW, .transfer [⟨"e", "w"⟩] onlyW],
        (s.perform c).1.isUnsaved ∧ (s.perform c).2.confirmed ≠ s.confirmed ∧
          (s.perform c).2.record = s.record :=
  ⟨_, rfl, by decide⟩

end StoreSession

end Paywall
