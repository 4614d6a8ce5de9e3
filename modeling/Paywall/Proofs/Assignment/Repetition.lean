import Paywall.Proofs.Assignment.Coverage
import Paywall.Proofs.Assignment.Failure

/-!
# Reconciling and adopting once more

A refresh reconciles the assignments and then adopts those that the server has made. What is adopted
is offered, so it leaves every experiment in line, and of the assignments for one experiment the last
one counts, now as before. So behind a refresh both passes have nothing left to do, and the record
holds what adopting would write to it.
-/

namespace Paywall

namespace AssignmentStore

variable {s : AssignmentStore} {assignments : List ServerAssignment} {triggers : List Trigger}

/-- Nothing is left to do for these server assignments and triggers. -/
structure Refreshed (s : AssignmentStore) (assignments : List ServerAssignment)
    (triggers : List Trigger) : Prop where
  reconciled : s.reconciled triggers = s
  transferred : s.transferred assignments triggers = s
  recorded : (∃ b ∈ assignments, Adopted triggers b) → s.record.stored = s.confirmed

/-! ## What is adopted -/

/-- What is adopted for an experiment is offered by its definition. -/
theorem hasVariant_of_lastAdopted? {id : String} {v : Variant} {e : Experiment}
    (hlast : lastAdopted? assignments triggers id = some v)
    (hdefinition : definition? triggers id = some e) : e.hasVariant v.id := by
  obtain ⟨b, hb, hadopted⟩ := List.mem_filterMap.mp (List.mem_of_getLast? hlast)
  have hid : b.experimentId = id := of_decide_eq_true (List.mem_filter.mp hb).2
  rw [adopted?_definitions, hid, hdefinition] at hadopted
  obtain ⟨o, ho, rfl⟩ := Option.map_eq_some_iff.mp hadopted
  exact hasVariant_toVariant (List.mem_of_find?_eq_some ho)

/-- Adopting leaves an experiment in line. -/
theorem Aligned.transferred {e : Experiment} (h : s.Aligned e) (hdefined : DefinedOnce triggers)
    (he : e ∈ experimentsOf triggers) : (s.transferred assignments triggers).Aligned e := by
  have hc := s.confirmed_transferred assignments triggers e.id
  have hu := s.unconfirmed_transferred assignments triggers e.id
  cases hlast : lastAdopted? assignments triggers e.id with
  | none =>
    rw [hlast] at hc hu
    exact h.congr hc hu
  | some v =>
    rw [hlast] at hc hu
    exact .assigned v (Or.inl ⟨hc, hu⟩) (hasVariant_of_lastAdopted? hlast (hdefined.definition? he))

theorem transferred_of_redundant (h : (StoreCall.transfer assignments triggers).Redundant s) :
    s.transferred assignments triggers = s := by
  obtain ⟨hc, hu⟩ := transferred_maps_iff.mpr h
  rw [transferred_eq, hc, hu]

/-- A successful transfer that adopts anything has written the confirmed map to the record. -/
theorem recorded_of_transfer {n : Nat} (hok : (s.transfer assignments triggers).1 = .ok n)
    (hadopted : ∃ b ∈ assignments, Adopted triggers b) :
    (s.transfer assignments triggers).2.record.stored =
      (s.transfer assignments triggers).2.confirmed := by
  obtain ⟨b, hb, hadopted⟩ := hadopted
  have hcount : assignments.countP (fun b => (adopted? (definitions triggers) b).isSome) ≠ 0 := by
    intro hzero
    exact List.countP_eq_zero.mp hzero b hb (isSome_adopted?_iff.mpr hadopted)
  unfold transfer at hok ⊢
  dsimp only at hok ⊢
  rw [if_neg hcount] at hok ⊢
  rcases save_cases (assignments.foldl (adopt (definitions triggers)) s) with
    ⟨-, hsaved⟩ | ⟨reason, -, hunsaved⟩
  · rw [hsaved]
    rfl
  · rw [hunsaved] at hok
    cases hok

/-! ## Behind a refresh -/

/-- Behind a successful refresh nothing is left to do. -/
theorem refreshed_of_transfer {n : Nat} (hdefined : DefinedOnce triggers) (s : AssignmentStore)
    (hok : ((s.reconcile triggers).2.transfer assignments triggers).1 = .ok n) :
    ((s.reconcile triggers).2.transfer assignments triggers).2.Refreshed assignments triggers := by
  obtain ⟨r, hreconcile⟩ := s.perform_eq_scan (c := .reconcile triggers) rfl
  obtain ⟨r', htransfer⟩ :=
    (s.reconcile triggers).2.perform_eq_scan (c := .transfer assignments triggers) rfl
  have hreconcile : (s.reconcile triggers).2 = { s.reconciled triggers with record := r } :=
    hreconcile
  have htransfer : ((s.reconcile triggers).2.transfer assignments triggers).2 =
      { (s.reconcile triggers).2.transferred assignments triggers with record := r' } := htransfer
  refine ⟨reconciled_eq_self fun e he => ?_, transferred_of_redundant fun id v hlast => ?_,
    fun hadopted => recorded_of_transfer hok hadopted⟩
  · have haligned : (s.reconcile triggers).2.Aligned e := by
      rw [hreconcile]
      exact (aligned_reconciled hdefined s he).congr rfl rfl
    rw [htransfer]
    exact (haligned.transferred hdefined he.mem).congr rfl rfl
  · have hc := (s.reconcile triggers).2.confirmed_transferred assignments triggers id
    have hu := (s.reconcile triggers).2.unconfirmed_transferred assignments triggers id
    rw [hlast] at hc hu
    rw [htransfer]
    exact ⟨hc, hu⟩

/-- Whether the record can be saved is of no account. -/
theorem Refreshed.withSaveFault (h : s.Refreshed assignments triggers) (reason : Option String) :
    (s.withSaveFault reason).Refreshed assignments triggers := by
  have hreconciled := s.scan_frame { s.record with saveFault := reason } s.outbox (.reconcile triggers)
  have htransferred :=
    s.scan_frame { s.record with saveFault := reason } s.outbox (.transfer assignments triggers)
  simp only [StoreCall.scan, h.reconciled, h.transferred] at hreconciled htransferred
  exact ⟨hreconciled, htransferred, h.recorded⟩

/-- To reconcile once more does nothing. -/
theorem Refreshed.reconcile_eq (h : s.Refreshed assignments triggers) :
    s.reconcile triggers = (.ok (), s) :=
  reconcile_of_reconciled h.reconciled

/-- To adopt once more leaves the store as it is, but for the number of saves. It only fails if the
record cannot be saved. -/
theorem Refreshed.transfer_cases (h : s.Refreshed assignments triggers) :
    ∃ saves, (s.transfer assignments triggers).2 = { s with record := { s.record with saves } } ∧
      (s.record.saveFault = none → ∃ n, (s.transfer assignments triggers).1 = .ok n) := by
  unfold AssignmentStore.transfer
  dsimp only
  rw [← AssignmentStore.transferred, h.transferred]
  split
  · exact ⟨s.record.saves, rfl, fun _ => ⟨0, rfl⟩⟩
  · next hcount =>
    have hadopted : ∃ b ∈ assignments, Adopted triggers b := by
      obtain ⟨b, hb, hsome⟩ := List.countP_pos_iff.mp (Nat.pos_of_ne_zero hcount)
      exact ⟨b, hb, isSome_adopted?_iff.mp hsome⟩
    rcases s.save_cases with ⟨-, hsaved⟩ | ⟨reason, hfault, hunsaved⟩
    · rw [hsaved, saved, ← h.recorded hadopted]
      exact ⟨s.record.saves + 1, rfl, fun _ => ⟨_, rfl⟩⟩
    · rw [hunsaved]
      refine ⟨s.record.saves, rfl, fun hnone => ?_⟩
      rw [hfault] at hnone
      cases hnone

end AssignmentStore

end Paywall
