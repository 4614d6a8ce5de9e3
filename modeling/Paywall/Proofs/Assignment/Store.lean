import Paywall.Proofs.Assignment.Triggers

/-!
# What an operation leaves of the confirmed map and the record

Every operation is described by the fields behind it. Those that work through a list first change
the maps entry by entry; the record is written at most once, at the end, and if that fails it stays
as it was.
-/

namespace Paywall

namespace AssignmentStore

variable {s : AssignmentStore}

/-! ## Saving -/

/-- The store behind an attempt to save. -/
def attemptSave (s : AssignmentStore) : AssignmentStore :=
  match s.save with
  | .ok saved => saved
  | .error _ => s

theorem save_eq (s : AssignmentStore) :
    s.save =
      match s.record.saveFault with
      | none =>
        .ok { s with record := { s.record with stored := s.confirmed, saves := s.record.saves + 1 } }
      | some reason => .error (.persistence reason) := by
  obtain ⟨confirmed, unconfirmed, stream, ⟨stored, saves, saveFault, loadFault⟩, outbox⟩ := s
  cases saveFault <;> rfl

@[simp] theorem confirmed_attemptSave : s.attemptSave.confirmed = s.confirmed := by
  unfold attemptSave
  rw [save_eq]
  cases s.record.saveFault <;> rfl

/-- The record is replaced by the confirmed map, or is left alone. -/
theorem stored_attemptSave :
    s.attemptSave.record.stored = s.confirmed ∨ s.attemptSave.record = s.record := by
  unfold attemptSave
  rw [save_eq]
  cases s.record.saveFault with
  | none => exact Or.inl rfl
  | some reason => exact Or.inr rfl

/-! ## Drawing and resolving -/

@[simp] theorem confirmed_draw (options : List VariantOption) :
    (s.draw options).2.confirmed = s.confirmed := rfl

@[simp] theorem record_draw (options : List VariantOption) :
    (s.draw options).2.record = s.record := rfl

/-- A confirmed variant is given to everybody who asks, and nothing changes. -/
theorem resolve_of_confirmed {e : Experiment} {v : Variant} (h : s.confirmed.get? e.id = some v) :
    s.resolve e = (.ok ⟨v, false⟩, s) := by
  unfold resolve
  rw [h]

/-- The variant that the user holds of an experiment, confirmed or not. If it has both, the confirmed
one is preferred. -/
def held? (s : AssignmentStore) (id : String) : Option Variant :=
  s.confirmed.get? id <|> s.unconfirmed.get? id

/-- A variant that is held is given to everybody who asks, whatever else is offered. It needs to be
confirmed if no variant is, and nothing changes. -/
theorem resolve_held {e : Experiment} {v : Variant} (h : s.held? e.id = some v) :
    s.resolve e = (.ok ⟨v, (s.confirmed.get? e.id).isNone⟩, s) := by
  unfold held? at h
  cases hc : s.confirmed.get? e.id with
  | some w =>
    simp only [hc, Option.orElse_eq_orElse, Option.orElse_eq_or, Option.some_or] at h
    rw [s.resolve_of_confirmed hc, Option.some.inj h]
    rfl
  | none =>
    simp only [hc, Option.orElse_eq_orElse, Option.orElse_eq_or, Option.none_or] at h
    unfold resolve
    rw [hc, h]
    rfl

/-- Resolving touches neither the confirmed map nor the record. -/
theorem confirmed_record_resolve (s : AssignmentStore) (e : Experiment) :
    (s.resolve e).2.confirmed = s.confirmed ∧ (s.resolve e).2.record = s.record := by
  have hc := s.confirmed_draw e.variants
  have hr := s.record_draw e.variants
  unfold resolve
  cases s.confirmed.get? e.id with
  | some v => exact ⟨rfl, rfl⟩
  | none =>
    cases s.unconfirmed.get? e.id with
    | some v => exact ⟨rfl, rfl⟩
    | none =>
      rcases hd : s.draw e.variants with ⟨_ | v, t⟩
      all_goals
        rw [hd] at hc hr
        exact ⟨hc, hr⟩

/-- Resolving posts nothing. -/
theorem outbox_resolve (s : AssignmentStore) (e : Experiment) :
    (s.resolve e).2.outbox = s.outbox := by
  have hdraw : (s.draw e.variants).2.outbox = s.outbox := rfl
  unfold resolve
  cases s.confirmed.get? e.id with
  | some v => rfl
  | none =>
    cases s.unconfirmed.get? e.id with
    | some v => rfl
    | none => rcases hd : s.draw e.variants with ⟨_ | v, t⟩ <;> rwa [hd] at hdraw

/-- A variant has to be confirmed if none is, and otherwise is the confirmed one. -/
theorem confirmed_of_resolve {e : Experiment} {v : ResolvedVariant} {t : AssignmentStore}
    (h : s.resolve e = (.ok v, t)) :
    s.confirmed.get? e.id = if v.confirmable then none else some v.variant := by
  unfold resolve at h
  cases hc : s.confirmed.get? e.id with
  | some w =>
    simp only [hc, Prod.mk.injEq, Except.ok.injEq] at h
    rw [← h.1]
    rfl
  | none =>
    have hv : v.confirmable = true := by
      cases hu : s.unconfirmed.get? e.id with
      | some w =>
        simp only [hc, hu, Prod.mk.injEq, Except.ok.injEq] at h
        rw [← h.1]
      | none =>
        rcases hd : s.draw e.variants with ⟨_ | w, u⟩
        · simp [hc, hu, hd] at h
        · simp only [hc, hu, hd, Prod.mk.injEq, Except.ok.injEq] at h
          rw [← h.1]
    rw [hv]
    rfl

/-! ## Confirming -/

/-- The three ways a confirmation can go: the experiment is confirmed already, the assignment is
saved, or saving fails. -/
theorem confirm_cases (s : AssignmentStore) (a : ConfirmableAssignment) :
    (s.confirmed.contains a.experimentId ∧
      s.confirm a = (.ok false, { s with unconfirmed := s.unconfirmed.erase a.experimentId })) ∨
    (s.confirmed.contains a.experimentId = false ∧ s.record.saveFault = none ∧
      s.confirm a = (.ok true,
        { s with
          confirmed := s.confirmed.insert a.experimentId a.variant
          unconfirmed := s.unconfirmed.erase a.experimentId
          record := { s.record with
            stored := s.confirmed.insert a.experimentId a.variant
            saves := s.record.saves + 1 }
          outbox := s.outbox ++ [a] })) ∨
    (s.confirmed.contains a.experimentId = false ∧ ∃ reason, s.record.saveFault = some reason ∧
      s.confirm a = (.error (.persistence reason), s)) := by
  unfold confirm
  split
  · next hc => exact Or.inl ⟨hc, rfl⟩
  · next hc =>
    right
    rw [save_eq]
    have hc := Bool.not_eq_true _ ▸ hc
    cases hf : s.record.saveFault with
    | none => exact Or.inl ⟨hc, rfl, rfl⟩
    | some reason => exact Or.inr ⟨hc, reason, rfl, rfl⟩

/-- An experiment without a confirmed variant gets one by confirming, if it can be saved. -/
theorem confirmed_confirm {a : ConfirmableAssignment}
    (h : s.confirmed.get? a.experimentId = none) :
    (s.confirm a).2.confirmed =
      if s.record.saveFault = none then s.confirmed.insert a.experimentId a.variant
      else s.confirmed := by
  rcases s.confirm_cases a with ⟨hc, -⟩ | ⟨-, hfault, heq⟩ | ⟨-, reason, hfault, heq⟩
  · rw [Table.contains, h] at hc
    cases hc
  · rw [heq, if_pos hfault]
  · rw [heq, if_neg (by simp [hfault])]

/-! ## Reconciling -/

/-- The store behind the scan of `reconcile`, before anything is saved. -/
def reconciled (s : AssignmentStore) (triggers : List Trigger) : AssignmentStore :=
  (experimentsOf (visited [] triggers)).foldl reconcileExperiment s

theorem reconcile_snd (s : AssignmentStore) (triggers : List Trigger) :
    (s.reconcile triggers).2 =
      if (s.reconciled triggers).confirmed = s.confirmed then s.reconciled triggers
      else (s.reconciled triggers).attemptSave := by
  unfold reconcile attemptSave
  simp only
  rw [← reconciled]
  split
  · rfl
  · cases (s.reconciled triggers).save <;> rfl

/-- Where the scan finds nothing to do, nothing is done. -/
theorem reconcile_of_reconciled {triggers : List Trigger} (h : s.reconciled triggers = s) :
    s.reconcile triggers = (.ok (), s) := by
  unfold reconcile
  dsimp only
  rw [← reconciled, h, if_pos rfl]

theorem confirmed_refreshUnconfirmed (s : AssignmentStore) (e : Experiment) :
    (s.refreshUnconfirmed e).confirmed = s.confirmed ∧
      (s.refreshUnconfirmed e).record = s.record := by
  have hc := s.confirmed_draw e.variants
  have hr := s.record_draw e.variants
  unfold refreshUnconfirmed
  split
  · exact ⟨rfl, rfl⟩
  · rcases hd : s.draw e.variants with ⟨_ | v, t⟩
    all_goals
      rw [hd] at hc hr
      exact ⟨hc, hr⟩

theorem record_reconcileExperiment (s : AssignmentStore) (e : Experiment) :
    (s.reconcileExperiment e).record = s.record := by
  unfold reconcileExperiment
  split
  · rfl
  · exact (confirmed_refreshUnconfirmed _ e).2

/-- An experiment keeps its confirmed variant if that is offered; the others keep theirs anyway. -/
theorem confirmed_reconcileExperiment {e : Experiment} {id : String} {v : Variant} :
    (s.reconcileExperiment e).confirmed.get? id = some v ↔
      s.confirmed.get? id = some v ∧ (e.id = id → e.hasVariant v.id) := by
  unfold reconcileExperiment
  split
  · next ho =>
    refine ⟨fun h => ⟨h, ?_⟩, fun h => h.1⟩
    rintro rfl
    rwa [show s.confirmed.get? e.id = some v from h] at ho
  · next ho =>
    rw [(confirmed_refreshUnconfirmed _ e).1, Table.get?_erase]
    by_cases hid : e.id = id
    · subst hid
      rw [if_pos rfl]
      refine ⟨fun h => absurd h (by simp), fun ⟨h, hv⟩ => absurd (hv rfl) ?_⟩
      rwa [h] at ho
    · rw [if_neg hid]
      exact ⟨fun h => ⟨h, fun e => absurd e hid⟩, fun h => h.1⟩

theorem record_reconciled (s : AssignmentStore) (triggers : List Trigger) :
    (s.reconciled triggers).record = s.record := by
  unfold reconciled
  induction experimentsOf (visited [] triggers) generalizing s with
  | nil => rfl
  | cons e es ih => rw [List.foldl_cons, ih, record_reconcileExperiment]

/-- A confirmed variant outlives the scan if every visited definition of its experiment offers
it. -/
theorem confirmed_reconciled {triggers : List Trigger} {id : String} {v : Variant} :
    (s.reconciled triggers).confirmed.get? id = some v ↔
      s.confirmed.get? id = some v ∧
        ∀ e, VisitedExperiment triggers e → e.id = id → e.hasVariant v.id := by
  simp only [← mem_experimentsOf_visited]
  unfold reconciled
  induction experimentsOf (visited [] triggers) generalizing s with
  | nil => simp
  | cons e es ih =>
    rw [List.foldl_cons, ih, confirmed_reconcileExperiment, and_assoc, List.forall_mem_cons]

/-! ## Adopting server assignments -/

/-- The store behind the scan of `transfer`, before anything is saved. -/
def transferred (s : AssignmentStore) (assignments : List ServerAssignment)
    (triggers : List Trigger) : AssignmentStore :=
  assignments.foldl (adopt (definitions triggers)) s

theorem transfer_snd (s : AssignmentStore) (assignments : List ServerAssignment)
    (triggers : List Trigger) :
    (s.transfer assignments triggers).2 =
      if ∀ b ∈ assignments, ¬ Adopted triggers b then s
      else (s.transferred assignments triggers).attemptSave := by
  have hcount : (assignments.countP fun b => (adopted? (definitions triggers) b).isSome) = 0 ↔
      ∀ b ∈ assignments, ¬ Adopted triggers b := by
    simp only [List.countP_eq_zero, isSome_adopted?_iff]
  unfold transfer attemptSave
  simp only [hcount]
  rw [← transferred]
  split
  · rfl
  · cases (s.transferred assignments triggers).save <;> rfl

theorem confirmed_adopt (s : AssignmentStore) (table : Table Experiment) (b : ServerAssignment)
    (id : String) :
    (adopt table s b).confirmed.get? id =
      if b.experimentId = id then (adopted? table b).or (s.confirmed.get? id)
      else s.confirmed.get? id := by
  unfold adopt
  cases adopted? table b with
  | none => simp
  | some v => simp

theorem unconfirmed_adopt (s : AssignmentStore) (table : Table Experiment) (b : ServerAssignment)
    (id : String) :
    (adopt table s b).unconfirmed.get? id =
      if b.experimentId = id ∧ (adopted? table b).isSome then none else s.unconfirmed.get? id := by
  unfold adopt
  cases adopted? table b with
  | none => simp
  | some v => simp

/-- Adopting changes nothing but the two maps. -/
theorem transferred_eq (s : AssignmentStore) (assignments : List ServerAssignment)
    (triggers : List Trigger) :
    s.transferred assignments triggers =
      { s with
        confirmed := (s.transferred assignments triggers).confirmed
        unconfirmed := (s.transferred assignments triggers).unconfirmed } := by
  unfold transferred
  induction assignments generalizing s with
  | nil => rfl
  | cons b bs ih =>
    have hadopt : adopt (definitions triggers) s b =
        { s with
          confirmed := (adopt (definitions triggers) s b).confirmed
          unconfirmed := (adopt (definitions triggers) s b).unconfirmed } := by
      unfold adopt
      cases adopted? (definitions triggers) b <;> rfl
    rw [List.foldl_cons, ih]
    generalize adopt (definitions triggers) s b = t at hadopt ⊢
    rw [hadopt]

theorem record_transferred (s : AssignmentStore) (assignments : List ServerAssignment)
    (triggers : List Trigger) : (s.transferred assignments triggers).record = s.record := by
  rw [transferred_eq]

/-- Of the assignments that are adopted for an experiment the last one counts. -/
def lastAdopted? (assignments : List ServerAssignment) (triggers : List Trigger) (id : String) :
    Option Variant :=
  ((assignments.filter fun b => b.experimentId = id).filterMap
    (adopted? (definitions triggers))).getLast?

theorem lastAdopted?_cons (b : ServerAssignment) (bs : List ServerAssignment)
    (triggers : List Trigger) (id : String) :
    lastAdopted? (b :: bs) triggers id =
      (lastAdopted? bs triggers id).or
        (if b.experimentId = id then adopted? (definitions triggers) b else none) := by
  unfold lastAdopted?
  by_cases hb : b.experimentId = id
  · rw [if_pos hb, List.filter_cons_of_pos (by simpa using hb), List.filterMap_cons]
    cases adopted? (definitions triggers) b with
    | none => simp
    | some v => simp [List.getLast?_cons, Option.or_some]
  · rw [if_neg hb, List.filter_cons_of_neg (by simpa using hb), Option.or_none]

theorem confirmed_transferred (s : AssignmentStore) (assignments : List ServerAssignment)
    (triggers : List Trigger) (id : String) :
    (s.transferred assignments triggers).confirmed.get? id =
      (lastAdopted? assignments triggers id).or (s.confirmed.get? id) := by
  unfold transferred
  induction assignments generalizing s with
  | nil => rfl
  | cons b bs ih =>
    rw [List.foldl_cons, ih, confirmed_adopt, lastAdopted?_cons, Option.or_assoc]
    by_cases hb : b.experimentId = id
    · rw [if_pos hb, if_pos hb]
    · rw [if_neg hb, if_neg hb, Option.none_or]

/-- An experiment has no unconfirmed variant once one is adopted for it. -/
theorem unconfirmed_transferred (s : AssignmentStore) (assignments : List ServerAssignment)
    (triggers : List Trigger) (id : String) :
    (s.transferred assignments triggers).unconfirmed.get? id =
      if (lastAdopted? assignments triggers id).isSome then none else s.unconfirmed.get? id := by
  unfold transferred
  induction assignments generalizing s with
  | nil => rfl
  | cons b bs ih =>
    rw [List.foldl_cons, ih, unconfirmed_adopt, lastAdopted?_cons]
    by_cases hb : b.experimentId = id
    · rw [if_pos hb]
      cases lastAdopted? bs triggers id with
      | none => cases adopted? (definitions triggers) b <;> simp [hb]
      | some v => simp
    · simp [hb]

theorem lastAdopted?_eq_none {assignments : List ServerAssignment} {triggers : List Trigger}
    {id : String} (h : ∀ b ∈ assignments, b.experimentId = id → ¬ Adopted triggers b) :
    lastAdopted? assignments triggers id = none := by
  have hnone : (assignments.filter fun b => b.experimentId = id).filterMap
      (adopted? (definitions triggers)) = [] := by
    rw [List.filterMap_eq_nil_iff]
    intro b hb
    obtain ⟨hb, hid⟩ := List.mem_filter.mp hb
    have := h b hb (by simpa using hid)
    rwa [← isSome_adopted?_iff, Bool.not_eq_true, Option.isSome_eq_false_iff,
      Option.isNone_iff_eq_none] at this
  rw [lastAdopted?, hnone]
  rfl

/-- An experiment for which nothing is adopted keeps its confirmed variant. -/
theorem confirmed_transferred_of_not_adopted {assignments : List ServerAssignment}
    {triggers : List Trigger} {id : String}
    (h : ∀ b ∈ assignments, b.experimentId = id → ¬ Adopted triggers b) :
    (s.transferred assignments triggers).confirmed.get? id = s.confirmed.get? id := by
  rw [confirmed_transferred, lastAdopted?_eq_none h]
  rfl

end AssignmentStore

end Paywall
