import Paywall.Proofs.Assignment.Coverage

/-!
# Reconciling changes only what it must

What is still offered is kept, confirmed or not, and of what is not visited nothing is touched. So a
user keeps every variant that can be kept, and the record is written only if a confirmed variant was
dropped. After that everything visited is in line with what is offered, provided that all rules that
name an experiment offer the same, and to reconcile once more does nothing at all: no variant is drawn
in place of a valid one.
-/

namespace Paywall.AssignmentStore

variable {s : AssignmentStore} {triggers : List Trigger}

/-- Whether a confirmed variant of one store is missing in another. -/
def Drops (s t : AssignmentStore) : Prop :=
  ∃ id v, s.confirmed.get? id = some v ∧ t.confirmed.get? id = none

/-- What reconciling makes of a store that can be saved. -/
structure Retains (triggers : List Trigger) (s t : AssignmentStore) : Prop where
  /-- An experiment that is not visited keeps both its entries. -/
  unvisited : ∀ id, (∀ e, VisitedExperiment triggers e → e.id ≠ id) →
    t.confirmed.get? id = s.confirmed.get? id ∧ t.unconfirmed.get? id = s.unconfirmed.get? id
  /-- Of what is visited, the confirmed variants stay that are still offered, and no others. -/
  confirmed : ∀ e, VisitedExperiment triggers e → ∀ v,
    t.confirmed.get? e.id = some v ↔ s.confirmed.get? e.id = some v ∧ e.hasVariant v.id
  /-- Where none is confirmed, the unconfirmed variants stay that are still offered. -/
  unconfirmed : ∀ e, VisitedExperiment triggers e → ∀ v, s.confirmed.get? e.id = none →
    s.unconfirmed.get? e.id = some v → e.hasVariant v.id → t.unconfirmed.get? e.id = some v
  /-- Nothing is confirmed that was not. -/
  confirmed_before : ∀ id v, t.confirmed.get? id = some v → s.confirmed.get? id = some v
  /-- The record is written once if a confirmed variant was dropped. -/
  saved : Drops s t →
    t.record = { s.record with stored := t.confirmed, saves := s.record.saves + 1 }
  /-- The record is not written if no confirmed variant was dropped. -/
  unsaved : ¬ Drops s t → t.record = s.record
  /-- Nothing is posted. -/
  outbox : t.outbox = s.outbox

/-! ## The maps -/

theorem get?_reconciled_of_not_visited {id : String}
    (h : ∀ e, VisitedExperiment triggers e → e.id ≠ id) :
    (s.reconciled triggers).confirmed.get? id = s.confirmed.get? id ∧
      (s.reconciled triggers).unconfirmed.get? id = s.unconfirmed.get? id := by
  apply get?_foldl_reconcileExperiment
  intro f hf hid
  exact absurd hid (h f (mem_experimentsOf_visited.mp hf))

/-- Of an experiment that is visited, a confirmed variant stays if and only if it is offered: what one
definition offers all the others offer, too. -/
theorem confirmed_reconciled_of_offersAlike (hoffers : OffersAlike triggers) {e : Experiment}
    (he : VisitedExperiment triggers e) (v : Variant) :
    (s.reconciled triggers).confirmed.get? e.id = some v ↔
      s.confirmed.get? e.id = some v ∧ e.hasVariant v.id := by
  rw [confirmed_reconciled]
  constructor
  · rintro ⟨hv, hall⟩
    exact ⟨hv, hall e he rfl⟩
  · rintro ⟨hv, hoffered⟩
    refine ⟨hv, ?_⟩
    intro f hf hid
    rw [hoffers f hf.mem e he.mem hid v.id]
    exact hoffered

theorem unconfirmed_reconciled_of_offersAlike (hoffers : OffersAlike triggers) {e : Experiment}
    (he : VisitedExperiment triggers e) {v : Variant} (hfree : s.confirmed.get? e.id = none)
    (hv : s.unconfirmed.get? e.id = some v) (hoffered : e.hasVariant v.id) :
    (s.reconciled triggers).unconfirmed.get? e.id = some v := by
  have haligned : s.Aligned e := .assigned v (Or.inr ⟨hfree, hv⟩) hoffered
  have hvisited : ∀ f ∈ experimentsOf (visited [] triggers), f.id = e.id → s.Aligned f := by
    intro f hf hid
    have hf := (mem_experimentsOf_visited.mp hf).mem
    exact haligned.of_offers hid.symm (hoffers e he.mem f hf hid.symm)
  obtain ⟨-, hkept⟩ := get?_foldl_reconcileExperiment _ e.id hvisited
  exact hkept.trans hv

/-! ## The record -/

/-- The confirmed maps are different if and only if a confirmed variant was dropped. -/
theorem confirmed_reconciled_ne_iff :
    (s.reconciled triggers).confirmed ≠ s.confirmed ↔ Drops s (s.reconciled triggers) := by
  constructor
  · intro hne
    by_contra hkept
    apply hne
    apply Table.ext_get?
    intro id
    cases ht : (s.reconciled triggers).confirmed.get? id with
    | some v => exact (confirmed_reconciled.mp ht).1.symm
    | none =>
      cases hs : s.confirmed.get? id with
      | none => rfl
      | some v => exact absurd ⟨id, v, hs, ht⟩ hkept
  · rintro ⟨id, v, hs, ht⟩ heq
    rw [heq, hs] at ht
    cases ht

/-- What reconciling leaves of a store that can be saved: its scan, and the record, which is written
if a confirmed variant was dropped. -/
theorem reconcile_of_no_fault (triggers : List Trigger) (hsave : s.record.saveFault = none) :
    ∃ r, s.reconcile triggers = (.ok (), { s.reconciled triggers with record := r }) ∧
      (Drops s (s.reconciled triggers) → r = { s.record with
        stored := (s.reconciled triggers).confirmed, saves := s.record.saves + 1 }) ∧
      (¬ Drops s (s.reconciled triggers) → r = s.record) := by
  have hrecord := s.record_reconciled triggers
  rw [← confirmed_reconciled_ne_iff]
  unfold reconcile
  dsimp only
  rw [← reconciled]
  by_cases hkept : (s.reconciled triggers).confirmed = s.confirmed
  · rw [if_pos hkept]
    exact ⟨s.record, by rw [← hrecord], fun hne => absurd hkept hne, fun _ => rfl⟩
  · have hscan : (s.reconciled triggers).record.saveFault = none := by
      rw [hrecord, hsave]
    rw [if_neg hkept, save_of_no_fault hscan]
    exact ⟨_, rfl, fun _ => by rw [hrecord], fun hno => absurd hkept hno⟩

/-! ## What is kept -/

/-- If all rules that name an experiment offer the same variants, then reconciling keeps all that can
be kept and changes nothing else, and to do it once more changes nothing at all, the generator
included. -/
theorem reconcile_retains (hoffers : OffersAlike triggers) (hsave : s.record.saveFault = none) :
    (s.reconcile triggers).1 = .ok () ∧ Retains triggers s (s.reconcile triggers).2 ∧
      (s.reconcile triggers).2.reconcile triggers = (.ok (), (s.reconcile triggers).2) := by
  obtain ⟨r, hend, hsaved, hunsaved⟩ := reconcile_of_no_fault triggers hsave
  have houtbox : (s.reconciled triggers).outbox = s.outbox := outbox_scan (c := .reconcile triggers)
  rw [hend]
  refine ⟨rfl, ?_, ?_⟩
  · exact {
      unvisited := fun id h => get?_reconciled_of_not_visited h
      confirmed := fun e he v => confirmed_reconciled_of_offersAlike hoffers he v
      unconfirmed := fun e he v hfree hv hoffered =>
        unconfirmed_reconciled_of_offersAlike hoffers he hfree hv hoffered
      confirmed_before := fun id v h => (confirmed_reconciled.mp h).1
      saved := hsaved
      unsaved := hunsaved
      outbox := houtbox }
  · apply reconcile_of_reconciled
    apply reconciled_eq_self
    intro e he
    exact (aligned_of_offersAlike hoffers s he).congr rfl rfl

/-- Two triggers of different groups that name one experiment, with other weights in another order. -/
def rebalanced : List Trigger :=
  let v (weight : Float) : VariantOption := ⟨"v", weight, .treatment, some "p"⟩
  let w (weight : Float) : VariantOption := ⟨"w", weight, .holdout, none⟩
  [⟨"open", [⟨none, none, ⟨"e", "g", [v 1.0, w 1.0]⟩, [], none⟩,
      ⟨none, none, ⟨"f", "g", [w 1.0]⟩, [], none⟩]⟩,
    ⟨"close", [⟨none, none, ⟨"e", "h", [w 3.0, v 2.0]⟩, [], none⟩]⟩]

theorem offersAlike_rebalanced : OffersAlike rebalanced := by
  have hexperiments : experimentsOf rebalanced =
      [⟨"e", "g", [⟨"v", 1.0, .treatment, some "p"⟩, ⟨"w", 1.0, .holdout, none⟩]⟩,
        ⟨"f", "g", [⟨"w", 1.0, .holdout, none⟩]⟩,
        ⟨"e", "h", [⟨"w", 3.0, .holdout, none⟩, ⟨"v", 2.0, .treatment, some "p"⟩]⟩] := rfl
  intro e he f hf hid v
  rw [hexperiments] at he hf
  simp only [List.mem_cons, List.not_mem_nil, or_false] at he hf
  rcases he with rfl | rfl | rfl <;> rcases hf with rfl | rfl | rfl <;>
    simp_all [Experiment.hasVariant, Bool.or_comm]

/-- A user with a variant that is still offered, one that is not any more, and one of an experiment
that no rule names. -/
def longStanding : AssignmentStore :=
  { fresh with
    confirmed := .ofList [("e", ⟨"v", .treatment, some "p"⟩), ("f", ⟨"old", .holdout, none⟩)]
    unconfirmed := .ofList [("k", ⟨"v", .holdout, none⟩)] }

/-- The general theorem at such a user: of the two confirmed variants one is kept, the other one is
dropped, and the record is written. -/
theorem longStanding_retains :
    let t := (longStanding.reconcile rebalanced).2
    OffersAlike rebalanced ∧ longStanding.record.saveFault = none ∧
      ((longStanding.reconcile rebalanced).1 = .ok () ∧ Retains rebalanced longStanding t ∧
        t.reconcile rebalanced = (.ok (), t)) ∧
      t.confirmed.get? "e" = some ⟨"v", .treatment, some "p"⟩ ∧ t.confirmed.get? "f" = none ∧
      t.record.saves = 1 := by
  intro t
  have hoffers := offersAlike_rebalanced
  have hsave : longStanding.record.saveFault = none := rfl
  exact ⟨hoffers, hsave, reconcile_retains hoffers hsave, rfl, rfl, rfl⟩

end Paywall.AssignmentStore
