import Paywall.Proofs.Assignment.Drawing
import Paywall.Proofs.Assignment.Scan

/-!
# Reconciling covers what it visits

Reconciling brings every experiment that it visits in line with what is offered: it has one variant,
confirmed or not, which is offered, or none if nothing is offered. An experiment in line is left
alone, so if all definitions of an experiment offer the same, all of them are in line in the end, and
to reconcile once more changes nothing.

Of the triggers of one group only the first is visited; what only the others name is not covered.
-/

namespace Paywall

namespace AssignmentStore

variable {s : AssignmentStore} {e : Experiment}

/-- An experiment has this variant and no other: confirmed or unconfirmed. -/
def AssignedOnly (s : AssignmentStore) (id : String) (v : Variant) : Prop :=
  (s.confirmed.get? id = some v ∧ s.unconfirmed.get? id = none) ∨
    (s.confirmed.get? id = none ∧ s.unconfirmed.get? id = some v)

/-- An experiment is in line with what it offers. -/
inductive Aligned (s : AssignmentStore) (e : Experiment) : Prop where
  /-- It has one variant, which it offers. -/
  | assigned (v : Variant) (hassigned : s.AssignedOnly e.id v) (hoffered : e.hasVariant v.id)
  /-- It has none and offers none. -/
  | empty (hconfirmed : s.confirmed.get? e.id = none) (hunconfirmed : s.unconfirmed.get? e.id = none)
      (hnone : e.variants = [])

theorem hasVariant_toVariant {o : VariantOption} (ho : o ∈ e.variants) :
    e.hasVariant o.toVariant.id := by
  unfold Experiment.hasVariant
  exact List.any_eq_true.mpr ⟨o, ho, beq_self_eq_true o.id⟩

theorem isOffered_iff {v? : Option Variant} :
    isOffered e v? ↔ ∃ v, v? = some v ∧ e.hasVariant v.id := by
  cases v? with
  | none => simp [isOffered]
  | some v => simp [isOffered]

/-- Being in line is a matter of the two entries of the experiment. -/
theorem Aligned.congr {t : AssignmentStore} (h : s.Aligned e)
    (hc : t.confirmed.get? e.id = s.confirmed.get? e.id)
    (hu : t.unconfirmed.get? e.id = s.unconfirmed.get? e.id) : t.Aligned e := by
  cases h with
  | assigned v hassigned hoffered =>
    refine .assigned v ?_ hoffered
    unfold AssignedOnly
    rwa [hc, hu]
  | empty hconfirmed hunconfirmed hnone =>
    exact .empty (hc.trans hconfirmed) (hu.trans hunconfirmed) hnone

/-! ## One experiment -/

/-- The unconfirmed variant of an experiment is still offered, or one is drawn, or there is none to
draw; in the last case the generator is not asked. -/
theorem refreshUnconfirmed_cases (s : AssignmentStore) (e : Experiment) :
    (isOffered e (s.unconfirmed.get? e.id) ∧ s.refreshUnconfirmed e = s) ∨
      (∃ o ∈ e.variants, ∃ stream, s.refreshUnconfirmed e =
        { s with unconfirmed := s.unconfirmed.insert e.id o.toVariant, stream }) ∨
      (e.variants = [] ∧ s.refreshUnconfirmed e =
        { s with unconfirmed := s.unconfirmed.erase e.id }) := by
  unfold refreshUnconfirmed draw
  split
  · next hoffered => exact Or.inl ⟨hoffered, rfl⟩
  · right
    by_cases hnone : e.variants = []
    · rw [hnone, chooseVariant_nil]
      exact Or.inr ⟨rfl, rfl⟩
    · obtain ⟨o, ho, stream, hdraw⟩ := exists_chooseVariant hnone s.stream
      rw [hdraw]
      exact Or.inl ⟨o, ho, stream, rfl⟩

theorem aligned_refreshUnconfirmed (hfree : s.confirmed.get? e.id = none) :
    (s.refreshUnconfirmed e).Aligned e := by
  rcases s.refreshUnconfirmed_cases e with ⟨hoffered, heq⟩ | ⟨o, ho, stream, heq⟩ | ⟨hnone, heq⟩
  · obtain ⟨v, hv, hid⟩ := isOffered_iff.mp hoffered
    rw [heq]
    exact .assigned v (Or.inr ⟨hfree, hv⟩) hid
  · rw [heq]
    exact .assigned o.toVariant (Or.inr ⟨hfree, by simp⟩) (hasVariant_toVariant ho)
  · rw [heq]
    exact .empty hfree (by simp) hnone

/-- An experiment that is reconciled is in line, whatever it had before. -/
theorem aligned_reconcileExperiment (s : AssignmentStore) (e : Experiment) :
    (s.reconcileExperiment e).Aligned e := by
  unfold reconcileExperiment
  split
  · next hoffered =>
    obtain ⟨v, hv, hid⟩ := isOffered_iff.mp hoffered
    exact .assigned v (Or.inl ⟨hv, by simp⟩) hid
  · exact aligned_refreshUnconfirmed (by simp)

/-- An experiment in line is left alone, the generator included. -/
theorem Aligned.reconcileExperiment_eq (h : s.Aligned e) : s.reconcileExperiment e = s := by
  have herase : ∀ {t : Assignments}, t.get? e.id = none → t.erase e.id = t := by
    intro t ht
    refine Table.ext_get? fun k => ?_
    rw [Table.get?_erase]
    split
    · next hk => rw [← hk, ht]
    · rfl
  unfold reconcileExperiment
  cases h with
  | assigned v hassigned hoffered =>
    rcases hassigned with ⟨hc, hu⟩ | ⟨hc, hu⟩
    · rw [if_pos (isOffered_iff.mpr ⟨v, hc, hoffered⟩), herase hu]
    · rw [hc, if_neg (by simp [isOffered]), herase hc]
      exact if_pos (isOffered_iff.mpr ⟨v, hu, hoffered⟩)
  | empty hc hu hnone =>
    rw [hc, if_neg (by simp [isOffered]), herase hc]
    rcases s.refreshUnconfirmed_cases e with ⟨-, heq⟩ | ⟨o, ho, -⟩ | ⟨-, heq⟩
    · exact heq
    · rw [hnone] at ho
      cases ho
    · rw [herase hu] at heq
      exact heq

/-- The entries of the other experiments stay as they are. -/
theorem get?_reconcileExperiment_of_ne {id : String} (hne : e.id ≠ id) :
    (s.reconcileExperiment e).confirmed.get? id = s.confirmed.get? id ∧
      (s.reconcileExperiment e).unconfirmed.get? id = s.unconfirmed.get? id := by
  unfold reconcileExperiment
  split
  · simp [hne]
  · rcases refreshUnconfirmed_cases { s with confirmed := s.confirmed.erase e.id } e with
      ⟨-, heq⟩ | ⟨o, -, stream, heq⟩ | ⟨-, heq⟩
    · rw [heq]
      simp [hne]
    · rw [heq]
      simp [hne]
    · rw [heq]
      simp [hne]

/-! ## All experiments that are visited -/

/-- An experiment keeps its entries if it is in line with all definitions of it that are reconciled,
in particular if there are none. -/
theorem get?_foldl_reconcileExperiment (es : List Experiment) (id : String)
    (h : ∀ f ∈ es, f.id = id → s.Aligned f) :
    (es.foldl reconcileExperiment s).confirmed.get? id = s.confirmed.get? id ∧
      (es.foldl reconcileExperiment s).unconfirmed.get? id = s.unconfirmed.get? id := by
  induction es generalizing s with
  | nil => exact ⟨rfl, rfl⟩
  | cons f es ih =>
    obtain ⟨hf, hes⟩ := List.forall_mem_cons.mp h
    rw [List.foldl_cons]
    by_cases hid : f.id = id
    · rw [(hf hid).reconcileExperiment_eq]
      exact ih hes
    · obtain ⟨hc, hu⟩ := s.get?_reconcileExperiment_of_ne hid
      have hrest : ∀ g ∈ es, g.id = id → (s.reconcileExperiment f).Aligned g := by
        rintro g hg rfl
        exact (hes g hg rfl).congr hc hu
      obtain ⟨hc', hu'⟩ := ih hrest
      exact ⟨hc'.trans hc, hu'.trans hu⟩

/-- What is in line with one definition is in line with all that offer the same. -/
theorem Aligned.of_offers {f : Experiment} (h : s.Aligned e) (hid : e.id = f.id)
    (hoffers : ∀ v, e.hasVariant v = f.hasVariant v) : s.Aligned f := by
  cases h with
  | assigned v hassigned hoffered => exact .assigned v (hid ▸ hassigned) (hoffers v.id ▸ hoffered)
  | empty hconfirmed hunconfirmed hnone =>
    refine .empty (hid ▸ hconfirmed) (hid ▸ hunconfirmed) (List.eq_nil_iff_forall_not_mem.mpr ?_)
    intro o ho
    have hoffered := hasVariant_toVariant ho
    rw [← hoffers, Experiment.hasVariant, hnone] at hoffered
    cases hoffered

theorem aligned_of_offersAlike {triggers : List Trigger} (hoffers : OffersAlike triggers)
    (s : AssignmentStore) (he : VisitedExperiment triggers e) :
    (s.reconciled triggers).Aligned e := by
  have halike : ∀ f ∈ experimentsOf (visited [] triggers), f.id = e.id →
      ∀ v, e.hasVariant v = f.hasVariant v :=
    fun f hf hid => hoffers e he.mem f (mem_experimentsOf_visited.mp hf).mem hid.symm
  have hmem := mem_experimentsOf_visited.mpr he
  unfold reconciled
  generalize experimentsOf (visited [] triggers) = es at halike hmem
  obtain ⟨before, after, rfl⟩ := List.append_of_mem hmem
  rw [List.foldl_append, List.foldl_cons]
  generalize before.foldl reconcileExperiment s = met
  have hmet := met.aligned_reconcileExperiment e
  obtain ⟨hc, hu⟩ := get?_foldl_reconcileExperiment after e.id fun f hf hid =>
    hmet.of_offers hid.symm (halike f (List.mem_append_right before (List.mem_cons_of_mem e hf)) hid)
  exact hmet.congr hc hu

theorem aligned_reconciled {triggers : List Trigger} (hdefined : DefinedOnce triggers)
    (s : AssignmentStore) (he : VisitedExperiment triggers e) :
    (s.reconciled triggers).Aligned e :=
  aligned_of_offersAlike hdefined.offersAlike s he

/-- Where everything is in line there is nothing to reconcile. -/
theorem reconciled_eq_self {triggers : List Trigger}
    (h : ∀ e, VisitedExperiment triggers e → s.Aligned e) : s.reconciled triggers = s := by
  have hall : ∀ e ∈ experimentsOf (visited [] triggers), s.Aligned e :=
    fun e he => h e (mem_experimentsOf_visited.mp he)
  unfold reconciled
  generalize experimentsOf (visited [] triggers) = es at hall ⊢
  induction es with
  | nil => rfl
  | cons e es ih =>
    obtain ⟨he, hes⟩ := List.forall_mem_cons.mp hall
    rw [List.foldl_cons, he.reconcileExperiment_eq, ih hes]

/-- Reconciling gives every experiment that it visits and that offers something exactly one variant,
which is one of those it offers. -/
theorem assigned_of_visited {triggers : List Trigger} (hdefined : DefinedOnce triggers)
    (hvisited : VisitedExperiment triggers e) (hoffers : e.variants ≠ []) (s : AssignmentStore) :
    ∃ v, (s.reconcile triggers).2.AssignedOnly e.id v ∧ e.hasVariant v.id := by
  obtain ⟨r, hend⟩ := s.perform_eq_scan (c := .reconcile triggers) rfl
  have hreconcile : (s.reconcile triggers).2 = { s.reconciled triggers with record := r } := hend
  rw [hreconcile]
  cases aligned_reconciled hdefined s hvisited with
  | assigned v hassigned hoffered => exact ⟨v, hassigned, hoffered⟩
  | empty _ _ hnone => exact absurd hnone hoffers

/-- A store with nothing in it. -/
def fresh : AssignmentStore := ⟨∅, ∅, .ofSeed 1, .ofStored ∅, []⟩

/-- Two triggers, each with an experiment of its own. -/
def twoTriggers (group group' : String) : List Trigger :=
  [⟨"open", [⟨none, none, ⟨"e", group, [⟨"v", 1.0, .treatment, some "p"⟩]⟩, [], none⟩]⟩,
    ⟨"close", [⟨none, none, ⟨"f", group', [⟨"w", 1.0, .holdout, none⟩]⟩, [], none⟩]⟩]

theorem definedOnce_twoTriggers (group group' : String) :
    DefinedOnce (twoTriggers group group') := by
  refine definedOnce_of_nodup ?_
  change ["e", "f"].Nodup
  decide

/-- The general theorem at the second of two groups. -/
theorem assigned_of_second_group :
    let e : Experiment := ⟨"f", "h", [⟨"w", 1.0, .holdout, none⟩]⟩
    DefinedOnce (twoTriggers "g" "h") ∧ VisitedExperiment (twoTriggers "g" "h") e ∧
      e.variants ≠ [] ∧
      ∃ v, (fresh.reconcile (twoTriggers "g" "h")).2.AssignedOnly e.id v ∧ e.hasVariant v.id := by
  intro e
  have hdefined := definedOnce_twoTriggers "g" "h"
  have hvisited : VisitedExperiment (twoTriggers "g" "h") e :=
    mem_experimentsOf_visited.mp (List.mem_cons_of_mem _ List.mem_cons_self)
  have hoffers : e.variants ≠ [] := List.cons_ne_nil _ _
  exact ⟨hdefined, hvisited, hoffers, assigned_of_visited hdefined hvisited hoffers fresh⟩

/-- Not every experiment that is offered is covered: of two triggers of one group the second is
skipped, and its experiment remains without any variant. -/
theorem second_of_group_uncovered :
    ¬ ∀ (s : AssignmentStore) (triggers : List Trigger), DefinedOnce triggers →
      (s.reconcile triggers).1 = .ok () → ∀ e ∈ experimentsOf triggers, e.variants ≠ [] →
        ∃ v, (s.reconcile triggers).2.AssignedOnly e.id v ∧ e.hasVariant v.id := by
  intro hclaim
  have hdefined := definedOnce_twoTriggers "g" "g"
  obtain ⟨v, hassigned, -⟩ := hclaim fresh (twoTriggers "g" "g") hdefined rfl
    ⟨"f", "g", [⟨"w", 1.0, .holdout, none⟩]⟩ (List.mem_cons_of_mem _ List.mem_cons_self)
    (List.cons_ne_nil _ _)
  rcases hassigned with ⟨hc, -⟩ | ⟨-, hu⟩
  · cases hc
  · cases hu

end AssignmentStore

end Paywall
