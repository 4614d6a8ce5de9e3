import Mathlib.Data.List.Nodup
import Paywall.Assignment.Store
import Paywall.Table.Lemmas

/-!
# What a list of triggers says

Reconciling reads the triggers group by group: of the triggers of one group only the first counts.
Adopting server assignments reads all rules: of two experiments of one name the later one counts.
Here both readings are said without the scan that carries them out.
-/

namespace Paywall

/-- The group of a trigger: that of its first rule. -/
def Trigger.group? (t : Trigger) : Option String := t.rules.head?.map (·.experiment.groupId)

/-- Whether a trigger is visited: it has rules, and no earlier trigger is of its group. -/
def Visited (triggers : List Trigger) (t : Trigger) : Prop :=
  ∃ before after g, triggers = before ++ t :: after ∧ t.group? = some g ∧
    ∀ u ∈ before, u.group? ≠ some g

/-- Whether an experiment is visited: a rule of a visited trigger names it. -/
def VisitedExperiment (triggers : List Trigger) (e : Experiment) : Prop :=
  ∃ t, Visited triggers t ∧ ∃ r ∈ t.rules, r.experiment = e

/-- The definition of an experiment: that of the last rule which names it. -/
def definition? (triggers : List Trigger) (id : String) : Option Experiment :=
  ((experimentsOf triggers).filter fun e => e.id = id).getLast?

/-- Whether a server assignment is adopted: its experiment has a definition that offers its
variant. -/
def Adopted (triggers : List Trigger) (b : ServerAssignment) : Prop :=
  ∃ e o, definition? triggers b.experimentId = some e ∧ o ∈ e.variants ∧ o.id = b.variantId

/-- Whether all rules that name an experiment carry the same definition of it. -/
def DefinedOnce (triggers : List Trigger) : Prop :=
  ∀ e ∈ experimentsOf triggers, ∀ f ∈ experimentsOf triggers, e.id = f.id → e = f

/-- Whether all rules that name an experiment offer variants of the same names. Their weights, for
one, may differ. -/
def OffersAlike (triggers : List Trigger) : Prop :=
  ∀ e ∈ experimentsOf triggers, ∀ f ∈ experimentsOf triggers, e.id = f.id →
    ∀ v, e.hasVariant v = f.hasVariant v

theorem DefinedOnce.offersAlike {triggers : List Trigger} (h : DefinedOnce triggers) :
    OffersAlike triggers := by
  intro e he f hf hid v
  rw [h e he f hf hid]

theorem mem_experimentsOf {triggers : List Trigger} {e : Experiment} :
    e ∈ experimentsOf triggers ↔ ∃ t ∈ triggers, ∃ r ∈ t.rules, r.experiment = e := by
  simp [experimentsOf]

/-- Experiments of different names are defined once. -/
theorem definedOnce_of_nodup {triggers : List Trigger}
    (h : ((experimentsOf triggers).map (·.id)).Nodup) : DefinedOnce triggers :=
  fun _ he _ hf hid => List.inj_on_of_nodup_map h he hf hid

theorem DefinedOnce.definition? {triggers : List Trigger} (h : DefinedOnce triggers)
    {e : Experiment} (he : e ∈ experimentsOf triggers) :
    definition? triggers e.id = some e := by
  have hmem : e ∈ (experimentsOf triggers).filter fun f => f.id = e.id :=
    List.mem_filter.mpr ⟨he, by simp⟩
  have hlast := List.getLast?_eq_some_getLast (List.ne_nil_of_mem hmem)
  obtain ⟨hf, hid⟩ := List.mem_filter.mp (List.mem_of_getLast? hlast)
  rw [Paywall.definition?, hlast, h _ hf e he (of_decide_eq_true hid)]

theorem not_visited_nil {t : Trigger} : ¬ Visited [] t := by
  rintro ⟨before, after, g, h, -⟩
  exact absurd h (by simp)

theorem Visited.mem {triggers : List Trigger} {t : Trigger} (h : Visited triggers t) :
    t ∈ triggers := by
  obtain ⟨before, after, g, rfl, -⟩ := h
  exact List.mem_append_right before List.mem_cons_self

/-- What is visited is offered. -/
theorem VisitedExperiment.mem {triggers : List Trigger} {e : Experiment}
    (h : VisitedExperiment triggers e) : e ∈ experimentsOf triggers := by
  obtain ⟨t, ht, hrule⟩ := h
  exact mem_experimentsOf.mpr ⟨t, ht.mem, hrule⟩

theorem Visited.group?_ne_none {triggers : List Trigger} {t : Trigger} (h : Visited triggers t) :
    t.group? ≠ none := by
  obtain ⟨before, after, g, -, hg, -⟩ := h
  simp [hg]

/-- Behind a trigger, those that are not of its group are visited as if it were not there. -/
theorem visited_cons_iff {u t : Trigger} {rest : List Trigger} :
    Visited (u :: rest) t ↔
      (u = t ∧ t.group? ≠ none) ∨ (Visited rest t ∧ t.group? ≠ u.group?) := by
  constructor
  · rintro ⟨before, after, g, h, hg, hb⟩
    cases before with
    | nil => exact Or.inl ⟨(List.cons.inj h).1, by simp [hg]⟩
    | cons w before =>
      obtain ⟨rfl, rfl⟩ := List.cons.inj h
      refine Or.inr ⟨⟨before, after, g, rfl, hg, ?_⟩, ?_⟩
      · exact fun v hv => hb v (List.mem_cons_of_mem _ hv)
      · exact fun e => hb u List.mem_cons_self (e.symm.trans hg)
  · rintro (⟨rfl, hg⟩ | ⟨⟨before, after, g, rfl, hg, hb⟩, hne⟩)
    · obtain ⟨g, hg⟩ := Option.ne_none_iff_exists'.mp hg
      exact ⟨[], rest, g, rfl, hg, by simp⟩
    · refine ⟨u :: before, after, g, rfl, hg, fun v hv => ?_⟩
      rcases List.mem_cons.mp hv with rfl | hv
      · exact fun e => hne (hg.trans e.symm)
      · exact hb v hv

namespace AssignmentStore

theorem visited_cons (seen : List String) (t : Trigger) (rest : List Trigger) :
    visited seen (t :: rest) =
      match t.group? with
      | none => visited seen rest
      | some g => if g ∈ seen then visited seen rest else t :: visited (g :: seen) rest := by
  rw [visited]
  unfold Trigger.group?
  cases t.rules with
  | nil => rfl
  | cons r rules => simp

/-- A scan that has met some groups visits what it would visit otherwise, less those groups. -/
theorem mem_visited_iff {seen : List String} {triggers : List Trigger} {t : Trigger} :
    t ∈ visited seen triggers ↔ Visited triggers t ∧ ∀ g, t.group? = some g → g ∉ seen := by
  induction triggers generalizing seen with
  | nil => simp [visited, not_visited_nil]
  | cons u rest ih =>
    rw [visited_cons, Paywall.visited_cons_iff]
    cases hu : u.group? with
    | none =>
      simp only
      rw [ih]
      constructor
      · rintro ⟨hv, hseen⟩
        exact ⟨Or.inr ⟨hv, hv.group?_ne_none⟩, hseen⟩
      · rintro ⟨⟨rfl, hg⟩ | ⟨hv, -⟩, hseen⟩
        · exact absurd hu hg
        · exact ⟨hv, hseen⟩
    | some k =>
      simp only
      split
      · next hk =>
        rw [ih]
        constructor
        · rintro ⟨hv, hseen⟩
          exact ⟨Or.inr ⟨hv, fun hg => hseen k hg hk⟩, hseen⟩
        · rintro ⟨⟨rfl, -⟩ | ⟨hv, -⟩, hseen⟩
          · exact absurd hk (hseen k hu)
          · exact ⟨hv, hseen⟩
      · next hk =>
        rw [List.mem_cons, ih]
        constructor
        · rintro (rfl | ⟨hv, hseen⟩)
          · refine ⟨Or.inl ⟨rfl, by simp [hu]⟩, fun g hg => ?_⟩
            rwa [← Option.some.inj (hu.symm.trans hg)]
          · refine ⟨Or.inr ⟨hv, fun hg => hseen k hg List.mem_cons_self⟩, fun g hg hm => ?_⟩
            exact hseen g hg (List.mem_cons_of_mem _ hm)
        · rintro ⟨⟨rfl, -⟩ | ⟨hv, hne⟩, hseen⟩
          · exact Or.inl rfl
          · refine Or.inr ⟨hv, fun g hg hm => ?_⟩
            rcases List.mem_cons.mp hm with rfl | hm
            · exact hne hg
            · exact hseen g hg hm

/-- The experiments that reconciling meets are those of the visited triggers. -/
theorem mem_experimentsOf_visited {triggers : List Trigger} {e : Experiment} :
    e ∈ experimentsOf (visited [] triggers) ↔ VisitedExperiment triggers e := by
  rw [mem_experimentsOf]
  simp only [mem_visited_iff, VisitedExperiment, List.not_mem_nil, not_false_eq_true,
    implies_true, and_true]

theorem get?_definitions (triggers : List Trigger) (id : String) :
    (definitions triggers).get? id = definition? triggers id := by
  rw [definitions, Table.get?_ofList, List.filter_map, List.getLast?_map, Option.map_map]
  simp [definition?, Function.comp_def]

/-- The variant that is adopted: of the definition, the first option of the name. -/
theorem adopted?_definitions (triggers : List Trigger) (b : ServerAssignment) :
    adopted? (definitions triggers) b =
      ((definition? triggers b.experimentId).bind fun e =>
        e.variants.find? fun o => o.id == b.variantId).map (·.toVariant) := by
  rw [adopted?, get?_definitions]
  cases definition? triggers b.experimentId with
  | none => rfl
  | some e => exact (Option.map_eq_bind ..).symm

theorem isSome_adopted?_iff {triggers : List Trigger} {b : ServerAssignment} :
    (adopted? (definitions triggers) b).isSome ↔ Adopted triggers b := by
  rw [adopted?_definitions, Option.isSome_map, Adopted]
  cases definition? triggers b.experimentId with
  | none => simp
  | some e => simp [List.find?_isSome]

instance (triggers : List Trigger) : DecidablePred (Adopted triggers) := fun _ =>
  decidable_of_iff _ isSome_adopted?_iff

end AssignmentStore

end Paywall
