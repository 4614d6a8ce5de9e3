import Mathlib.Data.List.Nodup
import Paywall.Proofs.Campaign.Equality
import Paywall.Table.Lemmas

/-!
# What a new campaign leaves of the paywalls

Of the paywalls with one identifier the first is served, but the comparison takes the last of the new
ones, and all of the old ones. Where no identifier is listed with two contents this makes no
difference: what is stale is what the new campaign serves differently or not at all. If the new
campaign lists equal paywalls, each once, then none is stale.
-/

namespace Paywall

namespace Table

theorem mem_keys_iff {α : Type} {t : Table α} {k : String} : k ∈ t.keys ↔ ∃ v, t.get? k = some v := by
  simp only [keys, List.mem_map, Prod.exists, mem_entries_iff, exists_and_right, exists_eq_right]

end Table

@[simp] theorem mem_sortedSet {k : String} {ks : List String} : k ∈ sortedSet ks ↔ k ∈ ks := by
  rw [sortedSet, Table.mem_keys_iff, Table.get?_ofList]
  constructor
  · rintro ⟨_, h⟩
    obtain ⟨e, he, -⟩ := Option.map_eq_some_iff.mp h
    obtain ⟨hmem, hk⟩ := List.mem_filter.mp (List.mem_of_getLast? he)
    obtain ⟨l, hl, rfl⟩ := List.mem_map.mp hmem
    exact of_decide_eq_true hk ▸ hl
  · intro h
    have hmem : (k, ()) ∈ (ks.map fun k => (k, ())).filter fun e => e.1 = k :=
      List.mem_filter.mpr ⟨List.mem_map.mpr ⟨k, h, rfl⟩, by simp⟩
    exact ⟨_, congrArg _ (List.getLast?_eq_some_getLast (List.ne_nil_of_mem hmem))⟩

namespace Campaign

variable {c old new : Campaign} {id : String} {p : Resource}

/-! ## The first and the last paywall of an identifier -/

/-- The last paywall with an identifier. -/
def lastPaywall? (c : Campaign) (identifier : String) : Option Resource :=
  (c.paywalls.filter fun p => p.identifier = identifier).getLast?

theorem get?_paywallsByIdentifier (c : Campaign) (id : String) :
    c.paywallsByIdentifier.get? id = c.lastPaywall? id := by
  rw [paywallsByIdentifier, Table.get?_ofList, List.filter_map, List.getLast?_map, Option.map_map]
  simp [lastPaywall?, Function.comp_def]

theorem mem_of_paywall? (h : c.paywall? id = some p) : p ∈ c.paywalls ∧ p.identifier = id :=
  ⟨List.mem_of_find?_eq_some h, by simpa using List.find?_some h⟩

theorem mem_of_lastPaywall? (h : c.lastPaywall? id = some p) :
    p ∈ c.paywalls ∧ p.identifier = id := by
  obtain ⟨hmem, hid⟩ := List.mem_filter.mp (List.mem_of_getLast? h)
  exact ⟨hmem, of_decide_eq_true hid⟩

theorem exists_paywall?_of_mem (hp : p ∈ c.paywalls) : ∃ q, c.paywall? p.identifier = some q := by
  apply Option.isSome_iff_exists.mp
  exact List.find?_isSome.mpr ⟨p, hp, by simp⟩

theorem exists_lastPaywall?_of_mem (hp : p ∈ c.paywalls) :
    ∃ q, c.lastPaywall? p.identifier = some q := by
  have hmem : p ∈ c.paywalls.filter fun q => q.identifier = p.identifier :=
    List.mem_filter.mpr ⟨hp, decide_eq_true rfl⟩
  exact ⟨_, List.getLast?_eq_some_getLast (List.ne_nil_of_mem hmem)⟩

/-! ## What is stale -/

/-- An identifier is stale if one of its old paywalls is not what the new campaign lists last. -/
theorem mem_stalePaywalls_iff :
    id ∈ old.stalePaywalls new ↔
      ∃ p ∈ old.paywalls, p.identifier = id ∧ ∀ q, new.lastPaywall? id = some q → ¬ q == p := by
  simp only [stalePaywalls, mem_sortedSet, List.mem_map, List.mem_filter, get?_paywallsByIdentifier]
  constructor
  · rintro ⟨p, ⟨hp, hdiffers⟩, rfl⟩
    refine ⟨p, hp, rfl, ?_⟩
    intro q hq heq
    simp [hq, heq] at hdiffers
  · rintro ⟨p, hp, rfl, hdiffers⟩
    refine ⟨p, ⟨hp, ?_⟩, rfl⟩
    cases hlast : new.lastPaywall? p.identifier with
    | none => rfl
    | some q => simp [hdiffers q hlast]

/-- An identifier is outdated if a new campaign serves it differently or not at all. -/
def Outdated (old new : Campaign) (id : String) : Prop :=
  ∃ p, old.paywall? id = some p ∧ ∀ q, new.paywall? id = some q → ¬ q == p

/-- All paywalls that a campaign lists under an identifier are the same. -/
def ListsAlike (c : Campaign) (id : String) : Prop :=
  ∀ p ∈ c.paywalls, ∀ q ∈ c.paywalls, p.identifier = id → q.identifier = id → Resource.Same p q

/-- What is outdated is stale, provided that the new campaign does not list it with two contents: the
paywall that it serves is the first one, and the last one is compared. -/
theorem Outdated.mem_stalePaywalls (h : Outdated old new id) (hnew : new.ListsAlike id) :
    id ∈ old.stalePaywalls new := by
  obtain ⟨p, hp, hdiffers⟩ := h
  obtain ⟨hmem, hid⟩ := mem_of_paywall? hp
  refine mem_stalePaywalls_iff.mpr ⟨p, hmem, hid, ?_⟩
  intro q hq heq
  obtain ⟨hqmem, rfl⟩ := mem_of_lastPaywall? hq
  obtain ⟨r, hr⟩ := exists_paywall?_of_mem hqmem
  obtain ⟨hrmem, hrid⟩ := mem_of_paywall? hr
  have hsame : Resource.Same q r := hnew q hqmem r hrmem rfl hrid
  exact hdiffers r hr ((Resource.Same.refl p).beq_congr hsame heq)

/-- What is stale is outdated, provided that neither campaign lists it with two contents. -/
theorem outdated_of_mem_stalePaywalls (hold : old.ListsAlike id) (hnew : new.ListsAlike id)
    (h : id ∈ old.stalePaywalls new) : Outdated old new id := by
  obtain ⟨p, hp, rfl, hdiffers⟩ := mem_stalePaywalls_iff.mp h
  obtain ⟨r, hr⟩ := exists_paywall?_of_mem hp
  obtain ⟨hrmem, hrid⟩ := mem_of_paywall? hr
  refine ⟨r, hr, ?_⟩
  intro q hq heq
  obtain ⟨hqmem, hqid⟩ := mem_of_paywall? hq
  obtain ⟨last, hlast⟩ := exists_lastPaywall?_of_mem hqmem
  rw [hqid] at hlast
  obtain ⟨hlmem, hlid⟩ := mem_of_lastPaywall? hlast
  have hold : Resource.Same r p := hold r hrmem p hp hrid rfl
  have hnew : Resource.Same q last := hnew q hqmem last hlmem hqid hlid
  exact hdiffers last hlast (hold.beq_congr hnew heq)

/-! ## Campaigns that list every identifier once -/

/-- Every identifier is listed once. -/
def ListsOnce (c : Campaign) : Prop := (c.paywalls.map (·.identifier)).Nodup

instance (c : Campaign) : Decidable c.ListsOnce :=
  inferInstanceAs (Decidable (c.paywalls.map (·.identifier)).Nodup)

theorem ListsOnce.listsAlike (h : c.ListsOnce) (id : String) : c.ListsAlike id := by
  intro p hp q hq hpid hqid
  exact Or.inl (List.inj_on_of_nodup_map h hp hq (hpid.trans hqid.symm))

/-- What is not stale is served by the new campaign, too: the same paywall or an equal one. -/
theorem exists_fresh_of_not_stale (hnew : new.ListsOnce) (hp : c.paywall? id = some p)
    (hstale : id ∉ c.stalePaywalls new) : ∃ q, new.paywall? id = some q ∧ q == p := by
  by_contra hnone
  have houtdated : Outdated c new id := ⟨p, hp, fun q hq heq => hnone ⟨q, hq, heq⟩⟩
  exact hstale (houtdated.mem_stalePaywalls (hnew.listsAlike id))

/-! ## Equal campaigns -/

/-- Campaigns that are equal in all that a refresh reads: the triggers, the assignments of the server,
and the paywalls, which are compared as the refresh compares them. -/
structure Repeats (new old : Campaign) : Prop where
  triggers : new.triggers = old.triggers
  assignments : new.assignments = old.assignments
  paywalls : new.paywalls == old.paywalls

theorem exists_of_beq {ps qs : List Resource} (h : qs == ps) :
    ps.map (·.identifier) = qs.map (·.identifier) ∧ ∀ p ∈ ps, ∃ q ∈ qs, q == p := by
  induction ps generalizing qs with
  | nil =>
    cases qs with
    | nil => exact ⟨rfl, fun p hp => absurd hp List.not_mem_nil⟩
    | cons q qs => cases h
  | cons p ps ih =>
    cases qs with
    | nil => cases h
    | cons q qs =>
      rw [List.cons_beq_cons, Bool.and_eq_true] at h
      obtain ⟨hids, hall⟩ := ih h.2
      have hid : q.identifier = p.identifier := (Resource.beq_iff.mp h.1).1
      refine ⟨by rw [List.map_cons, List.map_cons, hids, hid], fun r hr => ?_⟩
      rcases List.mem_cons.mp hr with rfl | hr
      · exact ⟨q, List.mem_cons_self, h.1⟩
      · obtain ⟨u, hu, heq⟩ := hall r hr
        exact ⟨u, List.mem_cons_of_mem q hu, heq⟩

/-- A campaign with equal paywalls makes none of them stale. -/
theorem stalePaywalls_eq_nil {new : Campaign} (hc : c.ListsOnce) (h : new.paywalls == c.paywalls) :
    c.stalePaywalls new = [] := by
  obtain ⟨hids, hall⟩ := exists_of_beq h
  have hnew : new.ListsOnce := by
    unfold ListsOnce
    rw [← hids]
    exact hc
  apply List.eq_nil_iff_forall_not_mem.mpr
  intro id hid
  obtain ⟨p, hp, rfl, hdiffers⟩ := mem_stalePaywalls_iff.mp hid
  obtain ⟨q, hq, heq⟩ := hall p hp
  have hqid : q.identifier = p.identifier := (Resource.beq_iff.mp heq).1
  obtain ⟨last, hlast⟩ := exists_lastPaywall?_of_mem hq
  rw [hqid] at hlast
  obtain ⟨hlmem, hlid⟩ := mem_of_lastPaywall? hlast
  have hsame : Resource.Same q last := hnew.listsAlike p.identifier q hq last hlmem hqid hlid
  exact hdiffers last hlast ((Resource.Same.refl p).beq_congr hsame heq)

end Campaign

end Paywall
