import Paywall.Proofs.Assignment.Repetition
import Paywall.Proofs.Decision.Coherence

/-!
# Loading a campaign once more

A context is up to date with a campaign that it has loaded: the assignments are in line with it and
what the server assigned has been adopted. To load an equal campaign then changes nothing, neither in
the assignments nor in the record or the cache, and no variant is drawn.
-/

namespace Paywall

/-- Campaigns whose payloads JSON can hold are equal to themselves. -/
theorem Campaign.Repeats.refl {m : Campaign} (h : ∀ p ∈ m.paywalls, p.payload.isProper) :
    m.Repeats m := by
  refine ⟨rfl, rfl, ?_⟩
  generalize m.paywalls = ps at h
  induction ps with
  | nil => rfl
  | cons p ps ih =>
    obtain ⟨hp, hps⟩ := List.forall_mem_cons.mp h
    rw [List.cons_beq_cons, Bool.and_eq_true]
    exact ⟨Resource.beq_self hp, ih hps⟩

namespace Context

variable {c : Context} {m m' : Campaign}

/-- A context that has a campaign, with nothing left to do for it. -/
structure UpToDate (c : Context) (m : Campaign) : Prop where
  campaign : c.campaign = some m
  assignments : c.assignments.Refreshed m.assignments m.triggers

/-- A success comes from both passes over the assignments. -/
theorem exists_transfer_of_aligned (h : (c.alignAssignments m).1 = .ok ()) :
    ∃ n, ((c.assignments.reconcile m.triggers).2.transfer m.assignments m.triggers).1 = .ok n ∧
      (c.alignAssignments m).2.assignments =
        ((c.assignments.reconcile m.triggers).2.transfer m.assignments m.triggers).2 := by
  unfold alignAssignments at h ⊢
  rcases hreconcile : c.assignments.reconcile m.triggers with ⟨_ | _, reconciled⟩
  · simp only [hreconcile] at h
    cases h
  · simp only [hreconcile] at h ⊢
    rcases htransfer : reconciled.transfer m.assignments m.triggers with ⟨_ | n, transferred⟩
    · simp only [htransfer] at h
      cases h
    · exact ⟨n, rfl, rfl⟩

/-- The campaign has been replaced and what is stale has been evicted; the assignments are as they
were. -/
def replaced (c : Context) (m : Campaign) : Context :=
  { c with campaign := some m }.evictStale c.campaign m

theorem replaced_frame (c : Context) (m : Campaign) :
    (c.replaced m).assignments = c.assignments ∧ (c.replaced m).campaign = some m := by
  unfold replaced evictStale
  cases c.campaign <;> exact ⟨rfl, rfl⟩

/-- To load a campaign is to replace the old one, to bring the assignments in line, and to report a
success. -/
theorem load_eq (c : Context) (m : Campaign) :
    c.load (.ok m) =
      match (c.replaced m).alignAssignments m with
      | (.error e, c) => (.error e, c)
      | (.ok (), c) => (.ok m, c.emit .configRefreshed none id) := rfl

theorem load_frame (c : Context) (m : Campaign) :
    ((c.load (.ok m)).1 = .ok m ↔ ((c.replaced m).alignAssignments m).1 = .ok ()) ∧
      (c.load (.ok m)).2.assignments = ((c.replaced m).alignAssignments m).2.assignments ∧
      (c.load (.ok m)).2.cache = (c.replaced m).cache ∧
      (c.load (.ok m)).2.campaign = (c.replaced m).campaign := by
  obtain ⟨hscene, hcache⟩ := (c.replaced m).alignAssignments_frame m
  have hcampaign := congrArg Scene.campaign hscene
  rw [load_eq]
  rcases halign : (c.replaced m).alignAssignments m with ⟨_ | _, aligned⟩
  · rw [halign] at hcache hcampaign
    exact ⟨⟨nofun, nofun⟩, rfl, hcache, hcampaign⟩
  · rw [halign] at hcache hcampaign
    exact ⟨⟨fun _ => rfl, fun _ => rfl⟩, rfl, hcache, hcampaign⟩

/-- A campaign that has been loaded leaves nothing to do. -/
theorem upToDate_of_load (hdefined : DefinedOnce m.triggers)
    (hok : (c.load (.ok m)).1 = .ok m) : (c.load (.ok m)).2.UpToDate m := by
  obtain ⟨hsuccess, hassignments, -, hcampaign⟩ := c.load_frame m
  obtain ⟨n, htransfer, haligned⟩ := exists_transfer_of_aligned (hsuccess.mp hok)
  refine ⟨hcampaign.trans (c.replaced_frame m).2, ?_⟩
  rw [hassignments, haligned]
  exact AssignmentStore.refreshed_of_transfer hdefined _ htransfer

/-- Where nothing is left to do, aligning the assignments only counts a save, and only a record that
cannot be saved is in the way. -/
theorem alignAssignments_of_refreshed
    (h : c.assignments.Refreshed m.assignments m.triggers) :
    (∃ saves, (c.alignAssignments m).2.assignments =
        { c.assignments with record := { c.assignments.record with saves } }) ∧
      (c.assignments.record.saveFault = none → (c.alignAssignments m).1 = .ok ()) := by
  obtain ⟨saves, htransfer, hsaved⟩ := h.transfer_cases
  unfold alignAssignments
  simp only [h.reconcile_eq]
  rcases hresult : c.assignments.transfer m.assignments m.triggers with ⟨_ | n, transferred⟩
  · rw [hresult] at htransfer hsaved
    refine ⟨⟨saves, htransfer⟩, fun hfault => ?_⟩
    obtain ⟨n, hn⟩ := hsaved hfault
    cases hn
  · rw [hresult] at htransfer
    exact ⟨⟨saves, htransfer⟩, fun _ => rfl⟩

namespace UpToDate

/-- An equal campaign leaves nothing to do, either. -/
theorem refreshed_of_repeats (h : c.UpToDate m) (hrepeats : m'.Repeats m) :
    c.assignments.Refreshed m'.assignments m'.triggers := by
  rw [hrepeats.assignments, hrepeats.triggers]
  exact h.assignments

/-- An equal campaign evicts nothing. -/
theorem cache_replaced (h : c.UpToDate m) (hlists : m.ListsOnce) (hrepeats : m'.Repeats m) :
    (c.replaced m').cache = c.cache := by
  unfold replaced evictStale
  rw [h.campaign]
  simp only [Campaign.stalePaywalls_eq_nil hlists hrepeats.paywalls]
  rfl

/-- To load an equal campaign changes nothing but the count of saves. -/
theorem load (h : c.UpToDate m) (hlists : m.ListsOnce) (hrepeats : m'.Repeats m) :
    (c.load (.ok m')).2.cache = c.cache ∧
      (∃ saves, (c.load (.ok m')).2.assignments =
        { c.assignments with record := { c.assignments.record with saves } }) ∧
      (c.assignments.record.saveFault = none → (c.load (.ok m')).1 = .ok m') := by
  obtain ⟨hsuccess, hassignments, hcache, -⟩ := c.load_frame m'
  have hsame : (c.replaced m').assignments = c.assignments := (c.replaced_frame m').1
  have hrefreshed : (c.replaced m').assignments.Refreshed m'.assignments m'.triggers := by
    rw [hsame]
    exact h.refreshed_of_repeats hrepeats
  obtain ⟨⟨saves, hsaves⟩, hok⟩ := alignAssignments_of_refreshed hrefreshed
  rw [hsame] at hsaves hok
  exact ⟨hcache.trans (h.cache_replaced hlists hrepeats), ⟨saves, hassignments.trans hsaves⟩,
    fun hfault => hsuccess.mpr (hok hfault)⟩

end UpToDate

/-- To load an equal campaign behind a successful load changes no assignment, nothing in the record,
draws no variant, and forgets no paywall, whether or not the record can be saved in between. It
succeeds if it can. -/
theorem load_load (hlists : m.ListsOnce) (hdefined : DefinedOnce m.triggers)
    (hrepeats : m'.Repeats m) (hfirst : (c.load (.ok m)).1 = .ok m) (fault : Option String) :
    let c₁ := ((c.load (.ok m)).2.perform (.setSaveFault fault)).2
    let c₂ := (c₁.load (.ok m')).2
    (c₂.assignments.confirmed = c₁.assignments.confirmed ∧
      c₂.assignments.unconfirmed = c₁.assignments.unconfirmed ∧
      c₂.assignments.record.stored = c₁.assignments.record.stored ∧
      c₂.assignments.stream = c₁.assignments.stream ∧ c₂.cache = c₁.cache) ∧
    (fault = none → (c₁.load (.ok m')).1 = .ok m') := by
  intro c₁ c₂
  obtain ⟨hcampaign, hrefreshed⟩ := upToDate_of_load hdefined hfirst
  have hupToDate : c₁.UpToDate m := ⟨hcampaign, hrefreshed.withSaveFault fault⟩
  obtain ⟨hcache, ⟨saves, hassignments⟩, hsuccess⟩ := hupToDate.load hlists hrepeats
  have hassignments : c₂.assignments =
      { c₁.assignments with record := { c₁.assignments.record with saves } } := hassignments
  rw [hassignments]
  exact ⟨⟨rfl, rfl, rfl, rfl, hcache⟩, hsuccess⟩

/-- A campaign with an experiment that the server assigns twice, and once more to a variant that is
not offered, and an experiment that offers nothing. -/
def busyCampaign : Campaign where
  triggers :=
    [⟨"open", [⟨none, none, ⟨"e", "g", [⟨"v", 1.0, .treatment, some "p"⟩]⟩, [], none⟩,
      ⟨none, none, ⟨"f", "g", []⟩, [], none⟩]⟩]
  paywalls := [⟨"p", [], .always, false, .null, none⟩]
  assignments := [⟨"e", "v"⟩, ⟨"e", "gone"⟩, ⟨"e", "v"⟩]
  requestId := none

/-- The campaign is loaded, and then a copy of it under another request. -/
theorem load_load_busyCampaign :
    let m := busyCampaign
    let m' := { busyCampaign with requestId := some "r" }
    m.ListsOnce ∧ DefinedOnce m.triggers ∧ m'.Repeats m ∧
    ∃ c, openWith {} Expression.evaluate .campaign (.ofStored ∅) (.ofHistory (.start ⟨0, 0⟩)) 0
        ⟨0, 0⟩ = .ok c ∧
      (c.load (.ok m)).1 = .ok m ∧
      let c₁ := ((c.load (.ok m)).2.perform (.setSaveFault none)).2
      let c₂ := (c₁.load (.ok m')).2
      (c₂.assignments.confirmed = c₁.assignments.confirmed ∧
        c₂.assignments.unconfirmed = c₁.assignments.unconfirmed ∧
        c₂.assignments.record.stored = c₁.assignments.record.stored ∧
        c₂.assignments.stream = c₁.assignments.stream ∧ c₂.cache = c₁.cache) ∧
      (c₁.load (.ok m')).1 = .ok m' := by
  intro m m'
  have hlists : m.ListsOnce := by decide
  have hdefined : DefinedOnce m.triggers := by
    refine definedOnce_of_nodup ?_
    change ["e", "f"].Nodup
    decide
  have hrepeats : m'.Repeats m := ⟨rfl, rfl, (Campaign.Repeats.refl (by decide)).paywalls⟩
  obtain ⟨c, hopen, hfirst⟩ : ∃ c, openWith {} Expression.evaluate .campaign (.ofStored ∅)
      (.ofHistory (.start ⟨0, 0⟩)) 0 ⟨0, 0⟩ = .ok c ∧ (c.load (.ok m)).1 = .ok m := ⟨_, rfl, rfl⟩
  obtain ⟨hsame, hok⟩ := load_load hlists hdefined hrepeats hfirst none
  exact ⟨hlists, hdefined, hrepeats, c, hopen, hfirst, hsame, hok rfl⟩

end Context

end Paywall
