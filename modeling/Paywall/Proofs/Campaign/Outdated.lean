import Paywall.Proofs.Campaign.Stale

/-!
# Stale paywalls and what is served

A paywall should be stale if and only if the new campaign serves it differently or not at all. The
comparison is between all old paywalls of an identifier and the last new one, while the first one is
served. So the two agree about every identifier that neither campaign lists with two contents, and
may differ about one that is listed so: an outdated paywall is kept, or one that is up to date is
dropped.
-/

namespace Paywall.Campaign

/-- What is stale in any two campaigns, and how that is related to what they serve. Whatever is served
differently is stale if the new campaign lists it with one content; nothing else is stale if the old
one does so, too. -/
theorem stalePaywalls_against_served (old new : Campaign) (id : String) :
    (id ∈ old.stalePaywalls new ↔
      ∃ p ∈ old.paywalls, p.identifier = id ∧ ∀ q, new.lastPaywall? id = some q → ¬ q == p) ∧
    (new.ListsAlike id → Outdated old new id → id ∈ old.stalePaywalls new) ∧
    (old.ListsAlike id → new.ListsAlike id → id ∈ old.stalePaywalls new → Outdated old new id) := by
  refine ⟨mem_stalePaywalls_iff, ?_, ?_⟩
  · intro hnew houtdated
    exact houtdated.mem_stalePaywalls hnew
  · intro hold hnew hstale
    exact outdated_of_mem_stalePaywalls hold hnew hstale

/-- A campaign that lists a paywall for each of these conditions, all under one identifier. -/
def listing (conditions : List PresentationCondition) : Campaign :=
  ⟨[], conditions.map fun condition => ⟨"p", [], condition, false, .null, none⟩, [], none⟩

theorem listsAlike_replicate (n : Nat) (condition : PresentationCondition) :
    (listing (List.replicate n condition)).ListsAlike "p" := by
  intro p hp q hq _ _
  simp only [listing, List.map_replicate, List.mem_replicate] at hp hq
  exact Or.inl (hp.2.trans hq.2.symm)

/-- The general theorem at a paywall that both campaigns list twice, and that has been changed. -/
theorem stalePaywalls_against_served_twice :
    let old := listing (List.replicate 2 .always)
    let new := listing (List.replicate 2 .checkUserSubscription)
    old.ListsAlike "p" ∧ new.ListsAlike "p" ∧ "p" ∈ old.stalePaywalls new ∧ Outdated old new "p" := by
  intro old new
  have hold : old.ListsAlike "p" := listsAlike_replicate 2 .always
  have hnew : new.ListsAlike "p" := listsAlike_replicate 2 .checkUserSubscription
  have hserved : Outdated old new "p" := by
    refine ⟨_, rfl, ?_⟩
    intro q hq
    rw [← Option.some.inj hq]
    decide
  obtain ⟨-, hstale, houtdated⟩ := stalePaywalls_against_served old new "p"
  have hmem : "p" ∈ old.stalePaywalls new := hstale hnew hserved
  exact ⟨hold, hnew, hmem, houtdated hold hnew hmem⟩

/-- Stale is not the same as outdated. A new campaign that lists a paywall as changed and then as it
was keeps the old one, although it serves the changed one; a paywall that is served as it was is
dropped if it was listed with another content, too. -/
theorem stale_ne_outdated :
    let before := listing [.always]
    let changed := listing [.checkUserSubscription, .always]
    let twice := listing [.always, .checkUserSubscription]
    (Outdated before changed "p" ∧ "p" ∉ before.stalePaywalls changed) ∧
      ("p" ∈ twice.stalePaywalls before ∧ ¬ Outdated twice before "p") := by
  intro before changed twice
  refine ⟨⟨⟨_, rfl, ?_⟩, by decide⟩, by decide, ?_⟩
  · intro q hq
    rw [← Option.some.inj hq]
    decide
  · rintro ⟨p, hp, hdiffers⟩
    apply hdiffers _ rfl
    rw [← Option.some.inj hp]
    decide

end Paywall.Campaign
