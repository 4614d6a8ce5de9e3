import Paywall.Proofs.Assignment.Store
import Paywall.Proofs.Decision.Coherence
import Paywall.Proofs.Decision.Precedence

/-!
# Preloading saves the fetch

Preloading goes through the experiments that the campaign offers, a request through the rules of its
event. Both come to the variant that the user holds, and both look for its paywall under the key of
its identifier. So once the paywall of a treatment has been preloaded, a request that matches the
experiment finds it in the cache, whatever news there has been in between.
-/

namespace Paywall

/-- A step by which the host learns something, without requesting or preloading anything. -/
def HostStep.IsNews : HostStep → Prop
  | .setAttribute .. | .setSubscribed _ | .recordPurchase _ | .setClock _ | .recordAt ..
  | .setSource _ | .setRefused .. | .setSaveFault _ => True
  | .load _ | .refresh _ | .present _ | .presentAll _ | .preloadActive | .preloadEvents _ | .reset =>
    False

namespace AssignmentStore

variable {s : AssignmentStore} {e : Experiment} {v : Variant}

/-- A variant that is held is what the experiment resolves to, and nothing is drawn. -/
theorem resolve_of_held (h : s.held? e.id = some v) :
    ∃ confirmable, s.resolve e = (.ok ⟨v, confirmable⟩, s) :=
  ⟨_, resolve_held h⟩

end AssignmentStore

/-- The paywalls that are preloaded: those of the treatments held of the experiments on offer. -/
theorem mem_activeTreatmentPaywalls {triggers : List Trigger} {s : AssignmentStore}
    {identifier : String} :
    identifier ∈ activeTreatmentPaywalls triggers s.confirmed s.unconfirmed ↔
      ∃ e ∈ experimentsOf triggers, ∃ v, s.held? e.id = some v ∧ v.kind = .treatment ∧
        v.paywallId = some identifier := by
  simp only [activeTreatmentPaywalls, mem_sortedSet, List.mem_filterMap, List.mem_filter,
    List.mem_map, beq_iff_eq]
  constructor
  · rintro ⟨v, ⟨⟨id, ⟨e, he, rfl⟩, hv⟩, hkind⟩, hidentifier⟩
    exact ⟨e, he, v, hv, hkind, hidentifier⟩
  · rintro ⟨e, he, v, hv, hkind, hidentifier⟩
    exact ⟨v, ⟨⟨e.id, ⟨e, he, rfl⟩, hv⟩, hkind⟩, hidentifier⟩

namespace Context

variable {c c₁ c₂ : Context} {f : FetchRequest} {fs fs' : List FetchRequest}
  {identifier : String} {p : Resource}

/-- No fetch is under way. -/
def Idle (c : Context) : Prop := ∀ key token, c.cache.entries.get? key ≠ some (.inFlight token)

/-- Whether a fetch would succeed. -/
def Obtains (c : Context) (f : FetchRequest) : Prop := ∃ p, c.fetch f = .ok p

/-- What is cached for the identifier of a paywall. -/
def cachedPaywall? (c : Context) (identifier : String) : Option Resource :=
  c.cache.cached? (requestKey (some identifier) none c.settings.device.locale)

/-! ## Filling the cache -/

/-- A context whose cache has been filled by the given fetches, with nothing lost. -/
structure Warmed (c c' : Context) (fs : List FetchRequest) : Prop where
  scene : c'.scene = c.scene
  assignments : c'.assignments = c.assignments
  fetches : c'.fetches = c.fetches ++ fs
  idle : c'.Idle
  kept : ∀ key p, c.cache.cached? key = some p → c'.cache.cached? key = some p

namespace Warmed

theorem refl (hidle : c.Idle) : Warmed c c [] where
  scene := rfl
  assignments := rfl
  fetches := (List.append_nil _).symm
  idle := hidle
  kept _ _ h := h

theorem trans (h : Warmed c c₁ fs) (h' : Warmed c₁ c₂ fs') : Warmed c c₂ (fs ++ fs') where
  scene := h'.scene.trans h.scene
  assignments := h'.assignments.trans h.assignments
  fetches := by rw [h'.fetches, h.fetches, List.append_assoc]
  idle := h'.idle
  kept key p hp := h'.kept key p (h.kept key p hp)

/-- What is reported before and after is of no consequence. -/
theorem of_emit {k k' : EventKind} (h : Warmed (c.emit k none id) c₁ fs) :
    Warmed c (c₁.emit k' none id) fs :=
  ⟨h.scene, h.assignments, h.fetches, h.idle, h.kept⟩

theorem settings_eq (h : Warmed c c₁ fs) : c₁.settings = c.settings := congrArg Scene.settings h.scene

theorem campaign_eq (h : Warmed c c₁ fs) : c₁.campaign = c.campaign := congrArg Scene.campaign h.scene

theorem obtains_iff (h : Warmed c c₁ fs) : c₁.Obtains f ↔ c.Obtains f := by
  unfold Obtains
  rw [fetch_congr h.scene]

theorem cachedPaywall? (h : Warmed c c₁ fs) (hp : c.cachedPaywall? identifier = some p) :
    c₁.cachedPaywall? identifier = some p := by
  unfold Context.cachedPaywall? at hp ⊢
  rw [h.settings_eq]
  exact h.kept _ _ hp

end Warmed

/-- After a paywall has been served it is cached, unless its fetch has failed. -/
theorem warmed_serve (hidle : c.Idle) (f : FetchRequest) :
    ∃ fs, Warmed c (c.serve f false).2 fs ∧
      ((∀ g ∈ fs, c.Obtains g) → ∃ p, (c.serve f false).2.cache.cached? f.key = some p) := by
  rcases serve_cases_of_idle f false (hidle f.key) with ⟨p, -, hp, heq⟩ | ⟨hmissing, -, hentries⟩
  · refine ⟨[], ?_, fun _ => ?_⟩
    · rw [heq]
      exact .refl hidle
    · rw [heq]
      exact ⟨p, SingleFlight.cached?_eq_some_iff.mpr hp⟩
  · refine ⟨[f], ⟨scene_serve .., assignments_serve .., fetches_serve_of_missing (hmissing rfl),
      fun key token => ?_, fun key p hp => ?_⟩, fun hobtained => ?_⟩
    · rw [hentries]
      by_cases hkey : f.key = key
      · cases hf : c.fetch f <;> simp [hkey, SingleFlight.settledEntry]
      · rw [if_neg hkey]
        exact hidle key token
    · have hentry := SingleFlight.cached?_eq_some_iff.mp hp
      have hkey : f.key ≠ key := fun hkey => by simp [← hkey, hmissing rfl] at hentry
      rw [SingleFlight.cached?_eq_some_iff, hentries, if_neg hkey]
      exact hentry
    · obtain ⟨p, hp⟩ := hobtained f List.mem_cons_self
      refine ⟨p, ?_⟩
      rw [SingleFlight.cached?_eq_some_iff, hentries, if_pos rfl, hp]
      rfl

/-! ## Preloading -/

theorem warmed_warm (hidle : c.Idle) (identifier : String) :
    ∃ fs, Warmed c (c.warm identifier).2 fs ∧
      ((∀ f ∈ fs, c.Obtains f) → ∃ p, (c.warm identifier).2.cachedPaywall? identifier = some p) := by
  obtain ⟨fs, hwarmed, hcached⟩ := warmed_serve hidle (c.preloadFetch identifier)
  rw [warm_eq]
  refine ⟨fs, hwarmed, fun hobtained => ?_⟩
  unfold cachedPaywall?
  simp only [hwarmed.settings_eq]
  exact hcached hobtained

/-- Each of the paywalls is cached once all of them have been served. -/
theorem warmed_warmAll (hidle : c.Idle) (identifiers : List String) :
    ∃ fs, Warmed c (c.warmAll identifiers).2 fs ∧
      ((∀ f ∈ fs, c.Obtains f) →
        ∀ identifier ∈ identifiers, ∃ p, (c.warmAll identifiers).2.cachedPaywall? identifier = some p) := by
  induction identifiers generalizing c with
  | nil => exact ⟨[], .refl hidle, fun _ identifier h => absurd h List.not_mem_nil⟩
  | cons first rest ih =>
    obtain ⟨fs, hfirst, hcached⟩ := warmed_warm hidle first
    obtain ⟨fs', hrest, hcached'⟩ := ih hfirst.idle
    refine ⟨fs ++ fs', hfirst.trans hrest, fun hobtained identifier h => ?_⟩
    obtain ⟨hobtained, hobtained'⟩ := List.forall_mem_append.mp hobtained
    rcases List.mem_cons.mp h with rfl | h
    · obtain ⟨p, hp⟩ := hcached hobtained
      exact ⟨p, hrest.cachedPaywall? hp⟩
    · exact hcached' (fun f hf => hfirst.obtains_iff.mpr (hobtained' f hf)) identifier h

theorem warmed_preload (hidle : c.Idle) (henabled : c.settings.cache.enabled = true)
    (identifiers : List String) :
    ∃ fs, Warmed c (c.preload identifiers).2 fs ∧
      ((∀ f ∈ fs, c.Obtains f) →
        ∀ identifier ∈ identifiers, ∃ p, (c.preload identifiers).2.cachedPaywall? identifier = some p) := by
  have hidle' : (c.emit .preloadStart none id).Idle := hidle
  obtain ⟨fs, hwarmed, hcached⟩ := warmed_warmAll hidle' identifiers
  rw [preload, if_pos henabled]
  exact ⟨fs, hwarmed.of_emit, hcached⟩

/-- The paywalls of the user's treatments are cached once they have been preloaded. -/
theorem warmed_preloadActive (hidle : c.Idle) (henabled : c.settings.cache.enabled = true) :
    ∃ fs, Warmed c c.preloadActive.2 fs ∧
      ((∀ f ∈ fs, c.Obtains f) → ∀ m, c.campaign = some m →
        ∀ identifier ∈ activeTreatmentPaywalls m.triggers c.assignments.confirmed
            c.assignments.unconfirmed,
          ∃ p, c.preloadActive.2.cachedPaywall? identifier = some p) := by
  unfold preloadActive
  cases hm : c.campaign with
  | none => exact ⟨[], .refl hidle, fun _ m h => by cases h⟩
  | some m =>
    obtain ⟨fs, hwarmed, hcached⟩ := warmed_preload hidle henabled
      (activeTreatmentPaywalls m.triggers c.assignments.confirmed c.assignments.unconfirmed)
    refine ⟨fs, hwarmed, fun hobtained m' h => ?_⟩
    cases h
    exact hcached hobtained

/-- The paywall of a treatment that the user holds, of an experiment on offer, is among them. -/
theorem exists_cachedPaywall {m : Campaign} {e : Experiment} {v : Variant} (hidle : c.Idle)
    (henabled : c.settings.cache.enabled = true)
    (hfetches : c.preloadActive.2.fetches = c.fetches ++ fs) (hobtained : ∀ f ∈ fs, c.Obtains f)
    (hm : c.campaign = some m) (he : e ∈ experimentsOf m.triggers)
    (hv : c.assignments.held? e.id = some v) (hkind : v.kind = .treatment)
    (hidentifier : v.paywallId = some identifier) :
    ∃ p, c.preloadActive.2.cachedPaywall? identifier = some p := by
  obtain ⟨asked, hwarmed, hcached⟩ := warmed_preloadActive hidle henabled
  have hasked : asked = fs := by
    rw [hwarmed.fetches] at hfetches
    exact List.append_cancel_left hfetches
  have hmem := mem_activeTreatmentPaywalls.mpr ⟨e, he, v, hv, hkind, hidentifier⟩
  exact hcached (hasked ▸ hobtained) m hm identifier hmem

/-- A rule that an event can match has its experiment on offer. -/
theorem Fires.exists_offered {r : Request} {rule : Rule} (h : c.Fires r rule) :
    ∃ m, c.campaign = some m ∧ rule.experiment ∈ experimentsOf m.triggers := by
  obtain ⟨e, t, -, ht, -, before, after, hsplit, -⟩ := h
  obtain ⟨m, hm, htrigger⟩ := Option.bind_eq_some_iff.mp ht
  have hmem : rule ∈ t.rules := by simp [hsplit]
  exact ⟨m, hm, mem_experimentsOf.mpr ⟨t, List.mem_of_find?_eq_some htrigger, rule, hmem, rfl⟩⟩

/-! ## News -/

/-- What a request finds in the cache, and why it looks for it, is the same in two contexts. -/
structure Undisturbed (c c' : Context) : Prop where
  settings : c'.settings = c.settings
  campaign : c'.campaign = c.campaign
  cache : c'.cache = c.cache
  fetches : c'.fetches = c.fetches
  held : ∀ id, c'.assignments.held? id = c.assignments.held? id

theorem Undisturbed.refl (c : Context) : Undisturbed c c := ⟨rfl, rfl, rfl, rfl, fun _ => rfl⟩

theorem Undisturbed.trans (h : Undisturbed c c₁) (h' : Undisturbed c₁ c₂) : Undisturbed c c₂ where
  settings := h'.settings.trans h.settings
  campaign := h'.campaign.trans h.campaign
  cache := h'.cache.trans h.cache
  fetches := h'.fetches.trans h.fetches
  held id := (h'.held id).trans (h.held id)

theorem Undisturbed.cachedPaywall?_eq (h : Undisturbed c c₁) (identifier : String) :
    c₁.cachedPaywall? identifier = c.cachedPaywall? identifier := by
  simp only [cachedPaywall?, h.settings, h.cache]

theorem undisturbed_deliver (c : Context) : Undisturbed c c.deliver := by
  rw [deliver_eq]
  exact ⟨rfl, rfl, rfl, rfl, fun _ => rfl⟩

theorem undisturbed_step {s : HostStep} (hs : s.IsNews) : Undisturbed c (c.step s).2 := by
  have hperform : Undisturbed c (c.perform s).2 := by
    cases s with
    | load | refresh | present | presentAll | preloadActive | preloadEvents | reset => exact hs.elim
    | _ => exact ⟨rfl, rfl, rfl, rfl, fun _ => rfl⟩
  exact hperform.trans (undisturbed_deliver _)

theorem undisturbed_run {news : List HostStep} (hnews : ∀ s ∈ news, s.IsNews) :
    Undisturbed c (c.run news).2 := by
  induction news generalizing c with
  | nil => exact .refl c
  | cons s rest ih =>
    obtain ⟨hs, hrest⟩ := List.forall_mem_cons.mp hnews
    exact (undisturbed_step hs).trans (ih hrest)

/-! ## Presenting from the cache -/

theorem cache_fetches_finish (c : Context) (d : Decision) (result : Except PaywallError Resource) :
    (c.finish d result).2.cache = c.cache ∧ (c.finish d result).2.fetches = c.fetches := by
  refine ⟨(finish_frame c d result).2, ?_⟩
  cases result with
  | error cause => rfl
  | ok p =>
    simp only [finish_ok]
    split
    · rfl
    · rw [commit_eq]
      rfl

/-- A request presents what is cached: it starts no fetch, leaves the cache as it is, and ends with that
very paywall, or withholds it from a subscriber. -/
structure PresentsCached (c : Context) (r : Request) (s : Sought) (p : Resource) : Prop where
  fetches : (c.present r).2.fetches = c.fetches
  cache : (c.present r).2.cache = c.cache
  skipped : c.Bars r s p → (c.present r).1 = .skipped .subscribed
  paywall : ¬ c.Bars r s p → (c.present r).1 =
    .paywall (p.finalize s.experiment c.user.purchased r.overrides.freeTrial) s.experiment

theorem presentsCached_of_seeks {r : Request} {s : Sought} (hs : c.Seeks r s)
    (hmay : c.mayUseCache r = true) (hidentifier : s.identifier = some identifier)
    (hp : c.cachedPaywall? identifier = some p) : PresentsCached c r s p := by
  have hcached : c.cache.cached? (c.fetchFor r s).key = some p := by
    rw [← hp, fetchFor, hidentifier, requestKey_some]
    rfl
  have hsupplied : c.supplied r (c.answered r) s = .ok p := by
    simp only [supplied, hcached, hmay, if_true]
  have hprecedence := c.precedence_present r
  obtain ⟨d, assigned, h, rfl, hr, -⟩ := hs.exists_assigned
  obtain ⟨hscene, hcache⟩ := h.frame
  have hsettings : assigned.settings = c.settings := congrArg Scene.settings hscene
  have hserved : (assigned.loading d).serve (assigned.fetchRequest d)
      (assigned.bypassesCache d.request) = (.ok p, assigned.loading d) := by
    rw [fetchRequest_eq hsettings hr, hr, bypassesCache_eq hsettings, hmay]
    refine serve_of_cached ?_
    rw [← hcached, ← hcache]
    rfl
  have hconclude : c.present r = (assigned.loading d).finish d (.ok p) := by
    rw [present_of_ok h, conclude, hserved]
  obtain ⟨hbehind, hfetches⟩ := cache_fetches_finish (assigned.loading d) d (.ok p)
  refine ⟨?_, ?_, fun hbars => ?_, fun hbars => ?_⟩
  · rw [hconclude, hfetches]
    exact h.fetches_eq
  · rw [hconclude, hbehind]
    exact hcache
  · exact (hprecedence.skipped .subscribed).mpr ⟨_, p, hs, hsupplied, hbars⟩
  · exact (hprecedence.paywall _ _).mpr ⟨_, p, hs, hsupplied, hbars, rfl, rfl⟩

/-- Once the paywalls of the user's treatments have been preloaded, and every fetch this took has
succeeded, a request that matches the experiment of such a treatment starts no fetch, but presents what
the preloading has cached. In between there may be any news. -/
theorem present_after_preloading {preloaded later : Context} {news : List HostStep} {r : Request}
    {e : HostEvent} {m : RuleMatch} {v : Variant} (hidle : c.Idle) (hmay : c.mayUseCache r = true)
    (hpreloaded : (c.step .preloadActive).2 = preloaded) (hfetches : preloaded.fetches = c.fetches ++ fs)
    (hobtained : ∀ f ∈ fs, c.Obtains f) (hnews : ∀ s ∈ news, s.IsNews)
    (hlater : (preloaded.run news).2 = later) (hr : r.event? = some e)
    (hj : later.judge r e = .matched m) (hv : c.assignments.held? m.rule.experiment.id = some v)
    (hkind : v.kind = .treatment) (hidentifier : v.paywallId = some identifier) :
    ∃ p, preloaded.cachedPaywall? identifier = some p ∧ later.cache = preloaded.cache ∧
      later.PresentsCached r ⟨some identifier, m.rule.condition,
        some ⟨m.rule.experiment.id, m.rule.experiment.groupId, v⟩⟩ p := by
  have henabled : c.settings.cache.enabled = true := by
    simp only [mayUseCache, Bool.and_eq_true] at hmay
    exact hmay.2
  obtain ⟨_, hwarmed, -⟩ := warmed_preloadActive hidle henabled
  have hdelivered : Undisturbed c.preloadActive.2 preloaded := by
    rw [← hpreloaded]
    exact undisturbed_deliver c.preloadActive.2
  have hlearned : Undisturbed preloaded later := by
    rw [← hlater]
    exact undisturbed_run hnews
  have hafter := hdelivered.trans hlearned
  have hfires := fires_of_judge hr hj
  obtain ⟨campaign, hcampaign, hoffered⟩ := hfires.exists_offered
  rw [hafter.campaign, hwarmed.campaign_eq] at hcampaign
  rw [hdelivered.fetches] at hfetches
  obtain ⟨p, hp⟩ := exists_cachedPaywall hidle henabled hfetches hobtained hcampaign hoffered hv hkind
    hidentifier
  have hheld : later.assignments.held? m.rule.experiment.id = some v := by
    rw [hafter.held, hwarmed.assignments, hv]
  obtain ⟨confirmable, hresolve⟩ := AssignmentStore.resolve_of_held hheld
  have hseeks := Seeks.treatment hfires (congrArg Prod.fst hresolve) hkind
  rw [hidentifier] at hseeks
  have hmay' : later.mayUseCache r = true := by
    simp only [mayUseCache, hafter.settings, hwarmed.settings_eq] at hmay ⊢
    exact hmay
  refine ⟨p, ?_, hlearned.cache, presentsCached_of_seeks hseeks hmay' rfl ?_⟩
  · rw [hdelivered.cachedPaywall?_eq, hp]
  · rw [hafter.cachedPaywall?_eq, hp]

/-- The treatment that two events share is preloaded for the second one, which comes later. -/
theorem heldBack_preloaded :
    ∃ c, openWith {} Expression.evaluate .campaign (.ofStored ∅) (.ofHistory (.start ⟨0, 0⟩)) 0
        ⟨0, 0⟩ = .ok c ∧
      let loaded := (c.load (.ok heldBack)).2
      let preloaded := (loaded.step .preloadActive).2
      let later := (preloaded.run [.setAttribute "name" (.string "x"), .setClock ⟨60, 0⟩]).2
      let r : Request := .forEvent ⟨"close", ∅, ⟨60, 0⟩⟩
      ∃ f m v p, preloaded.fetches = loaded.fetches ++ [f] ∧
        later.judge r ⟨"close", ∅, ⟨60, 0⟩⟩ = .matched m ∧
        loaded.assignments.held? m.rule.experiment.id = some v ∧
        preloaded.cachedPaywall? "p" = some p ∧ later.cache = preloaded.cache ∧
        later.PresentsCached r ⟨some "p", m.rule.condition,
          some ⟨m.rule.experiment.id, m.rule.experiment.groupId, v⟩⟩ p := by
  refine ⟨_, rfl, ?_⟩
  intro loaded preloaded later r
  have hidle : loaded.Idle := fun key token h => by cases h
  have hfetches : preloaded.fetches =
      loaded.fetches ++ [⟨some "p", none, "en_US", requestKey (some "p") none "en_US"⟩] := rfl
  have hobtained : ∀ f ∈ [(⟨some "p", none, "en_US", requestKey (some "p") none "en_US"⟩ :
      FetchRequest)], loaded.Obtains f := by
    intro f hf
    rw [List.mem_singleton.mp hf]
    exact ⟨_, rfl⟩
  have hnews : ∀ s ∈ [HostStep.setAttribute "name" (.string "x"), .setClock ⟨60, 0⟩], s.IsNews := by
    simp [HostStep.IsNews]
  have hmatched : later.judge r ⟨"close", ∅, ⟨60, 0⟩⟩ = .matched ⟨⟨none, none,
    ⟨"e", "g", [⟨"v", 1, .treatment, some "p"⟩]⟩, [], none⟩, none⟩ := rfl
  have hheld : loaded.assignments.held? "e" = some ⟨"v", .treatment, some "p"⟩ := rfl
  obtain ⟨p, hp, hcache, hpresents⟩ := present_after_preloading hidle rfl rfl hfetches hobtained hnews
    rfl rfl hmatched hheld rfl rfl
  exact ⟨_, _, _, p, hfetches, hmatched, hheld, hp, hcache, hpresents⟩

end Context

end Paywall
