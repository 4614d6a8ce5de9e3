import Paywall.Proofs.Campaign.Equality
import Paywall.Proofs.Campaign.Stale
import Paywall.Proofs.Decision.Serving

/-!
# The cache agrees with the campaign

As long as paywalls come from the campaign and every request ends before the next begins, the cache
holds nothing but paywalls of the current campaign, each under its own key and as the campaign lists
it. Three things keep it so: what is fetched is what the campaign lists, a fetch that fails leaves no
entry behind, and a new campaign evicts all that is not the same in it.
-/

namespace Paywall

/-- A paywall is cached under its identifier, whatever event asks for it. -/
theorem requestKey_some (id : String) (eventName : Option String) (locale : String) :
    requestKey (some id) eventName locale = requestKey (some id) none locale := rfl

theorem requestKey_inj {a b locale : String}
    (h : requestKey (some a) none locale = requestKey (some b) none locale) : a = b := by
  simpa [requestKey] using h

theorem SingleFlight.get?_entries_foldl_invalidate (cache : SingleFlight Resource Caller)
    (keys : List String) (key : String) :
    (keys.foldl SingleFlight.invalidate cache).entries.get? key =
      if key ∈ keys then none else cache.entries.get? key := by
  induction keys generalizing cache with
  | nil => simp
  | cons k rest ih =>
    rw [List.foldl_cons, ih, SingleFlight.get?_entries_invalidate]
    by_cases hk : k = key
    · simp [hk]
    · simp [hk, Ne.symm hk]

/-- A step that makes at most one request at a time, leaves the source of the paywalls alone, and
brings no campaign that lists a paywall twice. -/
def HostStep.IsOrdinary : HostStep → Prop
  | .load (.ok m) | .refresh (.ok m) => m.ListsOnce
  | .presentAll _ | .setSource _ => False
  | _ => True

instance : DecidablePred HostStep.IsOrdinary
  | .load (.ok m) | .refresh (.ok m) => inferInstanceAs (Decidable m.ListsOnce)
  | .presentAll _ | .setSource _ => .isFalse id
  | .load (.error _) | .refresh (.error _) | .present _ | .preloadActive | .preloadEvents _ | .reset
  | .setAttribute .. | .setSubscribed _ | .recordPurchase _ | .setClock _ | .recordAt ..
  | .setRefused .. | .setSaveFault _ => .isTrue trivial

namespace Context

variable {c c' : Context} {f : FetchRequest} {bypass : Bool} {settings : Settings}

/-- An entry of the cache is genuine if it is a paywall of the campaign under its own key. -/
def Genuine (c : Context) (settings : Settings) (key : String) (x : CacheEntry Resource) : Prop :=
  ∃ m id p q, c.campaign = some m ∧ m.paywall? id = some p ∧
    key = requestKey (some id) none settings.device.locale ∧ x = .resolved q ∧ q.Same p

/-- A context with the given settings whose paywalls come from the campaign, as does all that it has
cached. No fetch is under way. -/
structure Coherent (c : Context) (settings : Settings) : Prop where
  source : c.source = .campaign
  settings_eq : c.settings = settings
  genuine : ∀ key x, c.cache.entries.get? key = some x → c.Genuine settings key x

/-- A fetch from the campaign gives a paywall that it lists, under the identifier asked for. -/
theorem campaign_of_fetch (hsource : c.source = .campaign) {p : Resource}
    (h : c.fetch f = .ok p) :
    ∃ m id, c.campaign = some m ∧ f.identifier = some id ∧ m.paywall? id = some p := by
  unfold fetch at h
  rw [hsource] at h
  cases hm : c.campaign with
  | none => simp [hm, Campaign.fetch, Except.mapError] at h
  | some m =>
    cases hid : f.identifier with
    | none => simp [hm, hid, Campaign.fetch, Except.mapError] at h
    | some id =>
      cases hp : m.paywall? id with
      | none => simp [hm, hid, hp, Campaign.fetch, Except.mapError] at h
      | some q =>
        simp only [hm, hid, hp, Campaign.fetch, Except.mapError, Except.ok.injEq] at h
        exact ⟨m, id, rfl, rfl, h ▸ hp⟩

theorem alignAssignments_frame (c : Context) (m : Campaign) :
    (c.alignAssignments m).2.scene = c.scene ∧ (c.alignAssignments m).2.cache = c.cache := by
  unfold alignAssignments
  split
  · exact ⟨rfl, rfl⟩
  · split <;> exact ⟨rfl, rfl⟩

namespace Coherent

/-- What matters are the source, the campaign, the settings and the cache. -/
theorem congr (h : c.Coherent settings) (hsource : c'.source = c.source)
    (hcampaign : c'.campaign = c.campaign) (hsettings : c'.settings = c.settings)
    (hcache : c'.cache = c.cache) : c'.Coherent settings where
  source := hsource.trans h.source
  settings_eq := hsettings.trans h.settings_eq
  genuine key x hx := by
    unfold Genuine
    rw [hcampaign]
    exact h.genuine key x (hcache ▸ hx)

theorem of_scene (h : c.Coherent settings) (hscene : c'.scene = c.scene)
    (hcache : c'.cache = c.cache) : c'.Coherent settings :=
  h.congr (congrArg Scene.source hscene) (congrArg Scene.campaign hscene)
    (congrArg Scene.settings hscene) hcache

theorem idle (h : c.Coherent settings) (key : String) (t : Nat) :
    c.cache.entries.get? key ≠ some (.inFlight t) := by
  intro ht
  obtain ⟨_, _, _, _, _, _, _, hq, _⟩ := h.genuine _ _ ht
  cases hq

/-- The paywall under the key of an identifier is the campaign's. -/
theorem exists_paywall {id : String} {q : Resource} (h : c.Coherent settings)
    (hq : c.cache.entries.get? (requestKey (some id) none settings.device.locale) =
      some (.resolved q)) :
    ∃ m p, c.campaign = some m ∧ m.paywall? id = some p ∧ q.Same p := by
  obtain ⟨m, id', p, q', hm, hp, hkey, hq', hsame⟩ := h.genuine _ _ hq
  cases requestKey_inj hkey
  cases hq'
  exact ⟨m, p, hm, hp, hsame⟩

/-! ## Serving -/

theorem serve {eventName : Option String} (h : c.Coherent settings)
    (hkey : f.key = requestKey f.identifier eventName settings.device.locale) :
    (c.serve f bypass).2.Coherent settings := by
  rcases serve_cases_of_idle f bypass (h.idle f.key) with ⟨q, -, -, heq⟩ | ⟨-, -, hentries⟩
  · rwa [heq]
  have hscene : (c.serve f bypass).2.scene = c.scene := scene_serve ..
  have hsettings : (c.serve f bypass).2.settings = c.settings := congrArg Scene.settings hscene
  have hcampaign : (c.serve f bypass).2.campaign = c.campaign := congrArg Scene.campaign hscene
  refine ⟨(congrArg Scene.source hscene).trans h.source, hsettings.trans h.settings_eq,
    fun key x hx => ?_⟩
  unfold Genuine
  rw [hcampaign]
  rw [hentries key] at hx
  by_cases hk : f.key = key
  · subst hk
    cases hf : c.fetch f with
    | error e => simp [hf, SingleFlight.settledEntry] at hx
    | ok p =>
      simp only [hf, if_true, SingleFlight.settledEntry, Option.some.injEq] at hx
      obtain ⟨m, id, hm, hid, hp⟩ := campaign_of_fetch h.source hf
      refine ⟨m, id, p, p, hm, hp, ?_, hx.symm, .refl p⟩
      rw [hkey, hid, requestKey_some]
  · rw [if_neg hk] at hx
    exact h.genuine key x hx

theorem conclude {d : Decision} (h : c.Coherent settings) : (c.conclude d).2.Coherent settings := by
  have hloading : (c.loading d).Coherent settings := h.of_scene rfl rfl
  have hkey : (c.fetchRequest d).key =
      requestKey (c.fetchRequest d).identifier d.request.eventName settings.device.locale :=
    h.settings_eq ▸ rfl
  obtain ⟨hscene, hcache⟩ := finish_frame
    ((c.loading d).serve (c.fetchRequest d) (c.bypassesCache d.request)).2 d
    ((c.loading d).serve (c.fetchRequest d) (c.bypassesCache d.request)).1
  exact (hloading.serve hkey).of_scene hscene hcache

theorem present {r : Request} (h : c.Coherent settings) : (c.present r).2.Coherent settings := by
  obtain ⟨x, c₁, ha⟩ := exists_assigned c r
  have h₁ : c₁.Coherent settings := h.of_scene ha.frame.1 ha.frame.2
  cases x with
  | error o => rwa [present_of_error ha]
  | ok d =>
    rw [present_of_ok ha]
    exact h₁.conclude

theorem warmAll {identifiers : List String} (h : c.Coherent settings) :
    (c.warmAll identifiers).2.Coherent settings := by
  induction identifiers generalizing c with
  | nil => exact h
  | cons identifier rest ih =>
    have hwarm : (c.warm identifier).2.Coherent settings := by
      have hkey : (c.preloadFetch identifier).key =
          requestKey (some identifier) none settings.device.locale := h.settings_eq ▸ rfl
      rw [warm_eq]
      exact h.serve hkey
    exact ih hwarm

theorem preload {identifiers : List String} (h : c.Coherent settings) :
    (c.preload identifiers).2.Coherent settings := by
  unfold Context.preload
  split
  · have hwarmed : ((c.emit .preloadStart none id).warmAll identifiers).2.Coherent settings :=
      (h.of_scene rfl rfl : (c.emit .preloadStart none id).Coherent settings).warmAll
    exact hwarmed.of_scene rfl rfl
  · exact h

theorem preloadActive (h : c.Coherent settings) : c.preloadActive.2.Coherent settings := by
  unfold Context.preloadActive
  split
  · exact h
  · exact h.preload

theorem preloadEvents {names : List String} (h : c.Coherent settings) :
    (c.preloadEvents names).2.Coherent settings := by
  unfold Context.preloadEvents
  split
  · exact h
  · exact h.preload

/-! ## A new campaign -/

/-- The eviction makes up for the new campaign. -/
theorem evictStale {m : Campaign} (h : c.Coherent settings) (hm : m.ListsOnce) :
    ({ c with campaign := some m }.evictStale c.campaign m).Coherent settings := by
  cases hc : c.campaign with
  | none =>
    refine ⟨h.source, h.settings_eq, fun key x hx => ?_⟩
    obtain ⟨m', -, -, -, hm', -⟩ := h.genuine key x hx
    rw [hc] at hm'
    cases hm'
  | some old =>
    refine ⟨h.source, h.settings_eq, fun key x hx => ?_⟩
    simp only [Context.evictStale, SingleFlight.get?_entries_foldl_invalidate] at hx
    split at hx
    · cases hx
    · next hkept =>
      obtain ⟨m', id, p, q, hm', hp, hkey, hq, hsame⟩ := h.genuine key x hx
      cases hc.symm.trans hm'
      have hstale : id ∉ old.stalePaywalls m := fun hid =>
        hkept (List.mem_map.mpr ⟨id, hid, by rw [hkey, h.settings_eq]⟩)
      obtain ⟨p', hp', heq⟩ := Campaign.exists_fresh_of_not_stale hm hp hstale
      exact ⟨m, id, p', q, rfl, hp', hkey, hq, hsame.trans (Or.inr (BEq.symm heq))⟩

theorem load {fetched : Except PaywallError Campaign} (h : c.Coherent settings)
    (hm : ∀ m, fetched = .ok m → m.ListsOnce) : (c.load fetched).2.Coherent settings := by
  cases fetched with
  | error e => exact h
  | ok m =>
    have hevicted := h.evictStale (hm m rfl)
    unfold Context.load
    simp only
    generalize { c with campaign := some m }.evictStale c.campaign m = evicted at *
    obtain ⟨hscene, hcache⟩ := evicted.alignAssignments_frame m
    split
    · next heq =>
      rw [heq] at hscene hcache
      exact hevicted.of_scene hscene hcache
    · next heq =>
      rw [heq] at hscene hcache
      exact hevicted.of_scene hscene hcache

theorem refresh {fetched : Except PaywallError Campaign} (h : c.Coherent settings)
    (hm : ∀ m, fetched = .ok m → m.ListsOnce) : (c.refresh fetched).2.Coherent settings := by
  have hloaded := h.load hm
  unfold Context.refresh
  generalize c.load fetched = loaded at *
  obtain ⟨_ | m, c₁⟩ := loaded
  · exact hloaded
  · simp only
    split
    · exact hloaded.preloadActive
    · exact hloaded

theorem reset (h : c.Coherent settings) : c.reset.2.Coherent settings := by
  unfold Context.reset
  rcases c.assignments.clear with ⟨_ | _, cleared⟩
  · exact h.of_scene rfl rfl
  · refine ⟨h.source, h.settings_eq, fun key x hx => ?_⟩
    rw [SingleFlight.get?_entries_clear] at hx
    cases hx

/-! ## Steps and runs -/

theorem deliver (h : c.Coherent settings) : c.deliver.Coherent settings := by
  rw [deliver_eq]
  exact h.of_scene rfl rfl

end Coherent

theorem Coherent.perform {s : HostStep} (h : c.Coherent settings) (hs : s.IsOrdinary) :
    (c.perform s).2.Coherent settings := by
  cases s with
  | load fetched => exact h.load fun m hm => by subst hm; exact hs
  | refresh fetched => exact h.refresh fun m hm => by subst hm; exact hs
  | present r => exact h.present
  | presentAll rs => exact hs.elim
  | preloadActive => exact h.preloadActive
  | preloadEvents names => exact h.preloadEvents
  | reset => exact h.reset
  | setAttribute key value => exact h.congr rfl rfl rfl rfl
  | setSubscribed subscribed => exact h.congr rfl rfl rfl rfl
  | recordPurchase product => exact h.congr rfl rfl rfl rfl
  | setClock now => exact h.congr rfl rfl rfl rfl
  | recordAt key time => exact h.congr rfl rfl rfl rfl
  | setSource source => exact hs.elim
  | setRefused calls reason => exact h.congr rfl rfl rfl rfl
  | setSaveFault reason => exact h.congr rfl rfl rfl rfl

theorem Coherent.step {s : HostStep} (h : c.Coherent settings) (hs : s.IsOrdinary) :
    (c.step s).2.Coherent settings :=
  (h.perform hs).deliver

theorem Coherent.run {steps : List HostStep} (h : c.Coherent settings)
    (hs : ∀ s ∈ steps, s.IsOrdinary) : (c.run steps).2.Coherent settings := by
  induction steps generalizing c with
  | nil => exact h
  | cons s rest ih =>
    obtain ⟨hhead, hrest⟩ := List.forall_mem_cons.mp hs
    exact ih (h.step hhead) hrest

theorem coherent_of_open {settings : Settings} {evaluator : Evaluator} {record : Record}
    {ledger : Ledger} {seed : UInt64} {now : Instant}
    (h : openWith settings evaluator .campaign record ledger seed now = .ok c) :
    c.Coherent settings := by
  unfold openWith at h
  split at h
  · cases h
  · cases h
    exact ⟨rfl, rfl, fun _ _ hx => by simp [SingleFlight.empty] at hx⟩

/-- What is cached under the key of an identifier is the paywall of that name in the current
campaign. It equals that paywall, if JSON can hold its payload; no experiment has been filled in, and
no free trial. -/
theorem cached_of_campaign {settings : Settings} {evaluator : Evaluator} {record : Record}
    {ledger : Ledger} {seed : UInt64} {now : Instant} {steps : List HostStep} {id : String}
    {q : Resource} (hopen : openWith settings evaluator .campaign record ledger seed now = .ok c)
    (hsteps : ∀ s ∈ steps, s.IsOrdinary)
    (hcached : (c.run steps).2.cache.cached? (requestKey (some id) none settings.device.locale) =
      some q) :
    ∃ m p, (c.run steps).2.campaign = some m ∧ m.paywall? id = some p ∧ q.Same p ∧
      (p.payload.isProper → q == p) ∧ q.experiment = p.experiment ∧
      q.isFreeTrialAvailable = p.isFreeTrialAvailable := by
  have hcoherent := (coherent_of_open hopen).run hsteps
  obtain ⟨m, p, hm, hp, hsame⟩ :=
    hcoherent.exists_paywall (SingleFlight.cached?_eq_some_iff.mp hcached)
  exact ⟨m, p, hm, hp, hsame, hsame.beq, hsame.experiment_eq, hsame.isFreeTrialAvailable_eq⟩

/-- A campaign with two paywalls. -/
def gallery (condition : PresentationCondition) : Campaign where
  triggers := []
  paywalls := [⟨"a", [], condition, false, .null, none⟩, ⟨"b", [], .always, true, .null, none⟩]
  assignments := []
  requestId := none

/-- The paywalls of the gallery are presented, and the first one changes. -/
def visit : List HostStep :=
  [.refresh (.ok (gallery .always)), .present (.forPaywall "a"), .present (.forPaywall "b"),
    .refresh (.ok (gallery .checkUserSubscription))]

/-- The paywall of the gallery that does not change stays cached, as the campaign lists it: with the free
trial that it had not when it was presented. -/
theorem cached_after_visit :
    ∃ c q, openWith {} Expression.evaluate .campaign (.ofStored ∅) (.ofHistory (.start ⟨0, 0⟩)) 0
        ⟨0, 0⟩ = .ok c ∧
      (c.run visit).2.cache.cached? (requestKey (some "b") none "en_US") = some q ∧
      ∃ m p, (c.run visit).2.campaign = some m ∧ m.paywall? "b" = some p ∧ q.Same p ∧
        (p.payload.isProper → q == p) ∧ q.experiment = p.experiment ∧
        q.isFreeTrialAvailable = p.isFreeTrialAvailable := by
  have hopen : openWith {} Expression.evaluate .campaign (.ofStored ∅) (.ofHistory (.start ⟨0, 0⟩))
      0 ⟨0, 0⟩ = .ok _ := rfl
  exact ⟨_, ⟨"b", [], .always, true, .null, none⟩, hopen, rfl,
    cached_of_campaign hopen (by decide) rfl⟩

end Context

end Paywall
