import Mathlib.Data.List.Nodup
import Paywall.Proofs.Cache.History

/-!
# Sound sessions

The invariant that ties a cache to its open fetches and its callers: the tokens with waiting callers
are those of the open fetches, a fetch under way is an open fetch of its own key, and the next token
is fresh. Every step preserves it, so every session that is reached from the start is sound.
-/

namespace Paywall.CacheSession

variable {ε ρ : Type}

/-- The cache of a session agrees with the open fetches and the callers. -/
structure Sound (s : CacheSession ε ρ) : Prop where
  nodup_tokens : s.cache.tokens.Nodup
  nodup_fetches : (s.fetches.map (·.token)).Nodup
  mem_tokens_iff : ∀ t, t ∈ s.cache.tokens ↔ ∃ f ∈ s.fetches, f.token = t
  token_lt : ∀ f ∈ s.fetches, f.token < s.cache.nextToken
  inFlight_open : ∀ key t, s.cache.entries.get? key = some (.inFlight t) → ⟨t, key⟩ ∈ s.fetches
  waiter_lt : ∀ t, ∀ i ∈ s.cache.waiters t, i < s.callers.length

namespace Sound

variable {s s' : CacheSession ε ρ}

/-- No two open fetches have one token. -/
theorem fetch_eq (h : Sound s) {f g : OpenFetch} (hf : f ∈ s.fetches) (hg : g ∈ s.fetches)
    (ht : f.token = g.token) : f = g :=
  List.inj_on_of_nodup_map h.nodup_fetches hf hg ht

/-- An open fetch that ends is found by its token. -/
theorem complete_eq (h : Sound s) {f : OpenFetch} (hf : f ∈ s.fetches) (result : Except ε ρ) :
    s.event (.complete f.token result) = .ended f result (s.cache.waiters f.token) ∧
      s.complete f.token result = s.afterEnd f result := by
  rcases hfind : s.fetches.find? (fun g => g.token == f.token) with _ | g
  · exact absurd (List.find?_eq_none.mp hfind f hf) (by simp)
  · obtain rfl : g = f :=
      h.fetch_eq (List.mem_of_find?_eq_some hfind) hf (by simpa using List.find?_some hfind)
    unfold event complete
    simp only [hfind]
    exact ⟨rfl, rfl⟩

/-- The next token has no waiting callers yet. -/
theorem waiters_nextToken (h : Sound s) : s.cache.waiters s.cache.nextToken = [] := by
  refine SingleFlight.waiters_eq_nil fun ht => ?_
  obtain ⟨f, hf, hft⟩ := (h.mem_tokens_iff _).mp ht
  exact absurd (h.token_lt f hf) (by omega)

theorem start : Sound (start : CacheSession ε ρ) where
  nodup_tokens := List.nodup_nil
  nodup_fetches := List.nodup_nil
  mem_tokens_iff t := by simp [CacheSession.start, SingleFlight.empty, SingleFlight.tokens]
  token_lt f hf := absurd hf (List.not_mem_nil)
  inFlight_open key t ht := by simp [CacheSession.start, SingleFlight.empty] at ht
  waiter_lt t i hi := by simp [CacheSession.start, SingleFlight.empty, SingleFlight.waiters] at hi

theorem hit (h : Sound s) (c : String × CallerState ε ρ) :
    Sound { s with callers := s.callers ++ [c] } :=
  { h with
    waiter_lt := by
      intro t i hi
      have := h.waiter_lt t i hi
      simp only [List.length_append, List.length_singleton]
      omega }

theorem joined (h : Sound s) {key : String} {t : Nat} (state : CallerState ε ρ)
    (ht : s.cache.entries.get? key = some (.inFlight t)) :
    Sound { s with
      cache := s.cache.join t s.callers.length
      callers := s.callers ++ [(key, state)] } where
  nodup_tokens := SingleFlight.nodup_tokens_setWaiters h.nodup_tokens _ _
  nodup_fetches := h.nodup_fetches
  mem_tokens_iff u := by
    rw [SingleFlight.mem_tokens_join, h.mem_tokens_iff]
    constructor
    · rintro (rfl | hu)
      · exact ⟨_, h.inFlight_open key u ht, rfl⟩
      · exact hu
    · exact Or.inr
  token_lt := h.token_lt
  inFlight_open := h.inFlight_open
  waiter_lt u i hi := by
    simp only [List.length_append, List.length_singleton]
    rw [SingleFlight.waiters_join] at hi
    split at hi
    · rcases List.mem_append.mp hi with hi | hi
      · have := h.waiter_lt t i hi
        omega
      · have : i = s.callers.length := by simpa using hi
        omega
    · have := h.waiter_lt u i hi
      omega

theorem started (h : Sound s) (key : String) (state : CallerState ε ρ) :
    Sound (s.afterStart key state) where
  nodup_tokens := SingleFlight.nodup_tokens_setWaiters h.nodup_tokens _ _
  nodup_fetches := by
    rw [List.map_append]
    refine List.nodup_append.mpr ⟨h.nodup_fetches, by simp, ?_⟩
    intro t ht u hu
    obtain ⟨f, hf, rfl⟩ := List.mem_map.mp ht
    have := h.token_lt f hf
    simp only [List.map_cons, List.map_nil, List.mem_singleton] at hu
    omega
  mem_tokens_iff t := by
    rw [SingleFlight.mem_tokens_start, h.mem_tokens_iff]
    simp only [List.mem_append, List.mem_singleton]
    constructor
    · rintro (rfl | ⟨f, hf, rfl⟩)
      · exact ⟨_, Or.inr rfl, rfl⟩
      · exact ⟨f, Or.inl hf, rfl⟩
    · rintro ⟨f, hf | rfl, rfl⟩
      · exact Or.inr ⟨f, hf, rfl⟩
      · exact Or.inl rfl
  token_lt f hf := by
    rw [SingleFlight.nextToken_start]
    rcases List.mem_append.mp hf with hf | hf
    · have := h.token_lt f hf
      omega
    · rw [List.mem_singleton.mp hf]
      exact Nat.lt_succ_self _
  inFlight_open k t hk := by
    rw [SingleFlight.get?_entries_start] at hk
    split at hk
    · next hkey =>
      simp only [Option.some.injEq, CacheEntry.inFlight.injEq] at hk
      exact List.mem_append_right _ (by simp [hkey, hk])
    · exact List.mem_append_left _ (h.inFlight_open k t hk)
  waiter_lt t i hi := by
    simp only [List.length_append, List.length_singleton]
    rw [SingleFlight.waiters_start] at hi
    split at hi
    · have : i = s.callers.length := by simpa using hi
      omega
    · have := h.waiter_lt t i hi
      omega

theorem ended (h : Sound s) {f : OpenFetch} (result : Except ε ρ) (hf : f ∈ s.fetches) :
    Sound (s.afterEnd f result) where
  nodup_tokens := SingleFlight.nodup_tokens_filter h.nodup_tokens _
  nodup_fetches := h.nodup_fetches.sublist (List.filter_sublist.map _)
  mem_tokens_iff t := by
    rw [SingleFlight.mem_tokens_settle, h.mem_tokens_iff]
    simp only [List.mem_filter, decide_eq_true_eq]
    constructor
    · rintro ⟨hne, g, hg, rfl⟩
      exact ⟨g, ⟨hg, hne⟩, rfl⟩
    · rintro ⟨g, ⟨hg, hne⟩, rfl⟩
      exact ⟨hne, g, hg, rfl⟩
  token_lt g hg := h.token_lt g (List.mem_filter.mp hg).1
  inFlight_open key t hk := by
    rw [SingleFlight.get?_entries_settle] at hk
    split at hk
    · cases result <;> simp [SingleFlight.settledEntry] at hk
    · next hnot =>
      have hopen := h.inFlight_open key t hk
      refine List.mem_filter.mpr ⟨hopen, ?_⟩
      simp only [decide_eq_true_eq]
      intro ht
      obtain rfl : (⟨t, key⟩ : OpenFetch) = f := h.fetch_eq hopen hf ht
      exact hnot ⟨rfl, SingleFlight.owns_iff.mpr hk⟩
  waiter_lt t i hi := by
    rw [SingleFlight.waiters_settle] at hi
    rw [length_answer]
    split at hi
    · exact absurd hi (List.not_mem_nil)
    · exact h.waiter_lt t i hi

theorem left (h : Sound s) (i : Nat) : Sound (s.drop i) :=
  { h with
    waiter_lt := by
      intro t j hj
      rw [length_drop]
      exact h.waiter_lt t j hj }

theorem invalidated (h : Sound s) (key : String) :
    Sound { s with cache := s.cache.invalidate key } :=
  { h with
    inFlight_open := by
      intro k t hk
      rw [SingleFlight.get?_entries_invalidate] at hk
      split at hk
      · exact absurd hk (by simp)
      · exact h.inFlight_open k t hk }

theorem cleared (h : Sound s) : Sound { s with cache := s.cache.clear } :=
  { h with inFlight_open := fun k t hk => absurd hk (by simp) }

theorem change (h : Sound s) {event : CacheEvent ε ρ} (hc : Change s event s') : Sound s' := by
  cases hc with
  | hit => exact h.hit _
  | joined ht => exact h.joined _ ht
  | started => exact h.started _ _
  | ended result hf => exact h.ended result hf
  | left => exact h.left _
  | invalidated key => exact h.invalidated key
  | cleared => exact h.cleared
  | nothing => exact h

theorem run (h : Sound s) (steps : List (CacheStep ε ρ)) : Sound (s.run steps) :=
  history_run_induction (P := fun _ s => Sound s) (fun _ s e h => h.change (change_step s e)) steps
    [] s h

end Sound

/-- Every session that is reached from the start is sound. -/
theorem sound_run (steps : List (CacheStep ε ρ)) : Sound (start.run steps) := Sound.start.run steps

/-! ## What a sound session keeps -/

namespace Sound

variable {s : CacheSession ε ρ}

/-- There is one list of waiting callers for each open fetch. -/
theorem tokens_perm (h : Sound s) : s.cache.tokens.Perm (s.fetches.map (·.token)) := by
  rw [List.perm_ext_iff_of_nodup h.nodup_tokens h.nodup_fetches]
  intro t
  rw [h.mem_tokens_iff, List.mem_map]

theorem tokens_lt (h : Sound s) {t : Nat} (ht : t ∈ s.cache.tokens) : t < s.cache.nextToken := by
  obtain ⟨f, hf, rfl⟩ := (h.mem_tokens_iff t).mp ht
  exact h.token_lt f hf

/-- A fetch is under way for its own key and for no other. -/
theorem inFlight_key_eq (h : Sound s) {key key' : String} {t : Nat}
    (hkey : s.cache.entries.get? key = some (.inFlight t))
    (hkey' : s.cache.entries.get? key' = some (.inFlight t)) : key = key' :=
  congrArg OpenFetch.key
    (h.fetch_eq (h.inFlight_open key t hkey) (h.inFlight_open key' t hkey') rfl)

/-- Once all fetches have ended nobody waits. -/
theorem waiting_eq_nil (h : Sound s) (hnone : s.fetches = []) : s.cache.waiting = [] := by
  have htokens := h.tokens_perm
  rw [hnone, List.map_nil] at htokens
  exact List.map_eq_nil_iff.mp htokens.eq_nil

/-- Once all fetches have ended no entry is kept for a result still to come. -/
theorem not_inFlight (h : Sound s) (hnone : s.fetches = []) (key : String) (t : Nat) :
    s.cache.entries.get? key ≠ some (.inFlight t) := by
  intro hkey
  have hopen := h.inFlight_open key t hkey
  rw [hnone] at hopen
  cases hopen

end Sound

/-- After any run there is one list of waiting callers for each open fetch and no other list, and all
tokens have been given out. An entry that is in flight carries the token of an open fetch for its own
key, and no two entries carry one token. So when all fetches have ended nothing is left of them but
their results. -/
theorem bookkeeping_of_run (steps : List (CacheStep ε ρ)) :
    let s : CacheSession ε ρ := start.run steps
    s.cache.tokens.Nodup ∧ s.cache.tokens.Perm (s.fetches.map (·.token)) ∧
      (∀ t ∈ s.cache.tokens, t < s.cache.nextToken) ∧
      (∀ key t, s.cache.entries.get? key = some (.inFlight t) →
        ∃ f ∈ s.fetches, f.token = t ∧ f.key = key) ∧
      (∀ key key' t, s.cache.entries.get? key = some (.inFlight t) →
        s.cache.entries.get? key' = some (.inFlight t) → key = key') ∧
      (s.fetches = [] →
        s.cache.waiting = [] ∧ ∀ key t, s.cache.entries.get? key ≠ some (.inFlight t)) := by
  intro s
  have h : Sound s := sound_run steps
  refine ⟨h.nodup_tokens, h.tokens_perm, fun t ht => h.tokens_lt ht, fun key t hkey => ?_,
    fun key key' t hkey hkey' => h.inFlight_key_eq hkey hkey',
    fun hnone => ⟨h.waiting_eq_nil hnone, h.not_inFlight hnone⟩⟩
  exact ⟨⟨t, key⟩, h.inFlight_open key t hkey, rfl, rfl⟩

end Paywall.CacheSession
