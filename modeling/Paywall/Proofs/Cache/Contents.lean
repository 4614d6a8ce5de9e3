import Paywall.Proofs.Cache.Soundness

/-!
# What the cache holds

The entry of a key is decided by the history alone: by the latest event that bears on the key. A
fetch that ends bears on its key only if the key has not been forgotten since the fetch was started,
so what was fetched before an invalidation does not come back after it.
-/

namespace Paywall

variable {ε ρ : Type}

namespace CacheEvent

/-- Whether a fetch is started. -/
def starts (f : OpenFetch) : CacheEvent ε ρ → Bool
  | .called _ key _ (.started token) => key == f.key && token == f.token
  | _ => false

/-- Whether a key is forgotten. -/
def forgets (key : String) : CacheEvent ε ρ → Bool
  | .invalidated k => k == key
  | .cleared => true
  | _ => false

/-- The entry that an event leaves behind under the key that it bears on. -/
def entry? : CacheEvent ε ρ → Option (CacheEntry ρ)
  | .called _ _ _ (.started token) => some (.inFlight token)
  | .ended _ (.ok r) _ => some (.resolved r)
  | _ => none

end CacheEvent

namespace CacheSession

/-- Whether a fetch has been started and its key has not been forgotten since. -/
def undisturbed (f : OpenFetch) : List (CacheEvent ε ρ) → Bool
  | [] => false
  | event :: past => event.starts f || (!event.forgets f.key && undisturbed f past)

/-- Whether an event behind a past bears on a key: it starts a fetch for the key, forgets the key,
or ends an undisturbed fetch for it. -/
def bears (key : String) (past : List (CacheEvent ε ρ)) : CacheEvent ε ρ → Bool
  | .called _ k _ (.started _) => k == key
  | .ended f _ _ => f.key == key && undisturbed f past
  | event => event.forgets key

/-- The latest event that bears on a key. -/
def latest? (key : String) : List (CacheEvent ε ρ) → Option (CacheEvent ε ρ)
  | [] => none
  | event :: past => if bears key past event then some event else latest? key past

theorem bears_of_forgets {key : String} {past : List (CacheEvent ε ρ)} {event : CacheEvent ε ρ}
    (h : event.forgets key) : bears key past event := by
  cases event <;> simp_all [bears, CacheEvent.forgets]

/-- If the latest event that bears on a key starts a fetch, that fetch is undisturbed. -/
theorem undisturbed_of_latest {key : String} {t : Nat} {past : List (CacheEvent ε ρ)}
    (h : (latest? key past).bind CacheEvent.entry? = some (.inFlight t)) :
    undisturbed ⟨t, key⟩ past := by
  induction past with
  | nil => simp [latest?] at h
  | cons event past ih =>
    simp only [latest?] at h
    split at h
    · next hbears =>
      have hstarts : event.starts ⟨t, key⟩ = true := by
        simp only [Option.bind_some] at h
        unfold CacheEvent.entry? at h
        split at h
        · simpa [CacheEvent.starts, bears] using And.intro (by simpa [bears] using hbears) h
        · simp at h
        · simp at h
      simp [undisturbed, hstarts]
    · next hnot =>
      have hforgets : event.forgets key = false := by
        simpa using fun hf => hnot (bears_of_forgets hf)
      simp [undisturbed, hforgets, ih h]

/-- The entries are those of the latest events, and an open fetch that is undisturbed owns the entry
of its key. -/
structure Recorded (past : List (CacheEvent ε ρ)) (s : CacheSession ε ρ) : Prop where
  entry : ∀ key, s.cache.entries.get? key = (latest? key past).bind CacheEvent.entry?
  owner : ∀ f ∈ s.fetches, undisturbed f past →
    s.cache.entries.get? f.key = some (.inFlight f.token)

namespace Recorded

variable {past : List (CacheEvent ε ρ)} {s s' : CacheSession ε ρ} {event : CacheEvent ε ρ}

theorem start : Recorded [] (start : CacheSession ε ρ) where
  entry _ := rfl
  owner _ hf := absurd hf List.not_mem_nil

/-- An open fetch is undisturbed exactly if it owns the entry of its key. -/
theorem owns_eq (h : Recorded past s) {f : OpenFetch} (hf : f ∈ s.fetches) :
    s.cache.owns f.key f.token = undisturbed f past := by
  rw [Bool.eq_iff_iff, SingleFlight.owns_iff]
  refine ⟨fun ho => ?_, h.owner f hf⟩
  rw [h.entry] at ho
  exact undisturbed_of_latest ho

/-- Events that start, end and forget nothing leave the record alone. -/
theorem quiet (h : Recorded past s) (hbears : ∀ key, bears key past event = false)
    (hstarts : ∀ f, event.starts f = false) (hforgets : ∀ key, event.forgets key = false)
    (hentries : s'.cache.entries = s.cache.entries) (hfetches : s'.fetches = s.fetches) :
    Recorded (event :: past) s' where
  entry key := by
    rw [hentries, h.entry]
    simp [latest?, hbears]
  owner f hf hu := by
    rw [hfetches] at hf
    rw [hentries]
    refine h.owner f hf ?_
    simpa [undisturbed, hstarts, hforgets] using hu

theorem started (h : Recorded past s) (hs : Sound s) {key : String} {bypass : Bool}
    (state : CallerState ε ρ) (hfree : ∀ t, s.cache.entries.get? key ≠ some (.inFlight t)) :
    Recorded (.called s.callers.length key bypass (.started s.cache.nextToken) :: past)
      (s.afterStart key state) where
  entry k := by
    rw [SingleFlight.get?_entries_start]
    by_cases hk : key = k
    · simp [latest?, bears, hk, CacheEvent.entry?]
    · simp [latest?, bears, hk, h.entry]
  owner f hf hu := by
    rw [SingleFlight.get?_entries_start]
    rcases List.mem_append.mp hf with hf | hf
    · have hne : s.cache.nextToken ≠ f.token := Nat.ne_of_gt (hs.token_lt f hf)
      have hold := h.owner f hf
        (by simpa [undisturbed, CacheEvent.starts, CacheEvent.forgets, hne] using hu)
      rw [if_neg (fun hk : key = f.key => hfree f.token (hk ▸ hold)), hold]
    · rw [List.mem_singleton.mp hf, if_pos rfl]

theorem ended (h : Recorded past s) {f : OpenFetch} (result : Except ε ρ)
    (hf : f ∈ s.fetches) :
    Recorded (.ended f result (s.cache.waiters f.token) :: past)
      (s.afterEnd f result) where
  entry key := by
    rw [SingleFlight.get?_entries_settle, h.owns_eq hf]
    by_cases hkey : f.key = key ∧ undisturbed f past
    · cases result <;>
        simp [latest?, bears, hkey, CacheEvent.entry?, SingleFlight.settledEntry]
    · simp [latest?, bears, hkey, h.entry]
  owner g hg hu := by
    obtain ⟨hg, hne⟩ := List.mem_filter.mp hg
    have hold := h.owner g hg
      (by simpa [undisturbed, CacheEvent.starts, CacheEvent.forgets] using hu)
    rw [SingleFlight.get?_entries_settle, if_neg ?_, hold]
    rintro ⟨hkey, ho⟩
    rw [SingleFlight.owns_iff, hkey, hold] at ho
    simp at ho hne
    exact hne ho

theorem change (h : Recorded past s) (hs : Sound s) (hc : Change s event s') :
    Recorded (event :: past) s' := by
  cases hc with
  | hit | joined | left | nothing =>
    exact h.quiet (fun _ => rfl) (fun _ => rfl) (fun _ => rfl) rfl rfl
  | started hfree => exact h.started hs _ hfree
  | ended result hf => exact h.ended result hf
  | invalidated key =>
    refine ⟨fun k => ?_, fun f hf hu => ?_⟩
    · rw [SingleFlight.get?_entries_invalidate, h.entry]
      by_cases hk : key = k
      · simp [latest?, bears, CacheEvent.forgets, hk, CacheEvent.entry?]
      · simp [latest?, bears, CacheEvent.forgets, hk]
    · simp only [undisturbed, CacheEvent.starts, CacheEvent.forgets, Bool.false_or,
        Bool.and_eq_true, Bool.not_eq_true', beq_eq_false_iff_ne] at hu
      rw [SingleFlight.get?_entries_invalidate, if_neg hu.1, h.owner f hf hu.2]
  | cleared =>
    refine ⟨fun k => ?_, fun f hf hu => ?_⟩
    · simp [latest?, bears, CacheEvent.forgets, CacheEvent.entry?]
    · simp [undisturbed, CacheEvent.starts, CacheEvent.forgets] at hu

end Recorded

theorem recorded_run (steps : List (CacheStep ε ρ)) :
    Sound (start.run steps) ∧ Recorded (events steps) (start.run steps) :=
  history_run_induction (P := fun past s => Sound s ∧ Recorded past s)
    (fun _ s e h => ⟨h.1.change (change_step s e), h.2.change h.1 (change_step s e)⟩) steps [] start
    ⟨Sound.start, Recorded.start⟩

/-- After any run a result is memoized under a key exactly if, of the events that bear on the key,
the latest is the successful end of a fetch for it, with this result. -/
theorem cached?_eq_some_iff_latest (steps : List (CacheStep ε ρ)) (key : String) (r : ρ) :
    (start.run steps : CacheSession ε ρ).cache.cached? key = some r ↔
      ∃ f numbers, latest? key (events steps) = some (.ended f (.ok r) numbers) := by
  rw [SingleFlight.cached?_eq_some_iff, (recorded_run steps).2.entry]
  constructor
  · intro h
    obtain ⟨event, hlatest, hentry⟩ := Option.bind_eq_some_iff.mp h
    unfold CacheEvent.entry? at hentry
    split at hentry
    · simp at hentry
    · next f v numbers =>
      obtain rfl : v = r := by simpa using hentry
      exact ⟨f, numbers, hlatest⟩
    · simp at hentry
  · rintro ⟨f, numbers, h⟩
    rw [h]
    rfl

end CacheSession

end Paywall
