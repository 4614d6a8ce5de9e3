import Paywall.Proofs.Cache.Soundness

/-!
# The fetches and the callers of one key

Tokens are given out over all keys, and callers are numbered over all keys. The fetches and callers
of one key have numbers of their own, too, in the order in which they come. Nothing that comes later
changes such a number, and those who wait for a fetch are callers for its key.
-/

namespace Paywall

variable {ε ρ : Type}

namespace CallerState

/-- A caller gets a result, if it waits for one. -/
def settle (result : Except ε ρ) : CallerState ε ρ → CallerState ε ρ
  | .waiting _ => .answered result
  | state => state

/-- A caller goes away, if it waits. -/
def leave : CallerState ε ρ → CallerState ε ρ
  | .waiting _ => .dropped
  | state => state

end CallerState

/-- The token of the fetch that a call starts. -/
def Resolution.started? : Resolution ρ → Option Nat
  | .started token => some token
  | _ => none

/-- What becomes of a call for a key. -/
def CacheEvent.call? (key : String) : CacheEvent ε ρ → Option (Resolution ρ)
  | .called _ k _ resolution => if k = key then some resolution else none
  | _ => none

/-- The token of the fetch that is started for a key. -/
def CacheEvent.started? (key : String) (event : CacheEvent ε ρ) : Option Nat :=
  (event.call? key).bind Resolution.started?

theorem CacheEvent.started?_called_eq_none {caller : Nat} {k : String} {bypass : Bool}
    {resolution : Resolution ρ} {key : String} (h : k ≠ key ∨ resolution.started? = none) :
    (CacheEvent.called caller k bypass resolution : CacheEvent ε ρ).started? key = none := by
  rw [started?, call?]
  rcases h with hk | hnone
  · rw [if_neg hk]
    rfl
  · by_cases hk : k = key
    · rw [if_pos hk]
      exact hnone
    · rw [if_neg hk]
      rfl

namespace CacheSession

/-- What has become of the calls for a key, the earliest first. -/
def callsFor (key : String) : List (CacheEvent ε ρ) → List (Resolution ρ)
  | [] => []
  | event :: past => callsFor key past ++ (event.call? key).toList

/-- The tokens of the fetches started for a key, the earliest first. -/
def startedFor (key : String) (past : List (CacheEvent ε ρ)) : List Nat :=
  (callsFor key past).filterMap Resolution.started?

/-- The number of a fetch among those for its key. -/
def fetchNumber (key : String) (past : List (CacheEvent ε ρ)) (token : Nat) : Nat :=
  (startedFor key past).idxOf token

/-- The keys of all callers so far. -/
def keys (s : CacheSession ε ρ) : List String := s.callers.map (·.1)

/-- How many of the callers before a caller call for a key. -/
def callerNumber (key : String) (keys : List String) (caller : Nat) : Nat :=
  (keys.take caller).count key

/-! ## Callers -/

section Callers

variable {key : String} {ks : List String} {i j : Nat}

@[simp] theorem length_keys (s : CacheSession ε ρ) : s.keys.length = s.callers.length := by
  simp [keys]

@[simp] theorem keys_concat (s : CacheSession ε ρ) (cache : SingleFlight ρ Nat)
    (fetches : List OpenFetch) (c : String × CallerState ε ρ) :
    keys ⟨cache, fetches, s.callers ++ [c]⟩ = s.keys ++ [c.1] := List.map_append

/-- Changes the states of the callers with the given numbers. -/
def alter (callers : List (String × CallerState ε ρ)) (numbers : List Nat)
    (change : CallerState ε ρ → CallerState ε ρ) : List (String × CallerState ε ρ) :=
  callers.mapIdx fun i c => if i ∈ numbers then (c.1, change c.2) else c

theorem callers_afterEnd (s : CacheSession ε ρ) (f : OpenFetch) (result : Except ε ρ) :
    (s.afterEnd f result).callers =
      alter s.callers (s.cache.waiters f.token) (.settle result) := by
  refine congrArg (List.mapIdx · s.callers) ?_
  funext i c
  obtain ⟨k, _ | _ | _⟩ := c <;> simp [CallerState.settle]

theorem callers_drop (s : CacheSession ε ρ) (i : Nat) :
    (s.drop i).callers = alter s.callers [i] .leave := by
  refine congrArg (List.mapIdx · s.callers) ?_
  funext j c
  obtain ⟨k, _ | _ | _⟩ := c <;> simp [CallerState.leave]

@[simp] theorem keys_alter (callers : List (String × CallerState ε ρ)) (numbers : List Nat)
    (change : CallerState ε ρ → CallerState ε ρ) :
    (alter callers numbers change).map (·.1) = callers.map (·.1) := by
  refine List.ext_getElem? fun i => ?_
  simp only [alter, List.getElem?_map, List.getElem?_mapIdx]
  rcases callers[i]? with _ | c
  · rfl
  · simp only [Option.map_some]
    split <;> rfl

@[simp] theorem keys_drop (s : CacheSession ε ρ) (i : Nat) : (s.drop i).keys = s.keys := by
  rw [keys, callers_drop, keys_alter, ← keys]

@[simp] theorem keys_afterEnd (s : CacheSession ε ρ) (f : OpenFetch) (result : Except ε ρ) :
    (s.afterEnd f result).keys = s.keys := by
  rw [keys, callers_afterEnd, keys_alter, ← keys]

theorem callerNumber_cons_succ (k : String) :
    callerNumber key (k :: ks) (i + 1) = callerNumber key ks i + if k = key then 1 else 0 := by
  simp [callerNumber, List.count_cons]

theorem callerNumber_append (h : i ≤ ks.length) (ls : List String) :
    callerNumber key (ks ++ ls) i = callerNumber key ks i := by
  unfold callerNumber
  rw [List.take_append_of_le_length h]

theorem callerNumber_lt (hi : ks[i]? = some key) (hij : i < j) :
    callerNumber key ks i < callerNumber key ks j := by
  have hnext : (ks.take (i + 1)).count key = (ks.take i).count key + 1 := by
    rw [List.take_add_one, hi]
    simp
  have hle : (ks.take (i + 1)).count key ≤ (ks.take j).count key :=
    (List.take_prefix_take_left hij).sublist.count_le key
  unfold callerNumber
  omega

/-- No two callers of a key have one number. -/
theorem callerNumber_inj (hi : ks[i]? = some key) (hj : ks[j]? = some key) :
    callerNumber key ks i = callerNumber key ks j ↔ i = j := by
  refine ⟨fun h => ?_, congrArg _⟩
  rcases Nat.lt_trichotomy i j with hij | hij | hij
  · exact absurd h (Nat.ne_of_lt (callerNumber_lt hi hij))
  · exact hij
  · exact absurd h (Nat.ne_of_gt (callerNumber_lt hj hij))

end Callers

/-! ## Fetches -/

section Fetches

variable {key : String} {past : List (CacheEvent ε ρ)} {event : CacheEvent ε ρ}

theorem callsFor_of_none (h : event.call? key = none) :
    callsFor key (event :: past) = callsFor key past := by
  simp [callsFor, h]

theorem startedFor_cons :
    startedFor key (event :: past) = startedFor key past ++ (event.started? key).toList := by
  unfold startedFor CacheEvent.started?
  rw [callsFor, List.filterMap_append]
  cases event.call? key with
  | none => rfl
  | some resolution => cases resolution <;> rfl

theorem startedFor_of_none (h : event.started? key = none) :
    startedFor key (event :: past) = startedFor key past := by
  rw [startedFor_cons, h]
  exact List.append_nil _

theorem startedFor_of_started (caller : Nat) (bypass : Bool) (token : Nat) :
    startedFor key (.called caller key bypass (.started token) :: past) =
      startedFor key past ++ [token] := by
  rw [startedFor_cons, CacheEvent.started?, CacheEvent.call?, if_pos rfl]
  rfl

end Fetches

/-! ## What is known of the fetches by their tokens -/

/-- The history says for which key a fetch is, and those who wait for it are callers for that key. -/
structure Assorted (past : List (CacheEvent ε ρ)) (s : CacheSession ε ρ) : Prop where
  sound : Sound s
  started_lt : ∀ key, ∀ t ∈ startedFor key past, t < s.cache.nextToken
  mem_started_iff : ∀ key, ∀ f ∈ s.fetches, f.token ∈ startedFor key past ↔ f.key = key
  key_of_waiter : ∀ f ∈ s.fetches, ∀ i ∈ s.cache.waiters f.token, s.keys[i]? = some f.key

namespace Assorted

variable {past : List (CacheEvent ε ρ)} {s s' : CacheSession ε ρ} {event : CacheEvent ε ρ}

theorem start : Assorted [] (start : CacheSession ε ρ) where
  sound := Sound.start
  started_lt _ _ ht := absurd ht List.not_mem_nil
  mem_started_iff _ _ hf := absurd hf List.not_mem_nil
  key_of_waiter _ hf := absurd hf List.not_mem_nil

theorem mem_started_of_inFlight (h : Assorted past s) {key : String} {t : Nat}
    (ht : s.cache.entries.get? key = some (.inFlight t)) : t ∈ startedFor key past :=
  (h.mem_started_iff key _ (h.sound.inFlight_open key t ht)).mpr rfl

/-- The token of a fetch for one key is not among those for another. -/
theorem ne_of_mem_started (h : Assorted past s) {key : String} {f : OpenFetch} (hf : f ∈ s.fetches)
    (hkey : f.key ≠ key) {t : Nat} (ht : t ∈ startedFor key past) : f.token ≠ t := by
  rintro rfl
  exact hkey ((h.mem_started_iff key f hf).mp ht)

/-- A step that starts no fetch. -/
theorem quiet (h : Assorted past s) (hsound : Sound s')
    (hevent : ∀ key, event.started? key = none)
    (htoken : s'.cache.nextToken = s.cache.nextToken) (hfetches : ∀ f ∈ s'.fetches, f ∈ s.fetches)
    (hwaiters : ∀ f ∈ s'.fetches, ∀ i ∈ s'.cache.waiters f.token, s'.keys[i]? = some f.key) :
    Assorted (event :: past) s' where
  sound := hsound
  started_lt key t ht := by
    rw [startedFor_of_none (hevent key)] at ht
    rw [htoken]
    exact h.started_lt key t ht
  mem_started_iff key f hf := by
    rw [startedFor_of_none (hevent key)]
    exact h.mem_started_iff key f (hfetches f hf)
  key_of_waiter := hwaiters

/-- One more caller leaves the keys of the others alone. -/
theorem getElem?_keys_append (h : Assorted past s) {f : OpenFetch} (hf : f ∈ s.fetches) {i : Nat}
    (hi : i ∈ s.cache.waiters f.token) (ls : List String) : (s.keys ++ ls)[i]? = some f.key := by
  have hlt := h.sound.waiter_lt f.token i hi
  rw [List.getElem?_append_left (by simpa using hlt)]
  exact h.key_of_waiter f hf i hi

theorem joined (h : Assorted past s) {key : String} {bypass : Bool} {t : Nat}
    (ht : s.cache.entries.get? key = some (.inFlight t)) (state : CallerState ε ρ) :
    Assorted (.called s.callers.length key bypass (.joined t) :: past)
      { s with
        cache := s.cache.join t s.callers.length
        callers := s.callers ++ [(key, state)] } := by
  refine h.quiet (h.sound.joined state ht)
    (fun _ => CacheEvent.started?_called_eq_none (Or.inr rfl)) rfl (fun _ hf => hf)
    fun f hf i hi => ?_
  rw [SingleFlight.waiters_join] at hi
  rw [keys_concat]
  split at hi
  · next htf =>
    subst htf
    rcases List.mem_append.mp hi with hi | hi
    · exact h.getElem?_keys_append hf hi _
    · have hjoined : f = ⟨f.token, key⟩ :=
        h.sound.fetch_eq hf (h.sound.inFlight_open key f.token ht) rfl
      rw [List.mem_singleton.mp hi, ← length_keys, congrArg OpenFetch.key hjoined]
      exact List.getElem?_concat_length
  · exact h.getElem?_keys_append hf hi _

theorem started (h : Assorted past s) (key : String) (bypass : Bool) (state : CallerState ε ρ) :
    Assorted (.called s.callers.length key bypass (.started s.cache.nextToken) :: past)
      (s.afterStart key state) where
  sound := h.sound.started key state
  started_lt k t ht := by
    rw [SingleFlight.nextToken_start]
    by_cases hk : key = k
    · subst hk
      rw [startedFor_of_started] at ht
      rcases List.mem_append.mp ht with ht | ht
      · exact Nat.lt_succ_of_lt (h.started_lt key t ht)
      · rw [List.mem_singleton.mp ht]
        exact Nat.lt_succ_self _
    · rw [startedFor_of_none (CacheEvent.started?_called_eq_none (Or.inl hk))] at ht
      exact Nat.lt_succ_of_lt (h.started_lt k t ht)
  mem_started_iff k f hf := by
    by_cases hk : key = k
    · subst hk
      rw [startedFor_of_started, List.mem_append, List.mem_singleton]
      rcases List.mem_append.mp hf with hf | hf
      · have hne : f.token ≠ s.cache.nextToken := Nat.ne_of_lt (h.sound.token_lt f hf)
        rw [h.mem_started_iff key f hf]
        simp [hne]
      · simp [List.mem_singleton.mp hf]
    · rw [startedFor_of_none (CacheEvent.started?_called_eq_none (Or.inl hk))]
      rcases List.mem_append.mp hf with hf | hf
      · exact h.mem_started_iff k f hf
      · rw [List.mem_singleton.mp hf]
        refine ⟨fun hmem => ?_, fun heq => absurd heq hk⟩
        exact absurd (h.started_lt k _ hmem) (Nat.lt_irrefl _)
  key_of_waiter f hf i hi := by
    rw [SingleFlight.waiters_start] at hi
    rw [keys_concat]
    rcases List.mem_append.mp hf with hf | hf
    · have hne : s.cache.nextToken ≠ f.token := Nat.ne_of_gt (h.sound.token_lt f hf)
      rw [if_neg hne] at hi
      exact h.getElem?_keys_append hf hi _
    · rw [List.mem_singleton.mp hf] at hi ⊢
      rw [if_pos rfl] at hi
      rw [List.mem_singleton.mp hi, ← length_keys]
      exact List.getElem?_concat_length

theorem ended (h : Assorted past s) {f : OpenFetch} (result : Except ε ρ) (hf : f ∈ s.fetches) :
    Assorted (.ended f result (s.cache.waiters f.token) :: past) (s.afterEnd f result) := by
  refine h.quiet (h.sound.ended result hf) (fun _ => rfl) rfl
    (fun _ hg => (List.mem_filter.mp hg).1) fun g hg i hi => ?_
  have hg := (List.mem_filter.mp hg).1
  rw [SingleFlight.waiters_settle] at hi
  rw [keys_afterEnd]
  split at hi
  · exact absurd hi List.not_mem_nil
  · exact h.key_of_waiter g hg i hi

theorem change (h : Assorted past s) (hc : Change s event s') : Assorted (event :: past) s' := by
  have hsound := h.sound.change hc
  cases hc with
  | hit hv =>
    refine h.quiet hsound (fun _ => CacheEvent.started?_called_eq_none (Or.inr rfl)) rfl
      (fun _ hf => hf) fun f hf i hi => ?_
    rw [keys_concat]
    exact h.getElem?_keys_append hf hi _
  | joined ht => exact h.joined ht _
  | started => exact h.started _ _ _
  | ended result hf => exact h.ended result hf
  | @left i =>
    refine h.quiet hsound (fun _ => rfl) rfl (fun _ hf => hf) fun f hf j hj => ?_
    rw [keys_drop]
    exact h.key_of_waiter f hf j hj
  | invalidated | cleared | nothing =>
    exact h.quiet hsound (fun _ => rfl) rfl (fun _ hf => hf) h.key_of_waiter

end Assorted

end CacheSession

end Paywall
