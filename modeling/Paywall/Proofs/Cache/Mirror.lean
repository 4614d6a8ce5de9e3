import Paywall.Proofs.Cache.Numbering

/-!
# Sessions that show the same of a key

A session mirrors another for a key if it shows the same of this key up to the numbers of fetches and
callers: the same entry, as many started fetches, and the same callers in the same states. Whatever
happens to fetches and callers of other keys leaves the mirror alone; what happens to those of the
key happens to their counterparts.
-/

namespace Paywall

variable {ε ρ : Type}

/-- An entry under another name for its fetch. -/
def CacheEntry.renumber (number : Nat → Nat) : CacheEntry ρ → CacheEntry ρ
  | .resolved result => .resolved result
  | .inFlight token => .inFlight (number token)

/-- What can be seen of a caller: not for which fetch it waits. -/
def CallerState.forgetToken : CallerState ε ρ → CallerState ε ρ
  | .waiting _ => .waiting 0
  | state => state

namespace CallerState

variable {x y : CallerState ε ρ}

theorem settle_congr (result : Except ε ρ) (h : x.forgetToken = y.forgetToken) :
    (x.settle result).forgetToken = (y.settle result).forgetToken := by
  cases x <;> cases y <;> simp_all [forgetToken, settle]

theorem leave_congr (h : x.forgetToken = y.forgetToken) :
    x.leave.forgetToken = y.leave.forgetToken := by
  cases x <;> cases y <;> simp_all [forgetToken, leave]

end CallerState

namespace CacheSession

/-! ## The callers for a key -/

section Callers

variable {key : String} {callers callers' : List (String × CallerState ε ρ)}

/-- A caller as it can be seen. -/
def seen (c : String × CallerState ε ρ) : String × CallerState ε ρ := (c.1, c.2.forgetToken)

/-- The callers for a key. -/
def callersFor (key : String) (callers : List (String × CallerState ε ρ)) :
    List (String × CallerState ε ρ) :=
  callers.filter fun c => c.1 == key

theorem callersFor_cons (c : String × CallerState ε ρ) :
    callersFor key (c :: callers) =
      if c.1 = key then c :: callersFor key callers else callersFor key callers := by
  by_cases hc : c.1 = key <;> simp [callersFor, hc]

theorem callersFor_concat (c : String × CallerState ε ρ) :
    callersFor key (callers ++ [c]) = callersFor key callers ++ if c.1 = key then [c] else [] := by
  by_cases hc : c.1 = key <;> simp [callersFor, hc]

theorem length_callersFor (key : String) (s : CacheSession ε ρ) :
    (callersFor key s.callers).length = callerNumber key s.keys s.callers.length := by
  unfold callersFor callerNumber keys
  rw [List.take_of_length_le (by simp), List.count, List.countP_map, List.countP_eq_length_filter]
  rfl

/-- Changes that keep the keys, each to be seen where the caller stands among those of its key. -/
theorem map_seen_mapIdx {f g : Nat → String × CallerState ε ρ → String × CallerState ε ρ}
    (h : callers'.map seen = (callersFor key callers).map seen) (hkey : ∀ i c, (f i c).1 = c.1)
    (hseen : ∀ i c c', callers[i]? = some c → c.1 = key → seen c' = seen c →
      seen (g (callerNumber key (callers.map (·.1)) i) c') = seen (f i c)) :
    (callers'.mapIdx g).map seen = (callersFor key (callers.mapIdx f)).map seen := by
  induction callers generalizing callers' f g with
  | nil =>
    rw [List.map_eq_nil_iff.mp h]
    rfl
  | cons c rest ih =>
    have hrest : ∀ i d d', rest[i]? = some d → d.1 = key → seen d' = seen d →
        seen (g (callerNumber key (rest.map (·.1)) i + if c.1 = key then 1 else 0) d') =
          seen (f (i + 1) d) := by
      intro i d d' hd hdkey hdd
      rw [← callerNumber_cons_succ]
      exact hseen (i + 1) d d' hd hdkey hdd
    rw [callersFor_cons] at h
    rw [List.mapIdx_cons, callersFor_cons, hkey]
    by_cases hc : c.1 = key
    · rw [if_pos hc] at h ⊢
      obtain ⟨c', rest', rfl, hhead, htail⟩ := List.map_eq_cons_iff.mp h
      have hfirst : seen (g 0 c') = seen (f 0 c) := hseen 0 c c' rfl hc hhead
      simp only [if_pos hc] at hrest
      rw [List.mapIdx_cons, List.map_cons, List.map_cons, hfirst,
        ih htail (fun i => hkey (i + 1)) hrest]
    · rw [if_neg hc] at h ⊢
      simp only [if_neg hc, Nat.add_zero] at hrest
      exact ih h (fun i => hkey (i + 1)) hrest

/-- What happens to callers for the key is seen in the same way under their numbers. -/
theorem map_seen_alter (h : callers'.map seen = (callersFor key callers).map seen)
    {numbers : List Nat} {change : CallerState ε ρ → CallerState ε ρ}
    (hchange : ∀ x y : CallerState ε ρ, x.forgetToken = y.forgetToken →
      (change x).forgetToken = (change y).forgetToken)
    (hnumbers : ∀ i ∈ numbers, (callers.map (·.1))[i]? = some key) :
    (alter callers' (numbers.map (callerNumber key (callers.map (·.1)))) change).map seen =
      (callersFor key (alter callers numbers change)).map seen := by
  refine map_seen_mapIdx h (fun i c => by split <;> rfl) fun i c c' hi hc hseen => ?_
  have hikey : (callers.map (·.1))[i]? = some key := by simp [hi, hc]
  have hmem : callerNumber key (callers.map (·.1)) i ∈
      numbers.map (callerNumber key (callers.map (·.1))) ↔ i ∈ numbers := by
    refine ⟨fun hmem => ?_, List.mem_map_of_mem⟩
    obtain ⟨j, hj, heq⟩ := List.mem_map.mp hmem
    exact (callerNumber_inj (hnumbers j hj) hikey).mp heq ▸ hj
  by_cases hi : i ∈ numbers
  · rw [if_pos hi, if_pos (hmem.mpr hi)]
    exact Prod.ext (congrArg Prod.fst hseen :) (hchange _ _ (congrArg Prod.snd hseen))
  · rw [if_neg hi, if_neg fun h => hi (hmem.mp h), hseen]

/-- What happens to callers for other keys is not seen. -/
theorem map_seen_alter_of_ne {numbers : List Nat} {change : CallerState ε ρ → CallerState ε ρ}
    (hnumbers : ∀ i ∈ numbers, (callers.map (·.1))[i]? ≠ some key) :
    (callersFor key (alter callers numbers change)).map seen =
      (callersFor key callers).map seen := by
  have hsame : ((callersFor key callers).mapIdx fun _ c => c).map seen =
      (callersFor key (alter callers numbers change)).map seen := by
    refine map_seen_mapIdx rfl (fun i c => by split <;> rfl) fun i c c' hi hc hseen => ?_
    rw [if_neg fun hmem => hnumbers i hmem (by simp [hi, hc]), hseen]
  have hkept : ((callersFor key callers).mapIdx fun _ c => c) = callersFor key callers :=
    List.ext_getElem? fun i => by simp
  rw [← hsame, hkept]

end Callers

/-! ## Mirrors -/

/-- The session `s'` shows of a key what `s` shows, with the fetches for the key numbered as in the
list of their tokens, and the callers for the key as among themselves. -/
structure Mirrors (key : String) (tokens : List Nat) (s s' : CacheSession ε ρ) : Prop where
  nextToken : s'.cache.nextToken = tokens.length
  entry : s'.cache.entries.get? key =
    (s.cache.entries.get? key).map (.renumber fun t => tokens.idxOf t)
  fetches : ∀ f ∈ s.fetches, f.key = key → ⟨tokens.idxOf f.token, key⟩ ∈ s'.fetches
  waiters : ∀ t ∈ tokens, s'.cache.waiters (tokens.idxOf t) =
    (s.cache.waiters t).map (callerNumber key s.keys)
  callers : s'.callers.map seen = (callersFor key s.callers).map seen

namespace Mirrors

variable {key : String} {past : List (CacheEvent ε ρ)} {tokens : List Nat}
  {s s' : CacheSession ε ρ}

theorem start (key : String) :
    Mirrors key [] (CacheSession.start : CacheSession ε ρ) CacheSession.start where
  nextToken := rfl
  entry := rfl
  fetches _ hf := absurd hf List.not_mem_nil
  waiters _ ht := absurd ht List.not_mem_nil
  callers := rfl

theorem length_callers (h : Mirrors key tokens s s') :
    s'.callers.length = callerNumber key s.keys s.callers.length := by
  have hlength := congrArg List.length h.callers
  simpa [length_callersFor] using hlength

/-! ### Calls -/

/-- One more caller leaves the numbers of those who wait alone, even if it waits itself. -/
theorem map_callerNumber_concat {c : String × CallerState ε ρ}
    (hs : Sound { s with callers := s.callers ++ [c] }) (t : Nat) :
    (s.cache.waiters t).map (callerNumber key (s.keys ++ [c.1])) =
      (s.cache.waiters t).map (callerNumber key s.keys) := by
  refine List.map_congr_left fun i hi => callerNumber_append ?_ _
  have hlt := hs.waiter_lt t i hi
  simp only [List.length_append, List.length_singleton] at hlt
  rw [length_keys]
  omega

/-- One more caller for the key. -/
theorem called (h : Mirrors key tokens s s') {x y : CallerState ε ρ}
    (hs : Sound { s with callers := s.callers ++ [(key, x)] })
    (hxy : x.forgetToken = y.forgetToken) :
    Mirrors key tokens { s with callers := s.callers ++ [(key, x)] }
      { s' with callers := s'.callers ++ [(key, y)] } where
  nextToken := h.nextToken
  entry := h.entry
  fetches := h.fetches
  waiters t ht := by
    rw [keys_concat, map_callerNumber_concat hs]
    exact h.waiters t ht
  callers := by
    have hseen : seen (key, y) = seen (key, x) := Prod.ext rfl hxy.symm
    simp only [callersFor_concat, if_true, List.map_append, h.callers, List.map_singleton, hseen]

/-- One more caller for another key. -/
theorem called_other (h : Mirrors key tokens s s') {k : String}
    {x : CallerState ε ρ} (hs : Sound { s with callers := s.callers ++ [(k, x)] }) (hk : k ≠ key) :
    Mirrors key tokens { s with callers := s.callers ++ [(k, x)] } s' where
  nextToken := h.nextToken
  entry := h.entry
  fetches := h.fetches
  waiters t ht := by
    rw [keys_concat, map_callerNumber_concat hs]
    exact h.waiters t ht
  callers := by
    simp only [callersFor_concat, if_neg hk, List.append_nil, h.callers]

/-- The caller that is about to call joins a fetch for the key. -/
theorem joined (ha : Assorted past s) (h : Mirrors key (startedFor key past) s s') {t : Nat}
    (ht : s.cache.entries.get? key = some (.inFlight t)) :
    Mirrors key (startedFor key past) { s with cache := s.cache.join t s.callers.length }
      { s' with
        cache := s'.cache.join ((startedFor key past).idxOf t) s'.callers.length } where
  nextToken := h.nextToken
  entry := h.entry
  fetches := h.fetches
  waiters u hu := by
    have hmem := ha.mem_started_of_inFlight ht
    rw [SingleFlight.waiters_join, SingleFlight.waiters_join]
    by_cases htu : t = u
    · subst htu
      rw [if_pos rfl, if_pos rfl, h.waiters t hmem, h.length_callers, List.map_append]
      rfl
    · rw [if_neg htu, if_neg fun heq => htu ((List.idxOf_inj hmem).mp heq), h.waiters u hu]
      rfl
  callers := h.callers

/-- The caller that is about to call starts a fetch for the key. -/
theorem started (ha : Assorted past s) (h : Mirrors key (startedFor key past) s s') :
    Mirrors key (startedFor key past ++ [s.cache.nextToken])
      { s with
        cache := s.cache.start key s.callers.length
        fetches := s.fetches ++ [⟨s.cache.nextToken, key⟩] }
      { s' with
        cache := s'.cache.start key s'.callers.length
        fetches := s'.fetches ++ [⟨s'.cache.nextToken, key⟩] } := by
  have hlt := ha.started_lt key
  have hfetch : ∀ f ∈ s.fetches, f.key = key → f.token ∈ startedFor key past :=
    fun f hf => (ha.mem_started_iff key f hf).mpr
  generalize startedFor key past = tokens at h hlt hfetch
  have hold : ∀ t ∈ tokens, (tokens ++ [s.cache.nextToken]).idxOf t = tokens.idxOf t :=
    fun t ht => List.idxOf_append_of_mem ht
  have hnew : (tokens ++ [s.cache.nextToken]).idxOf s.cache.nextToken = s'.cache.nextToken := by
    rw [List.idxOf_append_of_notMem fun hmem => Nat.lt_irrefl _ (hlt _ hmem),
      List.idxOf_cons_self, h.nextToken]
    rfl
  refine ⟨?_, ?_, fun f hf hkey => ?_, fun t ht => ?_, h.callers⟩
  · rw [SingleFlight.nextToken_start, h.nextToken, List.length_append]
    rfl
  · rw [SingleFlight.get?_entries_start, SingleFlight.get?_entries_start, if_pos rfl, if_pos rfl,
      Option.map_some, CacheEntry.renumber, hnew]
  · rcases List.mem_append.mp hf with hf | hf
    · rw [hold f.token (hfetch f hf hkey)]
      exact List.mem_append_left _ (h.fetches f hf hkey)
    · rw [List.mem_singleton.mp hf, hnew]
      exact List.mem_append_right _ List.mem_cons_self
  · rw [SingleFlight.waiters_start, SingleFlight.waiters_start]
    rcases List.mem_append.mp ht with ht | ht
    · have hne : s.cache.nextToken ≠ t := Nat.ne_of_gt (hlt t ht)
      have hne' : s'.cache.nextToken ≠ tokens.idxOf t := by
        rw [h.nextToken]
        exact Nat.ne_of_gt (List.idxOf_lt_length_of_mem ht)
      rw [hold t ht, if_neg hne, if_neg hne', h.waiters t ht]
      rfl
    · rw [List.mem_singleton.mp ht, hnew, if_pos rfl, if_pos rfl, h.length_callers]
      rfl

/-- What happens to the fetches for other keys. -/
theorem other (h : Mirrors key tokens s s') {cache : SingleFlight ρ Nat}
    {fetches : List OpenFetch} (hentry : cache.entries.get? key = s.cache.entries.get? key)
    (hwaiters : ∀ t ∈ tokens, cache.waiters t = s.cache.waiters t)
    (hfetches : ∀ f ∈ fetches, f.key = key → f ∈ s.fetches) :
    Mirrors key tokens { s with cache, fetches } s' where
  nextToken := h.nextToken
  entry := by rw [h.entry, hentry]
  fetches f hf hkey := h.fetches f (hfetches f hf hkey) hkey
  waiters t ht := by
    rw [h.waiters t ht, hwaiters t ht]
    rfl
  callers := h.callers

/-- The caller that is about to call joins a fetch for another key. -/
theorem joined_other (ha : Assorted past s) (h : Mirrors key (startedFor key past) s s')
    {k : String} (hk : k ≠ key) {t : Nat} (ht : s.cache.entries.get? k = some (.inFlight t)) :
    Mirrors key (startedFor key past) { s with cache := s.cache.join t s.callers.length } s' := by
  refine h.other rfl (fun u hu => ?_) fun _ hf _ => hf
  have hne : t ≠ u := ha.ne_of_mem_started (ha.sound.inFlight_open k t ht) hk hu
  rw [SingleFlight.waiters_join, if_neg hne]

/-- The caller that is about to call starts a fetch for another key. -/
theorem started_other (ha : Assorted past s) (h : Mirrors key (startedFor key past) s s')
    {k : String} (hk : k ≠ key) :
    Mirrors key (startedFor key past)
      { s with
        cache := s.cache.start k s.callers.length
        fetches := s.fetches ++ [⟨s.cache.nextToken, k⟩] } s' := by
  refine h.other ?_ (fun u hu => ?_) fun f hf hfkey => ?_
  · rw [SingleFlight.get?_entries_start, if_neg hk]
  · rw [SingleFlight.waiters_start, if_neg (Nat.ne_of_gt (ha.started_lt key u hu))]
  · rcases List.mem_append.mp hf with hf | hf
    · exact hf
    · rw [List.mem_singleton.mp hf] at hfkey
      exact absurd hfkey hk

/-! ### The other steps -/

/-- A fetch for the key owns the entry in both sessions or in neither. -/
theorem owns_eq (h : Mirrors key tokens s s') {t : Nat} (ht : t ∈ tokens) :
    s'.cache.owns key (tokens.idxOf t) = s.cache.owns key t := by
  rw [Bool.eq_iff_iff, SingleFlight.owns_iff, SingleFlight.owns_iff, h.entry]
  rcases s.cache.entries.get? key with _ | (v | u)
  · simp
  · simp [CacheEntry.renumber]
  · have hinj : tokens.idxOf t = tokens.idxOf u ↔ t = u := List.idxOf_inj ht
    simp only [Option.map_some, CacheEntry.renumber, Option.some.injEq, CacheEntry.inFlight.injEq]
    rw [eq_comm, hinj, eq_comm]

/-- The end of a fetch for the key. -/
theorem ended (ha : Assorted past s) (h : Mirrors key (startedFor key past) s s') {f : OpenFetch}
    (hf : f ∈ s.fetches) (hkey : f.key = key) (result : Except ε ρ) :
    Mirrors key (startedFor key past) (s.afterEnd f result)
      (s'.afterEnd ⟨(startedFor key past).idxOf f.token, key⟩ result) := by
  have hmem : f.token ∈ startedFor key past := (ha.mem_started_iff key f hf).mpr hkey
  have hinj : ∀ {u}, (startedFor key past).idxOf f.token = (startedFor key past).idxOf u ↔
      f.token = u := List.idxOf_inj hmem
  refine ⟨h.nextToken, ?_, fun g hg hgkey => ?_, fun t ht => ?_, ?_⟩
  · rw [SingleFlight.get?_entries_settle, SingleFlight.get?_entries_settle, h.owns_eq hmem, hkey]
    by_cases hown : s.cache.owns key f.token
    · rw [if_pos ⟨rfl, hown⟩, if_pos ⟨rfl, hown⟩]
      cases result <;> rfl
    · rw [if_neg fun hboth => hown hboth.2, if_neg fun hboth => hown hboth.2, h.entry]
  · obtain ⟨hg, hne⟩ := List.mem_filter.mp hg
    refine List.mem_filter.mpr ⟨h.fetches g hg hgkey, ?_⟩
    simp only [ne_eq, decide_eq_true_eq] at hne ⊢
    exact fun heq => hne (hinj.mp heq.symm).symm
  · rw [SingleFlight.waiters_settle, SingleFlight.waiters_settle]
    by_cases htoken : f.token = t
    · rw [if_pos (hinj.mpr htoken), if_pos htoken]
      rfl
    · rw [if_neg fun heq => htoken (hinj.mp heq), if_neg htoken, h.waiters t ht, keys_afterEnd]
  · have hkeys : ∀ i ∈ s.cache.waiters f.token, s.keys[i]? = some key := fun i hi =>
      hkey ▸ ha.key_of_waiter f hf i hi
    rw [callers_afterEnd, callers_afterEnd, h.waiters f.token hmem]
    exact map_seen_alter h.callers (fun _ _ => CallerState.settle_congr result) hkeys

/-- The end of a fetch for another key. -/
theorem ended_other (ha : Assorted past s) (h : Mirrors key (startedFor key past) s s')
    {f : OpenFetch} (hf : f ∈ s.fetches) (hkey : f.key ≠ key) (result : Except ε ρ) :
    Mirrors key (startedFor key past) (s.afterEnd f result) s' := by
  have hne : ∀ t ∈ startedFor key past, f.token ≠ t := fun t ht => ha.ne_of_mem_started hf hkey ht
  have hcallers : (callersFor key (s.afterEnd f result).callers).map seen =
      (callersFor key s.callers).map seen := by
    rw [callers_afterEnd]
    refine map_seen_alter_of_ne fun i hi hikey => hkey ?_
    exact Option.some.inj ((ha.key_of_waiter f hf i hi).symm.trans hikey)
  refine ⟨h.nextToken, ?_, fun g hg hgkey => ?_, fun t ht => ?_, h.callers.trans hcallers.symm⟩
  · rw [SingleFlight.get?_entries_settle, if_neg fun hboth => hkey hboth.1, h.entry]
  · exact h.fetches g (List.mem_filter.mp hg).1 hgkey
  · rw [SingleFlight.waiters_settle, if_neg (hne t ht), keys_afterEnd, h.waiters t ht]

/-- A caller for the key goes away. -/
theorem left (h : Mirrors key tokens s s') {i : Nat}
    (hi : s.keys[i]? = some key) :
    Mirrors key tokens (s.drop i) (s'.drop (callerNumber key s.keys i)) where
  nextToken := h.nextToken
  entry := h.entry
  fetches := h.fetches
  waiters t ht := by
    rw [keys_drop]
    exact h.waiters t ht
  callers := by
    rw [callers_drop, callers_drop, ← List.map_singleton]
    refine map_seen_alter h.callers (fun _ _ => CallerState.leave_congr) fun j hj => ?_
    rwa [List.mem_singleton.mp hj]

/-- A caller for another key goes away. -/
theorem left_other (h : Mirrors key tokens s s') {i : Nat}
    (hi : s.keys[i]? ≠ some key) : Mirrors key tokens (s.drop i) s' where
  nextToken := h.nextToken
  entry := h.entry
  fetches := h.fetches
  waiters t ht := by
    rw [keys_drop]
    exact h.waiters t ht
  callers := by
    rw [callers_drop, h.callers]
    refine (map_seen_alter_of_ne fun j hj => ?_).symm
    rwa [List.mem_singleton.mp hj]

/-- The key is forgotten in both sessions. -/
theorem forgotten (h : Mirrors key tokens s s') {es es' : Table (CacheEntry ρ)}
    (hes : es.get? key = none) (hes' : es'.get? key = none) :
    Mirrors key tokens { s with cache := { s.cache with entries := es } }
      { s' with cache := { s'.cache with entries := es' } } where
  nextToken := h.nextToken
  entry := by rw [hes, hes', Option.map_none]
  fetches := h.fetches
  waiters := h.waiters
  callers := h.callers

end Mirrors

end CacheSession

end Paywall
