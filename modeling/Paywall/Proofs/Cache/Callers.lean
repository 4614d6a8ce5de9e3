import Mathlib.Logic.Basic
import Paywall.Proofs.Cache.Soundness

/-!
# What becomes of a caller

A caller either finds a result at once, or it waits for the fetch that it joined or started, until
that fetch ends. `Standing` says this of one caller at one moment. It holds right after the call and
survives every step, whatever is forgotten, replaced or fetched anew meanwhile, so no caller is
lost, answered twice or answered from another fetch.
-/

namespace Paywall

/-- The token of the fetch that a call joined or started. -/
def Resolution.token? {ρ : Type} : Resolution ρ → Option Nat
  | .hit _ => none
  | .joined token | .started token => some token

/-- The results that are sent to a caller in an event, each as often as it is sent. -/
def CacheEvent.sent {ε ρ : Type} (i : Nat) : CacheEvent ε ρ → List (Except ε ρ)
  | .called caller _ _ (.hit v) => if caller = i then [.ok v] else []
  | .ended _ result numbers => .replicate (numbers.count i) result
  | _ => []

namespace CacheSession

variable {ε ρ : Type}

/-- All results that were sent to a caller, the latest first. -/
def received (i : Nat) (past : List (CacheEvent ε ρ)) : List (Except ε ρ) :=
  past.flatMap fun event => event.sent i

/-- The caller `i` is listed once, among those who wait for the open fetch `f`, and nowhere else. -/
structure WaitsFor (s : CacheSession ε ρ) (i : Nat) (f : OpenFetch) : Prop where
  is_open : f ∈ s.fetches
  listed : ∀ t, (s.cache.waiters t).count i = if t = f.token then 1 else 0

/-- The fetch of a call has ended with `result`, and with no other one. -/
structure EndedWith (past : List (CacheEvent ε ρ)) (f : OpenFetch) (result : Except ε ρ) :
    Prop where
  once : ∃ numbers, .ended f result numbers ∈ past
  only : ∀ r numbers, .ended f r numbers ∈ past → r = result

/-- The situation of the caller `i`, which called for `key` with the outcome `resolution`. -/
inductive Standing (past : List (CacheEvent ε ρ)) (s : CacheSession ε ρ) (i : Nat) (key : String)
    (resolution : Resolution ρ) (state : CallerState ε ρ) : Prop where
  /-- It waits for its fetch, and nothing has been sent to it. -/
  | pending (f : OpenFetch) (hfetch : resolution.token? = some f.token) (hkey : f.key = key)
      (hwaits : WaitsFor s i f) (hreceived : received i past = [])
      (hstate : state = .waiting f.token ∨ state = .dropped ∧ .left i ∈ past)
  /-- It waits for nothing, and one result has been sent to it: what the cache held when it called,
  or what its fetch ended with. -/
  | answered (result : Except ε ρ) (hfree : ∀ t, i ∉ s.cache.waiters t)
      (hreceived : received i past = [result])
      (horigin : (∃ v, resolution = .hit v ∧ result = .ok v) ∨
        ∃ f : OpenFetch, resolution.token? = some f.token ∧ f.key = key ∧ EndedWith past f result)
      (hstate : state = .answered result ∨ state = .dropped ∧ .left i ∈ past)

/-- The history of a session agrees with the session: a fetch that has ended is not open and its
token is used up, and nothing was sent to callers that have not called. -/
structure Accounted (past : List (CacheEvent ε ρ)) (s : CacheSession ε ρ) : Prop where
  sound : Sound s
  closed : ∀ f result numbers, .ended f result numbers ∈ past →
    f.token < s.cache.nextToken ∧ ∀ g ∈ s.fetches, g.token ≠ f.token
  unsent : ∀ i, s.callers.length ≤ i → received i past = []

variable {past : List (CacheEvent ε ρ)} {s s' : CacheSession ε ρ} {event : CacheEvent ε ρ}

@[simp] theorem received_cons (i : Nat) (event : CacheEvent ε ρ) (past : List (CacheEvent ε ρ)) :
    received i (event :: past) = event.sent i ++ received i past := rfl

theorem not_mem_waiters_iff {i : Nat} :
    (∀ t, i ∉ s.cache.waiters t) ↔ ∀ t, (s.cache.waiters t).count i = 0 :=
  forall_congr' fun _ => List.count_eq_zero.symm

theorem EndedWith.cons {f : OpenFetch} {result : Except ε ρ} (h : EndedWith past f result)
    (hne : ∀ r numbers, event ≠ .ended f r numbers) : EndedWith (event :: past) f result := by
  obtain ⟨numbers, hmem⟩ := h.once
  refine ⟨⟨numbers, List.mem_cons_of_mem _ hmem⟩, ?_⟩
  intro r ns hm
  rcases List.mem_cons.mp hm with heq | hm
  · exact absurd heq.symm (hne r ns)
  · exact h.only r ns hm

/-! ## The history agrees with the session -/

theorem Accounted.start : Accounted [] (start : CacheSession ε ρ) where
  sound := Sound.start
  closed _ _ _ hm := absurd hm List.not_mem_nil
  unsent _ _ := rfl

/-- A step that neither starts nor ends a fetch. -/
theorem Accounted.quiet (h : Accounted past s) (hsound : Sound s')
    (hended : ∀ f r numbers, event ≠ .ended f r numbers)
    (htoken : s'.cache.nextToken = s.cache.nextToken) (hfetches : s'.fetches = s.fetches)
    (hcallers : s.callers.length ≤ s'.callers.length)
    (hsent : ∀ i, s'.callers.length ≤ i → event.sent i = []) : Accounted (event :: past) s' where
  sound := hsound
  closed f result numbers hm := by
    rcases List.mem_cons.mp hm with heq | hm
    · exact absurd heq.symm (hended f result numbers)
    · rw [htoken, hfetches]
      exact h.closed f result numbers hm
  unsent i hi := by
    rw [received_cons, hsent i hi, h.unsent i (by omega), List.append_nil]

theorem Accounted.started (h : Accounted past s) (key : String) (bypass : Bool)
    (state : CallerState ε ρ) :
    Accounted (.called s.callers.length key bypass (.started s.cache.nextToken) :: past)
      (s.afterStart key state) where
  sound := h.sound.started key state
  closed f result numbers hm := by
    obtain ⟨hlt, hclosed⟩ := h.closed f result numbers (by simpa using hm)
    rw [SingleFlight.nextToken_start]
    refine ⟨by omega, fun g hg => ?_⟩
    rcases List.mem_append.mp hg with hg | hg
    · exact hclosed g hg
    · rw [List.mem_singleton.mp hg]
      exact Nat.ne_of_gt hlt
  unsent i hi := by
    simp only [List.length_append, List.length_singleton] at hi
    rw [received_cons, h.unsent i (by omega)]
    rfl

theorem Accounted.ended (h : Accounted past s) {f : OpenFetch} (result : Except ε ρ)
    (hf : f ∈ s.fetches) :
    Accounted (.ended f result (s.cache.waiters f.token) :: past)
      (s.afterEnd f result) where
  sound := h.sound.ended result hf
  closed g r numbers hm := by
    rcases List.mem_cons.mp hm with heq | hm
    · obtain ⟨rfl, -, -⟩ : g = f ∧ r = result ∧ numbers = s.cache.waiters f.token := by
        simpa using heq
      exact ⟨h.sound.token_lt g hf, fun u hu => by simpa using (List.mem_filter.mp hu).2⟩
    · obtain ⟨hlt, hclosed⟩ := h.closed g r numbers hm
      exact ⟨hlt, fun u hu => hclosed u (List.mem_filter.mp hu).1⟩
  unsent i hi := by
    rw [length_answer] at hi
    have hcount : (s.cache.waiters f.token).count i = 0 :=
      List.count_eq_zero.mpr fun hmem => absurd (h.sound.waiter_lt f.token i hmem) (by omega)
    rw [received_cons, CacheEvent.sent, hcount, h.unsent i hi]
    rfl

theorem Accounted.change (h : Accounted past s) (hc : Change s event s') :
    Accounted (event :: past) s' := by
  have hsound := h.sound.change hc
  cases hc with
  | hit hv =>
    refine h.quiet hsound (by simp) rfl rfl (by simp) fun i hi => ?_
    have hne : s.callers.length ≠ i := by
      simp only [List.length_append, List.length_singleton] at hi
      omega
    simp [CacheEvent.sent, hne]
  | joined ht => exact h.quiet hsound (by simp) rfl rfl (by simp) fun _ _ => rfl
  | started => exact h.started _ _ _
  | ended result hf => exact h.ended result hf
  | left => exact h.quiet hsound (by simp) rfl rfl (by simp) fun _ _ => rfl
  | invalidated | cleared | nothing =>
    exact h.quiet hsound (by simp) rfl rfl (Nat.le_refl _) fun _ _ => rfl

theorem accounted_run (steps : List (CacheStep ε ρ)) : Accounted (events steps) (start.run steps) :=
  history_run_induction (fun _ s e h => h.change (change_step s e)) steps [] start Accounted.start

/-! ## A caller keeps its standing -/

section Standing

variable {i : Nat} {key : String} {resolution : Resolution ρ} {state : CallerState ε ρ}

/-- A caller that has gone away stays away. -/
theorem dropped_cons (event : CacheEvent ε ρ) (h : state = .dropped ∧ .left i ∈ past) :
    state = .dropped ∧ .left i ∈ event :: past :=
  ⟨h.1, List.mem_cons_of_mem _ h.2⟩

/-- Steps that send nothing to a caller, end no fetch and leave its place in the lists alone. -/
theorem Standing.frame (h : Standing past s i key resolution state)
    (hended : ∀ f r numbers, event ≠ .ended f r numbers) (hsent : event.sent i = [])
    (hfetches : ∀ f ∈ s.fetches, f ∈ s'.fetches)
    (hcount : ∀ t, (s'.cache.waiters t).count i = (s.cache.waiters t).count i) :
    Standing (event :: past) s' i key resolution state := by
  cases h with
  | pending f hfetch hkey hwaits hreceived hstate =>
    refine .pending f hfetch hkey ⟨hfetches f hwaits.is_open, fun t => ?_⟩ ?_ ?_
    · rw [hcount, hwaits.listed]
    · rw [received_cons, hsent, hreceived, List.append_nil]
    · exact hstate.imp_right (dropped_cons _)
  | answered result hfree hreceived horigin hstate =>
    refine .answered result ?_ ?_ ?_ ?_
    · rw [not_mem_waiters_iff] at hfree ⊢
      exact fun t => (hcount t).trans (hfree t)
    · rw [received_cons, hsent, hreceived, List.nil_append]
    · exact horigin.imp_right fun ⟨f, hf, hkey, hend⟩ => ⟨f, hf, hkey, hend.cons (hended f)⟩
    · exact hstate.imp_right (dropped_cons _)

/-- A fetch ends: the caller is answered if it waited for this fetch, and is left alone if not. -/
theorem Standing.ended (h : Standing past s i key resolution state) (ha : Accounted past s)
    (hi : s.callers[i]? = some (key, state)) {g : OpenFetch} (r : Except ε ρ) (hg : g ∈ s.fetches) :
    ∃ state', (answer s.callers (s.cache.waiters g.token) r)[i]? = some (key, state') ∧
      Standing (.ended g r (s.cache.waiters g.token) :: past)
        (s.afterEnd g r) i key resolution state' := by
  cases h with
  | pending f hfetch hkey hwaits hreceived hstate =>
    by_cases hfg : f.token = g.token
    · obtain rfl : f = g := ha.sound.fetch_eq hwaits.is_open hg hfg
      have hcount : (s.cache.waiters f.token).count i = 1 := by rw [hwaits.listed, if_pos rfl]
      have hmem : i ∈ s.cache.waiters f.token := List.count_pos_iff.mp (by omega)
      have hend : EndedWith (.ended f r (s.cache.waiters f.token) :: past) f r := by
        refine ⟨⟨_, List.mem_cons_self⟩, fun r' numbers hm => ?_⟩
        rcases List.mem_cons.mp hm with heq | hm
        · simp only [CacheEvent.ended.injEq] at heq
          exact heq.2.1
        · exact absurd rfl ((ha.closed f r' numbers hm).2 f hg)
      have hfree : ∀ t, i ∉ (s.cache.settle f.key f.token r).2.waiters t := by
        intro t
        rw [SingleFlight.waiters_settle]
        split
        · exact List.not_mem_nil
        · next hne =>
          rw [← List.count_eq_zero, hwaits.listed, if_neg fun ht => hne ht.symm]
      have hsent : received i (.ended f r (s.cache.waiters f.token) :: past) = [r] := by
        rw [received_cons, hreceived, CacheEvent.sent, hcount]
        rfl
      rcases hstate with rfl | ⟨rfl, hleft⟩
      · exact ⟨_, getElem?_answer_waiting hi hmem,
          .answered r hfree hsent (Or.inr ⟨f, hfetch, hkey, hend⟩) (Or.inl rfl)⟩
      · exact ⟨_, getElem?_answer_dropped hi,
          .answered r hfree hsent (Or.inr ⟨f, hfetch, hkey, hend⟩)
            (Or.inr ⟨rfl, List.mem_cons_of_mem _ hleft⟩)⟩
    · have hcount : (s.cache.waiters g.token).count i = 0 := by
        rw [hwaits.listed, if_neg fun ht => hfg ht.symm]
      refine ⟨state, ?_, .pending f hfetch hkey ⟨?_, fun t => ?_⟩ ?_ ?_⟩
      · rw [getElem?_answer_of_not_mem (List.count_eq_zero.mp hcount), hi]
      · exact List.mem_filter.mpr ⟨hwaits.is_open, by simpa using hfg⟩
      · rw [SingleFlight.waiters_settle]
        split
        · next ht => rw [if_neg fun h => hfg (h.symm.trans ht.symm)]; rfl
        · exact hwaits.listed t
      · rw [received_cons, CacheEvent.sent, hcount, hreceived]
        rfl
      · exact hstate.imp_right (dropped_cons _)
  | answered result hfree hreceived horigin hstate =>
    have hcount := not_mem_waiters_iff.mp hfree
    refine ⟨state, ?_, .answered result (fun t => ?_) ?_ ?_ ?_⟩
    · rw [getElem?_answer_of_not_mem (hfree g.token), hi]
    · rw [SingleFlight.waiters_settle]
      split
      · exact List.not_mem_nil
      · exact hfree t
    · rw [received_cons, CacheEvent.sent, hcount, hreceived]
      rfl
    · refine horigin.imp_right fun ⟨f, hf, hkey, hend⟩ => ⟨f, hf, hkey, ?_⟩
      obtain ⟨⟨numbers, hmem⟩, honly⟩ := hend
      refine ⟨⟨numbers, List.mem_cons_of_mem _ hmem⟩, fun r' ns hm => ?_⟩
      rcases List.mem_cons.mp hm with heq | hm
      · simp only [CacheEvent.ended.injEq] at heq
        have hne := (ha.closed f result numbers hmem).2 g hg
        exact absurd (congrArg OpenFetch.token heq.1.symm) hne
      · exact honly r' ns hm
    · exact hstate.imp_right (dropped_cons _)

/-- The caller itself goes away: it was waiting, and still is in the list of its fetch. -/
theorem Standing.left (h : Standing past s i key resolution state) {t : Nat}
    (hwaiting : state = .waiting t) :
    Standing (.left i :: past) (s.drop i) i key resolution .dropped := by
  subst hwaiting
  cases h with
  | pending f hfetch hkey hwaits hreceived _ =>
    exact .pending f hfetch hkey ⟨hwaits.is_open, hwaits.listed⟩ hreceived
      (Or.inr ⟨rfl, List.mem_cons_self⟩)
  | answered result _ _ _ hstate =>
    rcases hstate with hs | ⟨hs, -⟩
    · exact absurd hs (by simp)
    · exact absurd hs (by simp)

theorem Standing.change (h : Standing past s i key resolution state) (ha : Accounted past s)
    (hi : s.callers[i]? = some (key, state)) (hc : Change s event s') :
    ∃ state', s'.callers[i]? = some (key, state') ∧
      Standing (event :: past) s' i key resolution state' := by
  have hlt : i < s.callers.length := (List.getElem?_eq_some_iff.mp hi).1
  have hne : s.callers.length ≠ i := Nat.ne_of_gt hlt
  have hkeep : ∀ c, (s.callers ++ [c])[i]? = some (key, state) := fun c => by
    rw [List.getElem?_append_left hlt, hi]
  cases hc with
  | hit hv =>
    exact ⟨state, hkeep _, h.frame (by simp) (if_neg hne) (fun _ hf => hf) fun _ => rfl⟩
  | @joined k bypass t ht =>
    refine ⟨state, hkeep _, h.frame (by simp) rfl (fun _ hf => hf) fun u => ?_⟩
    rw [SingleFlight.waiters_join]
    split
    · next htu =>
      rw [List.count_append, htu, List.count_singleton, if_neg (by simpa using hne)]
      rfl
    · rfl
  | @started k =>
    have hfetches : ∀ f ∈ s.fetches, f ∈ s.fetches ++ [⟨s.cache.nextToken, k⟩] :=
      fun _ hf => List.mem_append_left _ hf
    refine ⟨state, hkeep _, h.frame (by simp) rfl hfetches fun u => ?_⟩
    rw [SingleFlight.waiters_start]
    split
    · next hu =>
      rw [← hu, ha.sound.waiters_nextToken, List.count_singleton, if_neg (by simpa using hne)]
      rfl
    · rfl
  | ended result hf => exact h.ended ha hi result hf
  | @left j k t hj =>
    by_cases hij : i = j
    · subst hij
      obtain ⟨rfl, hstate⟩ : key = k ∧ state = .waiting t := by simpa using hi.symm.trans hj
      exact ⟨.dropped, getElem?_drop_waiting hj, h.left hstate⟩
    · exact ⟨state, (getElem?_drop_ne s hij).trans hi,
        h.frame (by simp) rfl (fun _ hf => hf) fun _ => rfl⟩
  | invalidated | cleared | nothing =>
    exact ⟨state, hi, h.frame (by simp) rfl (fun _ hf => hf) fun _ => rfl⟩

/-- Right after the call: the caller has its answer, or it is listed for the fetch that it joined or
started. -/
theorem standing_call (ha : Accounted past s) (key : String) (bypass : Bool)
    {resolution : Resolution ρ}
    (hc : Change s (.called s.callers.length key bypass resolution) s') :
    ∃ state, s'.callers[s.callers.length]? = some (key, state) ∧
      Standing (.called s.callers.length key bypass resolution :: past) s' s.callers.length key
        resolution state := by
  have hreceived := ha.unsent s.callers.length (Nat.le_refl _)
  have hunlisted : ∀ t, (s.cache.waiters t).count s.callers.length = 0 := fun t =>
    List.count_eq_zero.mpr fun hmem => absurd (ha.sound.waiter_lt t _ hmem) (by omega)
  cases hc with
  | @hit _ v hv =>
    refine ⟨_, List.getElem?_concat_length,
      .answered (.ok v) ?_ ?_ (Or.inl ⟨v, rfl, rfl⟩) (Or.inl rfl)⟩
    · exact not_mem_waiters_iff.mpr hunlisted
    · rw [received_cons, hreceived]
      simp [CacheEvent.sent]
  | @joined _ _ t ht =>
    refine ⟨_, List.getElem?_concat_length, .pending ⟨t, key⟩ rfl rfl
      ⟨ha.sound.inFlight_open key t ht, fun u => ?_⟩ ?_ (Or.inl rfl)⟩
    · rw [SingleFlight.waiters_join]
      by_cases hu : t = u
      · simp [hu, hunlisted]
      · simp [hu, hunlisted, Ne.symm hu]
    · exact hreceived
  | started hfree hbypass =>
    refine ⟨_, List.getElem?_concat_length, .pending ⟨s.cache.nextToken, key⟩ rfl rfl
      ⟨List.mem_append_right _ (List.mem_singleton.mpr rfl), fun u => ?_⟩ ?_ (Or.inl rfl)⟩
    · rw [SingleFlight.waiters_start]
      by_cases hu : s.cache.nextToken = u
      · simp [hu]
      · simp [hu, hunlisted, Ne.symm hu]
    · exact hreceived

end Standing

/-- A caller that waits is in the list of one fetch only. -/
theorem WaitsFor.eq (h : Sound s) {i : Nat} {f g : OpenFetch} (hf : WaitsFor s i f)
    (hg : WaitsFor s i g) : g = f := by
  refine h.fetch_eq hg.is_open hf.is_open ?_
  by_contra hne
  have hone := hg.listed g.token
  rw [hf.listed, if_neg hne, if_pos rfl] at hone
  omega

/-- The caller of any call of a run, unless it has gone away, is after the run in exactly one of two
situations: it waits for exactly one open fetch, which is for its key, and has been sent nothing; or
it waits for nothing and has been sent exactly one result, namely what was memoized for its key when
it called or what the fetch that it joined or started ended with. Where no fetch is open, it does
not wait. -/
theorem call_waits_or_answered (before after : List (CacheStep ε ρ)) (key : String)
    (bypass : Bool) :
    let s₀ : CacheSession ε ρ := start.run before
    let i := s₀.callers.length
    let resolution := (s₀.cache.resolve key bypass i).1
    let steps := before ++ .resolve key bypass :: after
    let s := start.run steps
    ∃ state, s.callers[i]? = some (key, state) ∧
      (state = .dropped ∧ .left i ∈ events steps ∨
        Xor
          (∃ f, state = .waiting f.token ∧ f.key = key ∧ WaitsFor s i f ∧
            (∀ g, WaitsFor s i g → g = f) ∧ received i (events steps) = [])
          (∃ result, state = .answered result ∧ (∀ t, i ∉ s.cache.waiters t) ∧
            received i (events steps) = [result] ∧
            ((∃ v, resolution = .hit v ∧ s₀.cache.cached? key = some v ∧ result = .ok v) ∨
              ∃ f : OpenFetch, resolution.token? = some f.token ∧ f.key = key ∧
                EndedWith (events steps) f result))) ∧
      (s.fetches = [] → ∀ t, state ≠ .waiting t) := by
  intro s₀ i resolution steps s
  have hbefore : Accounted (events before) s₀ := accounted_run before
  have hchange := change_resolve s₀ key bypass
  have hstep : ∀ past (u : CacheSession ε ρ) e,
      (Accounted past u ∧ ∃ state, u.callers[i]? = some (key, state) ∧
        Standing past u i key resolution state) →
      Accounted (u.event e :: past) (u.step e) ∧ ∃ state,
        (u.step e).callers[i]? = some (key, state) ∧
          Standing (u.event e :: past) (u.step e) i key resolution state := by
    rintro past u e ⟨ha, state, hi, h⟩
    exact ⟨ha.change (change_step u e), h.change ha hi (change_step u e)⟩
  have hevents : events steps = history (s₀.event (.resolve key bypass) :: events before)
      (s₀.step (.resolve key bypass)) after := history_append [] start before _
  have hs : s = (s₀.step (.resolve key bypass)).run after := run_append start before _
  have hrun : Accounted (events steps) s ∧ ∃ state, s.callers[i]? = some (key, state) ∧
      Standing (events steps) s i key resolution state := by
    rw [hevents, hs]
    exact history_run_induction hstep after _ _
      ⟨hbefore.change hchange, standing_call hbefore key bypass hchange⟩
  obtain ⟨ha, state, hi, h⟩ := hrun
  refine ⟨state, hi, ?_⟩
  cases h with
  | pending f hfetch hkey hwaits hreceived hstate =>
    refine ⟨?_, fun hnone => absurd hnone (List.ne_nil_of_mem hwaits.is_open)⟩
    rcases hstate with rfl | ⟨hdropped, hleft⟩
    · have honly : ∀ g, WaitsFor s i g → g = f := fun g hg => hwaits.eq ha.sound hg
      refine Or.inr (Or.inl ⟨⟨f, rfl, hkey, hwaits, honly, hreceived⟩, ?_⟩)
      rintro ⟨result, hstate, -⟩
      exact absurd hstate (by simp)
    · exact Or.inl ⟨hdropped, hleft⟩
  | answered result hfree hreceived horigin hstate =>
    rcases hstate with rfl | ⟨rfl, hleft⟩
    · refine ⟨Or.inr (Or.inr ⟨⟨result, rfl, hfree, hreceived, ?_⟩, ?_⟩), by simp⟩
      · refine horigin.imp_left fun ⟨v, hv, hresult⟩ => ⟨v, hv, ?_, hresult⟩
        exact SingleFlight.cached?_of_resolve_hit hv
      · rintro ⟨f, hstate, -⟩
        exact absurd hstate (by simp)
    · exact ⟨Or.inl ⟨rfl, hleft⟩, by simp⟩

end CacheSession

end Paywall
