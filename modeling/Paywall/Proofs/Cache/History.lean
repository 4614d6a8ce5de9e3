import Paywall.Cache.Session
import Paywall.Proofs.Cache.SingleFlight

/-!
# The history of a cache in use

Every step of a session is an event, and a run leaves a history of events behind, the latest first.
The history is not part of the session: it says what was asked, what was started, what ended and
what was sent to whom, and theorems about a run compare the session with it.

`change_step` says once what each step can do to a session. An invariant of a session and its
history that survives every `Change` holds after every run (`history_run_induction`).
-/

namespace Paywall

/-- What happens in a step of a session. -/
inductive CacheEvent (ε ρ : Type) where
  /-- A caller asked for a key. -/
  | called (caller : Nat) (key : String) (bypass : Bool) (resolution : Resolution ρ)
  /-- A fetch ended, and its result was sent to the callers with the given numbers. -/
  | ended (fetch : OpenFetch) (result : Except ε ρ) (numbers : List Nat)
  /-- A caller went away before it was answered. -/
  | left (caller : Nat)
  | invalidated (key : String)
  | cleared
  /-- There was no such fetch to end, or no such caller to go away. -/
  | nothing

namespace CacheSession

variable {ε ρ : Type}

/-- The event of a step. -/
def event (s : CacheSession ε ρ) : CacheStep ε ρ → CacheEvent ε ρ
  | .resolve key bypass =>
    .called s.callers.length key bypass (s.cache.resolve key bypass s.callers.length).1
  | .complete token result =>
    match s.fetches.find? fun f => f.token == token with
    | none => .nothing
    | some fetch => .ended fetch result (s.cache.settle fetch.key token result).1
  | .drop caller =>
    match s.callers[caller]? with
    | some (_, .waiting _) => .left caller
    | _ => .nothing
  | .invalidate key => .invalidated key
  | .clear => .cleared

/-- The events of a run, the latest first, on top of those before it. -/
def history (past : List (CacheEvent ε ρ)) (s : CacheSession ε ρ) :
    List (CacheStep ε ρ) → List (CacheEvent ε ρ)
  | [] => past
  | e :: rest => history (s.event e :: past) (s.step e) rest

/-- The events of a run from the start, the latest first. -/
def events (steps : List (CacheStep ε ρ)) : List (CacheEvent ε ρ) := history [] start steps

theorem run_append (s : CacheSession ε ρ) (es fs : List (CacheStep ε ρ)) :
    s.run (es ++ fs) = (s.run es).run fs := List.foldl_append

theorem history_append (past : List (CacheEvent ε ρ)) (s : CacheSession ε ρ)
    (es fs : List (CacheStep ε ρ)) :
    history past s (es ++ fs) = history (history past s es) (s.run es) fs := by
  induction es generalizing past s with
  | nil => rfl
  | cons e rest ih => exact ih (s.event e :: past) (s.step e)

/-- What every step preserves holds after every run. -/
theorem history_run_induction {P : List (CacheEvent ε ρ) → CacheSession ε ρ → Prop}
    (hstep : ∀ past s e, P past s → P (s.event e :: past) (s.step e)) (steps : List (CacheStep ε ρ))
    (past : List (CacheEvent ε ρ)) (s : CacheSession ε ρ) (h : P past s) :
    P (history past s steps) (s.run steps) := by
  induction steps generalizing past s with
  | nil => exact h
  | cons e rest ih => exact ih (s.event e :: past) (s.step e) (hstep past s e h)

/-! ## The callers after an answer and after a departure -/

section Callers

variable {callers : List (String × CallerState ε ρ)} {numbers : List Nat} {result : Except ε ρ}
  {i : Nat} {key : String} {state : CallerState ε ρ}

@[simp] theorem length_answer : (answer callers numbers result).length = callers.length := by
  simp [answer]

theorem getElem?_answer_of_not_mem (h : i ∉ numbers) :
    (answer callers numbers result)[i]? = callers[i]? := by
  simp only [answer, List.getElem?_mapIdx]
  rcases callers[i]? with _ | ⟨k, state⟩
  · rfl
  · cases state <;> simp [h]

theorem getElem?_answer_waiting {t : Nat} (h : callers[i]? = some (key, .waiting t))
    (hi : i ∈ numbers) : (answer callers numbers result)[i]? = some (key, .answered result) := by
  simp [answer, h, hi]

theorem getElem?_answer_dropped (h : callers[i]? = some (key, .dropped)) :
    (answer callers numbers result)[i]? = some (key, .dropped) := by
  simp [answer, h]

@[simp] theorem length_drop (s : CacheSession ε ρ) (j : Nat) :
    (s.drop j).callers.length = s.callers.length := by
  simp [drop]

theorem getElem?_drop_ne (s : CacheSession ε ρ) {j : Nat} (h : i ≠ j) :
    (s.drop j).callers[i]? = s.callers[i]? := by
  simp only [drop, List.getElem?_mapIdx]
  rcases s.callers[i]? with _ | ⟨k, state⟩
  · rfl
  · cases state <;> simp [h]

theorem getElem?_drop_waiting {s : CacheSession ε ρ} {t : Nat}
    (h : s.callers[i]? = some (key, .waiting t)) :
    (s.drop i).callers[i]? = some (key, .dropped) := by
  simp [drop, h]

/-- Nothing changes when a caller goes away that does not wait. -/
theorem drop_eq_self {s : CacheSession ε ρ}
    (h : ∀ key t, s.callers[i]? ≠ some (key, .waiting t)) : s.drop i = s := by
  have hcallers : (s.drop i).callers = s.callers := by
    refine List.ext_getElem? fun j => ?_
    by_cases hj : j = i
    · subst hj
      simp only [drop, List.getElem?_mapIdx]
      rcases hc : s.callers[j]? with _ | ⟨k, state⟩
      · rfl
      · cases state with
        | waiting t => exact absurd hc (h k t)
        | answered => rfl
        | dropped => rfl
    · exact getElem?_drop_ne s hj
  cases s
  simpa [drop] using hcallers

end Callers

/-! ## What a step can do -/

/-- A session behind the start of a fetch, for a caller that is then in the given state. -/
abbrev afterStart (s : CacheSession ε ρ) (key : String) (state : CallerState ε ρ) :
    CacheSession ε ρ where
  cache := s.cache.start key s.callers.length
  fetches := s.fetches ++ [⟨s.cache.nextToken, key⟩]
  callers := s.callers ++ [(key, state)]

/-- A session behind the end of an open fetch. -/
abbrev afterEnd (s : CacheSession ε ρ) (f : OpenFetch) (result : Except ε ρ) :
    CacheSession ε ρ where
  cache := (s.cache.settle f.key f.token result).2
  fetches := s.fetches.filter fun g => g.token ≠ f.token
  callers := answer s.callers (s.cache.waiters f.token) result

/-- The session `s` changes to `s'`, and this is what happens. -/
inductive Change : CacheSession ε ρ → CacheEvent ε ρ → CacheSession ε ρ → Prop where
  /-- A call that finds a result. -/
  | hit {s : CacheSession ε ρ} {key : String} {v : ρ} (hv : s.cache.cached? key = some v) :
      Change s (.called s.callers.length key false (.hit v))
        { s with callers := s.callers ++ [(key, .answered (.ok v))] }
  /-- A call that finds a fetch under way. -/
  | joined {s : CacheSession ε ρ} {key : String} {bypass : Bool} {t : Nat}
      (ht : s.cache.entries.get? key = some (.inFlight t)) :
      Change s (.called s.callers.length key bypass (.joined t))
        { s with
          cache := s.cache.join t s.callers.length
          callers := s.callers ++ [(key, .waiting t)] }
  /-- A call that finds nothing, or a result that it does not want. -/
  | started {s : CacheSession ε ρ} {key : String} {bypass : Bool}
      (hfree : ∀ t, s.cache.entries.get? key ≠ some (.inFlight t))
      (hbypass : bypass = false → s.cache.entries.get? key = none) :
      Change s (.called s.callers.length key bypass (.started s.cache.nextToken))
        (s.afterStart key (.waiting s.cache.nextToken))
  | ended {s : CacheSession ε ρ} {f : OpenFetch} (result : Except ε ρ) (hf : f ∈ s.fetches) :
      Change s (.ended f result (s.cache.waiters f.token))
        (s.afterEnd f result)
  | left {s : CacheSession ε ρ} {i : Nat} {key : String} {t : Nat}
      (hi : s.callers[i]? = some (key, .waiting t)) : Change s (.left i) (s.drop i)
  | invalidated {s : CacheSession ε ρ} (key : String) :
      Change s (.invalidated key) { s with cache := s.cache.invalidate key }
  | cleared {s : CacheSession ε ρ} : Change s .cleared { s with cache := s.cache.clear }
  | nothing {s : CacheSession ε ρ} : Change s .nothing s

/-! The three ways of a call, by the entry of its key. -/

theorem resolve_of_cached {s : CacheSession ε ρ} {key : String} {v : ρ}
    (hv : s.cache.cached? key = some v) :
    s.event (.resolve key false) = .called s.callers.length key false (.hit v) ∧
      s.resolve key false = { s with callers := s.callers ++ [(key, .answered (.ok v))] } := by
  have he := SingleFlight.cached?_eq_some_iff.mp hv
  simp [event, resolve, SingleFlight.resolve, stateOf, he]

theorem resolve_of_inFlight {s : CacheSession ε ρ} {key : String} {t : Nat}
    (ht : s.cache.entries.get? key = some (.inFlight t)) (bypass : Bool) :
    s.event (.resolve key bypass) = .called s.callers.length key bypass (.joined t) ∧
      s.resolve key bypass =
        { s with
          cache := s.cache.join t s.callers.length
          callers := s.callers ++ [(key, .waiting t)] } := by
  simp [event, resolve, SingleFlight.resolve, stateOf, ht]

theorem resolve_of_free {s : CacheSession ε ρ} {key : String} {bypass : Bool}
    (hfree : ∀ t, s.cache.entries.get? key ≠ some (.inFlight t))
    (hbypass : bypass = false → s.cache.entries.get? key = none) :
    s.event (.resolve key bypass) =
        .called s.callers.length key bypass (.started s.cache.nextToken) ∧
      s.resolve key bypass = s.afterStart key (.waiting s.cache.nextToken) := by
  rcases he : s.cache.entries.get? key with _ | (v | t)
  · simp [event, resolve, SingleFlight.resolve, stateOf, he]
  · cases bypass with
    | false => simp [he] at hbypass
    | true => simp [event, resolve, SingleFlight.resolve, stateOf, he]
  · exact absurd he (hfree t)

theorem change_resolve (s : CacheSession ε ρ) (key : String) (bypass : Bool) :
    Change s (s.event (.resolve key bypass)) (s.resolve key bypass) := by
  have hstarted (hfree : ∀ t, s.cache.entries.get? key ≠ some (.inFlight t))
      (hbypass : bypass = false → s.cache.entries.get? key = none) :
      Change s (s.event (.resolve key bypass)) (s.resolve key bypass) := by
    obtain ⟨hevent, hresolve⟩ := resolve_of_free hfree hbypass
    rw [hevent, hresolve]
    exact Change.started hfree hbypass
  rcases he : s.cache.entries.get? key with _ | (v | t)
  · exact hstarted (by simp [he]) fun _ => he
  · cases bypass with
    | false =>
      have hv := SingleFlight.cached?_eq_some_iff.mpr he
      obtain ⟨hevent, hresolve⟩ := resolve_of_cached hv
      rw [hevent, hresolve]
      exact Change.hit hv
    | true => exact hstarted (by simp [he]) (by simp)
  · obtain ⟨hevent, hresolve⟩ := resolve_of_inFlight he bypass
    rw [hevent, hresolve]
    exact Change.joined he

theorem change_complete (s : CacheSession ε ρ) (token : Nat) (result : Except ε ρ) :
    Change s (s.event (.complete token result)) (s.complete token result) := by
  rcases hf : s.fetches.find? (fun f => f.token == token) with _ | f
  · simpa [event, complete, hf] using Change.nothing
  · obtain rfl : f.token = token := by simpa using List.find?_some hf
    have hevent : s.event (.complete f.token result) =
        .ended f result (s.cache.waiters f.token) := by
      simp only [event]
      rw [hf]
      rfl
    have hcomplete : s.complete f.token result = s.afterEnd f result := by
      unfold complete
      rw [hf]
      rfl
    rw [hevent, hcomplete]
    exact Change.ended result (List.mem_of_find?_eq_some hf)

theorem change_drop (s : CacheSession ε ρ) (i : Nat) :
    Change s (s.event (.drop i)) (s.drop i) := by
  by_cases h : ∃ key t, s.callers[i]? = some (key, .waiting t)
  · obtain ⟨key, t, hi⟩ := h
    simpa [event, hi] using Change.left hi
  · simp only [not_exists] at h
    have hevent : s.event (.drop i) = .nothing := by simp [event]
    rw [hevent, drop_eq_self h]
    exact Change.nothing

theorem change_step (s : CacheSession ε ρ) (e : CacheStep ε ρ) :
    Change s (s.event e) (s.step e) := by
  cases e with
  | resolve key bypass => exact change_resolve s key bypass
  | complete token result => exact change_complete s token result
  | drop i => exact change_drop s i
  | invalidate key => exact Change.invalidated key
  | clear => exact Change.cleared

end CacheSession

end Paywall
