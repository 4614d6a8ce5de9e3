import Paywall.Proofs.Cache.Contents

/-!
# How many fetches there are

A key is either free or has an entry, and a fetch is started only when the key is free or its result
is bypassed. So every fetch for a key, the first one apart, is paid for by something that freed the
key or by a call that bypassed it: the number of fetches is bounded, however many callers there are.

Of the open fetches for a key at most one can still fill the cache, now or later: the one that owns
the entry. A fetch that does not own it never comes to own it.
-/

namespace Paywall

variable {ε ρ : Type}

/-- Whether a step forgets a key. -/
def CacheStep.forgets (key : String) : CacheStep ε ρ → Bool
  | .invalidate k => k == key
  | .clear => true
  | _ => false

/-- Whether a step is a call for a key that wants no memoized result. -/
def CacheStep.bypasses (key : String) : CacheStep ε ρ → Bool
  | .resolve k bypass => k == key && bypass
  | _ => false

namespace CacheEvent

/-- Whether a fetch for a key is started. -/
def startsFor (key : String) : CacheEvent ε ρ → Bool
  | .called _ k _ (.started _) => k == key
  | _ => false

/-- Whether a fetch for a key fails. -/
def failsFor (key : String) : CacheEvent ε ρ → Bool
  | .ended f (.error _) _ => f.key == key
  | _ => false

/-- Whether a key is called for without wanting a memoized result. -/
def bypasses (key : String) : CacheEvent ε ρ → Bool
  | .called _ k bypass _ => k == key && bypass
  | _ => false

end CacheEvent

namespace CacheSession

variable {past : List (CacheEvent ε ρ)} {s s' : CacheSession ε ρ} {event : CacheEvent ε ρ}

/-- What can be read off a step can be counted in the run as well as in its history. -/
theorem countP_history {p : CacheEvent ε ρ → Bool} {q : CacheStep ε ρ → Bool}
    (h : ∀ (s : CacheSession ε ρ) e, p (s.event e) = q e) (steps : List (CacheStep ε ρ))
    (past : List (CacheEvent ε ρ)) (s : CacheSession ε ρ) :
    (history past s steps).countP p = steps.countP q + past.countP p := by
  induction steps generalizing past s with
  | nil => simp [history]
  | cons e rest ih =>
    rw [history, ih, List.countP_cons, List.countP_cons, h]
    omega

theorem forgets_event (key : String) (s : CacheSession ε ρ) (e : CacheStep ε ρ) :
    (s.event e).forgets key = e.forgets key := by
  cases e with
  | complete token result =>
    simp only [event, CacheStep.forgets]
    split <;> rfl
  | drop caller =>
    simp only [event, CacheStep.forgets]
    split <;> rfl
  | _ => rfl

theorem bypasses_event (key : String) (s : CacheSession ε ρ) (e : CacheStep ε ρ) :
    (s.event e).bypasses key = e.bypasses key := by
  cases e with
  | complete token result =>
    simp only [event, CacheStep.bypasses]
    split <;> rfl
  | drop caller =>
    simp only [event, CacheStep.bypasses]
    split <;> rfl
  | _ => rfl

/-! ## The number of fetches -/

/-- One if a key has an entry: this much is not paid for yet. -/
def occupied (s : CacheSession ε ρ) (key : String) : Nat :=
  if (s.cache.entries.get? key).isSome then 1 else 0

/-- The fetches started for a key are paid for by failures, by what frees the key and by bypassing
calls, but for one if the key has an entry. -/
def PaidFor (key : String) (past : List (CacheEvent ε ρ)) (s : CacheSession ε ρ) : Prop :=
  past.countP (·.startsFor key) ≤ past.countP (·.failsFor key) + past.countP (·.forgets key) +
    past.countP (·.bypasses key) + occupied s key

theorem occupied_le (s : CacheSession ε ρ) (key : String) : occupied s key ≤ 1 := by
  unfold occupied
  split <;> omega

theorem occupied_congr {key : String}
    (h : s'.cache.entries.get? key = s.cache.entries.get? key) :
    occupied s' key = occupied s key := by
  simp only [occupied, h]

/-- An event that starts no fetch for the key and keeps its entry, or pays for the loss. -/
theorem PaidFor.cons {key : String} (h : PaidFor key past s) (hstarts : event.startsFor key = false)
    (hkeep : occupied s key ≤ occupied s' key ∨ event.failsFor key ∨ event.forgets key) :
    PaidFor key (event :: past) s' := by
  have hle := occupied_le s key
  unfold PaidFor at h ⊢
  simp only [List.countP_cons, hstarts]
  rcases hkeep with hkeep | hfails | hforgets
  · simp only [Bool.false_eq_true, if_false]
    omega
  · simp only [hfails, Bool.false_eq_true, if_true, if_false]
    omega
  · simp only [hforgets, Bool.false_eq_true, if_true, if_false]
    omega

theorem PaidFor.started {key k : String} {bypass : Bool} (h : PaidFor key past s)
    (hbypass : bypass = false → s.cache.entries.get? k = none) (state : CallerState ε ρ) :
    PaidFor key (.called s.callers.length k bypass (.started s.cache.nextToken) :: past)
      (s.afterStart k state) := by
  by_cases hk : k = key
  · subst hk
    unfold PaidFor at h ⊢
    have hfilled : occupied (s.afterStart k state) k = 1 := by
      simp [occupied]
    generalize hevent : CacheEvent.called s.callers.length k bypass (.started s.cache.nextToken) =
      event
    have hstarts : event.startsFor k = true := by simp [← hevent, CacheEvent.startsFor]
    have hbypasses : event.bypasses k = bypass := by simp [← hevent, CacheEvent.bypasses]
    simp only [hfilled, List.countP_cons, hstarts, hbypasses, if_true]
    cases bypass with
    | true =>
      have := occupied_le s k
      simp only [if_true]
      omega
    | false =>
      have hfree : occupied s k = 0 := by simp [occupied, hbypass rfl]
      omega
  · refine h.cons (by simp [CacheEvent.startsFor, hk]) (Or.inl (Nat.le_of_eq ?_))
    exact (occupied_congr (by simp [hk])).symm

theorem PaidFor.ended {key : String} (h : PaidFor key past s) (f : OpenFetch)
    (result : Except ε ρ) :
    PaidFor key (.ended f result (s.cache.waiters f.token) :: past)
      (s.afterEnd f result) := by
  refine h.cons rfl ?_
  by_cases hown : f.key = key ∧ s.cache.owns f.key f.token
  · cases result with
    | error e => exact Or.inr (Or.inl (by simp [CacheEvent.failsFor, hown.1]))
    | ok r =>
      left
      have hfilled : ((s.afterEnd f (.ok r)).cache.entries.get? key).isSome := by
        rw [SingleFlight.get?_entries_settle, if_pos hown]
        rfl
      simpa [occupied, hfilled] using occupied_le s key
  · refine Or.inl (Nat.le_of_eq (occupied_congr ?_).symm)
    rw [SingleFlight.get?_entries_settle, if_neg hown]

theorem PaidFor.change {key : String} (h : PaidFor key past s) (hc : Change s event s') :
    PaidFor key (event :: past) s' := by
  cases hc with
  | hit | joined | left | nothing => exact h.cons rfl (Or.inl (Nat.le_refl _))
  | started _ hbypass => exact h.started hbypass _
  | ended result hf => exact h.ended _ result
  | invalidated k =>
    by_cases hk : k = key
    · exact h.cons rfl (Or.inr (Or.inr (by simp [CacheEvent.forgets, hk])))
    · exact h.cons rfl (Or.inl (Nat.le_of_eq (occupied_congr (by simp [hk])).symm))
  | cleared => exact h.cons rfl (Or.inr (Or.inr rfl))

theorem paidFor_run (steps : List (CacheStep ε ρ)) (key : String) :
    PaidFor key (events steps) (start.run steps) :=
  history_run_induction (fun _ s e h => h.change (change_step s e)) steps [] start
    (Nat.zero_le _)

/-! ## Fetches that can fill the cache -/

/-- A fetch can fill the cache: it is open, now or after some steps, and its success would change
what is memoized. -/
def CanFill (s : CacheSession ε ρ) (f : OpenFetch) : Prop :=
  ∃ (later : List (CacheStep ε ρ)) (r : ρ), f ∈ (s.run later).fetches ∧
    ((s.run later).complete f.token (.ok r)).cache.cached? f.key ≠ (s.run later).cache.cached? f.key

/-- A fetch that has been started and does not own the entry of its key. -/
structure Disowned (s : CacheSession ε ρ) (f : OpenFetch) : Prop where
  token_lt : f.token < s.cache.nextToken
  not_owner : s.cache.entries.get? f.key ≠ some (.inFlight f.token)

/-- A fetch does not regain its entry. -/
theorem Disowned.change {f : OpenFetch} (h : Disowned s f) (hc : Change s event s') :
    Disowned s' f := by
  obtain ⟨hlt, hnot⟩ := h
  cases hc with
  | hit | joined | left | nothing => exact ⟨hlt, hnot⟩
  | @started key =>
    refine ⟨Nat.lt_succ_of_lt hlt, ?_⟩
    rw [SingleFlight.get?_entries_start]
    split
    · simpa using Nat.ne_of_gt hlt
    · exact hnot
  | ended result hf =>
    refine ⟨hlt, ?_⟩
    rw [SingleFlight.get?_entries_settle]
    split
    · cases result <;> simp [SingleFlight.settledEntry]
    · exact hnot
  | invalidated key =>
    refine ⟨hlt, ?_⟩
    rw [SingleFlight.get?_entries_invalidate]
    split
    · simp
    · exact hnot
  | cleared => exact ⟨hlt, by simp⟩

theorem Disowned.run {f : OpenFetch} (h : Disowned s f) (steps : List (CacheStep ε ρ)) :
    Disowned (s.run steps) f :=
  history_run_induction (P := fun _ s => Disowned s f) (fun _ s e h => h.change (change_step s e))
    steps [] s h

/-- The end of an open fetch settles the entry of its key. -/
theorem cache_complete (hs : Sound s) {f : OpenFetch} (hf : f ∈ s.fetches) (result : Except ε ρ) :
    (s.complete f.token result).cache = (s.cache.settle f.key f.token result).2 :=
  congrArg cache (hs.complete_eq hf result).2

theorem owns_of_canFill (hs : Sound s) {f : OpenFetch} (hf : f ∈ s.fetches) (h : CanFill s f) :
    s.cache.entries.get? f.key = some (.inFlight f.token) := by
  obtain ⟨later, r, hopen, hchanges⟩ := h
  by_contra hnot
  have hdisowned : Disowned (s.run later) f := Disowned.run ⟨hs.token_lt f hf, hnot⟩ later
  have hlater : Sound (s.run later) := hs.run later
  refine hchanges (SingleFlight.cached?_congr ?_)
  rw [cache_complete hlater hopen, SingleFlight.get?_entries_settle, if_neg]
  rintro ⟨-, hown⟩
  exact hdisowned.not_owner (SingleFlight.owns_iff.mp hown)

/-- The fetch that owns the entry of its key can fill the cache. -/
theorem canFill_of_owns (hs : Sound s) {f : OpenFetch} (hf : f ∈ s.fetches) (r : ρ)
    (h : s.cache.entries.get? f.key = some (.inFlight f.token)) : CanFill s f := by
  refine ⟨[], r, hf, ?_⟩
  have hbefore : s.cache.cached? f.key = none := by simp [SingleFlight.cached?, h]
  have hafter : (s.complete f.token (.ok r)).cache.cached? f.key = some r := by
    rw [cache_complete hs hf, SingleFlight.cached?_eq_some_iff, SingleFlight.get?_entries_settle,
      if_pos ⟨rfl, SingleFlight.owns_iff.mpr h⟩]
    rfl
  change (s.complete f.token (.ok r)).cache.cached? f.key ≠ s.cache.cached? f.key
  rw [hbefore, hafter]
  simp

/-- The fetches started for a key in a run are at most one more than its failed fetches, the steps
that forget the key and the calls that bypass its result; and after any run at most one open fetch
for a key can fill the cache. -/
theorem fetches_le_and_filler_unique (steps : List (CacheStep ε ρ)) (key : String) :
    (events steps).countP (·.startsFor key) ≤
        1 + (events steps).countP (·.failsFor key) + steps.countP (·.forgets key) +
          steps.countP (·.bypasses key) ∧
      ∀ f ∈ (start.run steps).fetches, ∀ g ∈ (start.run steps).fetches, f.key = key → g.key = key →
        CanFill (start.run steps) f → CanFill (start.run steps) g → f = g := by
  constructor
  · have hpaid : PaidFor key (events steps) (start.run steps) := paidFor_run steps key
    have hle := occupied_le (start.run steps) key
    have hforgets : (events steps).countP (·.forgets key) = steps.countP (·.forgets key) + 0 :=
      countP_history (forgets_event key) steps [] start
    have hbypasses : (events steps).countP (·.bypasses key) = steps.countP (·.bypasses key) + 0 :=
      countP_history (bypasses_event key) steps [] start
    unfold PaidFor at hpaid
    omega
  · intro f hf g hg hfkey hgkey hfill hgill
    have hs : Sound (start.run steps) := sound_run steps
    have hfown := owns_of_canFill hs hf hfill
    have hgown := owns_of_canFill hs hg hgill
    refine hs.fetch_eq hf hg ?_
    rw [hfkey] at hfown
    rw [hgkey, hfown] at hgown
    simpa using hgown

end CacheSession

end Paywall
