import Paywall.Proofs.Cache.Mirror

/-!
# One key does not see the others

All keys share one token counter, one list of open fetches and one list of callers. Still, a run
restricted to the steps that concern one key shows the same of this key: what is memoized, who starts
a fetch, and what the callers have. The two runs differ in the tokens and in the numbers of the
callers, so the steps that remain are renumbered, and the restricted session mirrors the full one.
-/

namespace Paywall.CacheSession

variable {ε ρ : Type}

/-! ## Restricting a run -/

/-- Whether a step concerns a key. The end of an open fetch concerns the key of the fetch, and the
departure of a caller the key that it has called for. -/
def concerns (key : String) (s : CacheSession ε ρ) : CacheStep ε ρ → Bool
  | .resolve k _ | .invalidate k => k == key
  | .complete token _ => s.fetches.contains ⟨token, key⟩
  | .drop caller => s.keys[caller]? == some key
  | .clear => true

/-- A step under the numbers that fetches and callers have if those of other keys are not counted. -/
def renumbered (key : String) (past : List (CacheEvent ε ρ)) (s : CacheSession ε ρ) :
    CacheStep ε ρ → CacheStep ε ρ
  | .complete token result => .complete (fetchNumber key past token) result
  | .drop caller => .drop (callerNumber key s.keys caller)
  | step => step

/-- Deletes the steps that do not concern a key. -/
def restrictFrom (key : String) (past : List (CacheEvent ε ρ)) (s : CacheSession ε ρ) :
    List (CacheStep ε ρ) → List (CacheStep ε ρ)
  | [] => []
  | e :: rest =>
    let later := restrictFrom key (s.event e :: past) (s.step e) rest
    if concerns key s e then renumbered key past s e :: later else later

/-- What remains of a run if all that does not concern a key is deleted. -/
def restrict (key : String) (steps : List (CacheStep ε ρ)) : List (CacheStep ε ρ) :=
  restrictFrom key [] start steps

theorem restrictFrom_append (key : String) (past : List (CacheEvent ε ρ)) (s : CacheSession ε ρ)
    (es fs : List (CacheStep ε ρ)) :
    restrictFrom key past s (es ++ fs) =
      restrictFrom key past s es ++ restrictFrom key (history past s es) (s.run es) fs := by
  induction es generalizing past s with
  | nil => rfl
  | cons e rest ih =>
    have hrest := ih (s.event e :: past) (s.step e)
    rw [List.cons_append, restrictFrom, restrictFrom, hrest]
    split <;> rfl

/-! ## Steps and runs -/

section Steps

variable {key : String} {past : List (CacheEvent ε ρ)} {s s' : CacheSession ε ρ}

/-- Whether something that happens to a session concerns a key. -/
def Touches (key : String) (s : CacheSession ε ρ) : CacheEvent ε ρ → Prop
  | .called _ k _ _ | .invalidated k => k = key
  | .ended f _ _ => f.key = key
  | .left caller => s.keys[caller]? = some key
  | .cleared => True
  | .nothing => False

theorem not_touches_event {e : CacheStep ε ρ} (he : concerns key s e = false) :
    ¬ Touches key s (s.event e) := by
  cases e with
  | resolve k bypass => simpa [concerns, event, Touches] using he
  | complete token result =>
    simp only [event]
    split
    · exact id
    · next f hfind =>
      obtain rfl : f.token = token := by simpa using List.find?_some hfind
      have hf : f ∈ s.fetches := List.mem_of_find?_eq_some hfind
      rintro rfl
      simp [concerns, hf] at he
  | drop caller =>
    simp only [event]
    split
    · simpa [concerns, Touches] using he
    · exact id
  | invalidate k => simpa [concerns, event, Touches] using he
  | clear => simp [concerns] at he

/-- What does not concern the key leaves its mirror alone. -/
theorem Mirrors.skip (ha : Assorted past s) (h : Mirrors key (startedFor key past) s s')
    {event : CacheEvent ε ρ} {t : CacheSession ε ρ} (hc : Change s event t)
    (hevent : ¬ Touches key s event) :
    Mirrors key (startedFor key (event :: past)) t s' ∧ event.call? key = none := by
  have hcall : event.call? key = none := by
    cases event with
    | called caller k bypass resolution => exact if_neg hevent
    | _ => rfl
  rw [startedFor_of_none (by rw [CacheEvent.started?, hcall]; rfl)]
  refine ⟨?_, hcall⟩
  cases hc with
  | hit => exact h.called_other (ha.sound.hit _) hevent
  | joined ht => exact (h.joined_other ha hevent ht).called_other (ha.sound.joined _ ht) hevent
  | started => exact (h.started_other ha hevent).called_other (ha.sound.started _ _) hevent
  | ended result hf => exact h.ended_other ha hf hevent result
  | left => exact h.left_other hevent
  | @invalidated k =>
    have hk : k ≠ key := hevent
    refine h.other ?_ (fun _ _ => rfl) fun _ hf _ => hf
    rw [SingleFlight.get?_entries_invalidate, if_neg hk]
  | cleared => exact absurd trivial hevent
  | nothing => exact h

/-- Whether a call starts a fetch. -/
def startsFetch (resolution : Resolution ρ) : Bool := resolution.started?.isSome

/-- The mirror follows the step `e` with the step `e'`. -/
structure Follows (key : String) (past : List (CacheEvent ε ρ)) (s s' : CacheSession ε ρ)
    (e e' : CacheStep ε ρ) : Prop where
  mirrors : Mirrors key (startedFor key (s.event e :: past)) (s.step e) (s'.step e')
  call : ((s'.event e').call? key).map startsFetch = ((s.event e).call? key).map startsFetch

theorem call?_called {caller : Nat} {bypass : Bool} {resolution : Resolution ρ} :
    (CacheEvent.called caller key bypass resolution : CacheEvent ε ρ).call? key =
      some resolution := if_pos rfl

/-- A call for the key that starts a fetch does so in both sessions. -/
theorem Mirrors.follows_of_free (ha : Assorted past s) (h : Mirrors key (startedFor key past) s s')
    {bypass : Bool} (hfree : ∀ t, s.cache.entries.get? key ≠ some (.inFlight t))
    (hbypass : bypass = false → s.cache.entries.get? key = none) :
    Follows key past s s' (.resolve key bypass) (.resolve key bypass) := by
  have hfree' : ∀ t, s'.cache.entries.get? key ≠ some (.inFlight t) := by
    rw [h.entry]
    rcases he : s.cache.entries.get? key with _ | (v | t)
    · simp
    · simp [CacheEntry.renumber]
    · exact absurd he (hfree t)
  have hbypass' : bypass = false → s'.cache.entries.get? key = none := fun hb => by
    rw [h.entry, hbypass hb, Option.map_none]
  obtain ⟨hevent, hresolve⟩ := resolve_of_free hfree hbypass
  obtain ⟨hevent', hresolve'⟩ := resolve_of_free hfree' hbypass'
  constructor
  · simp only [step]
    rw [hevent, hresolve, hresolve', startedFor_of_started]
    exact (h.started ha).called (ha.sound.started _ _) rfl
  · rw [hevent, hevent', call?_called, call?_called]
    rfl

/-- A call for the key becomes the same in both sessions. -/
theorem Mirrors.follows_resolve (ha : Assorted past s) (h : Mirrors key (startedFor key past) s s')
    (bypass : Bool) : Follows key past s s' (.resolve key bypass) (.resolve key bypass) := by
  have hentry := h.entry
  rcases he : s.cache.entries.get? key with _ | (v | t)
  · exact h.follows_of_free ha (by simp [he]) fun _ => he
  · cases bypass with
    | false =>
      rw [he, Option.map_some, CacheEntry.renumber] at hentry
      obtain ⟨hevent, hresolve⟩ := resolve_of_cached (SingleFlight.cached?_eq_some_iff.mpr he)
      obtain ⟨hevent', hresolve'⟩ :=
        resolve_of_cached (SingleFlight.cached?_eq_some_iff.mpr hentry)
      constructor
      · simp only [step]
        rw [hevent, hresolve, hresolve',
          startedFor_of_none (CacheEvent.started?_called_eq_none (Or.inr rfl))]
        exact h.called (ha.sound.hit _) rfl
      · rw [hevent, hevent', call?_called, call?_called]
    | true => exact h.follows_of_free ha (by simp [he]) (by simp)
  · rw [he, Option.map_some, CacheEntry.renumber] at hentry
    obtain ⟨hevent, hresolve⟩ := resolve_of_inFlight he bypass
    obtain ⟨hevent', hresolve'⟩ := resolve_of_inFlight hentry bypass
    constructor
    · simp only [step]
      rw [hevent, hresolve, hresolve',
        startedFor_of_none (CacheEvent.started?_called_eq_none (Or.inr rfl))]
      exact (h.joined ha he).called (ha.sound.joined _ he) rfl
    · rw [hevent, hevent', call?_called, call?_called]
      rfl

theorem call?_event_drop (s : CacheSession ε ρ) (i : Nat) :
    (s.event (.drop i)).call? key = none := by
  simp only [event]
  split <;> rfl

/-- A step that concerns the key is followed by the same step under the numbers of the mirror. -/
theorem Mirrors.follows (ha : Assorted past s) (hs : Sound s')
    (h : Mirrors key (startedFor key past) s s') {e : CacheStep ε ρ} (he : concerns key s e) :
    Follows key past s s' e (renumbered key past s e) := by
  have hkeep {event : CacheEvent ε ρ} (hnone : event.started? key = none) :
      startedFor key (event :: past) = startedFor key past := startedFor_of_none hnone
  cases e with
  | resolve k bypass =>
    obtain rfl : k = key := by simpa [concerns] using he
    exact h.follows_resolve ha bypass
  | complete token result =>
    have hf : ⟨token, key⟩ ∈ s.fetches := by simpa [concerns] using he
    have hf' : ⟨fetchNumber key past token, key⟩ ∈ s'.fetches := h.fetches _ hf rfl
    obtain ⟨hevent, hcomplete⟩ := ha.sound.complete_eq hf result
    obtain ⟨hevent', hcomplete'⟩ := hs.complete_eq hf' result
    constructor
    · simp only [renumbered, step]
      rw [hevent, hcomplete, hcomplete', hkeep rfl]
      exact h.ended ha hf rfl result
    · rw [hevent, renumbered, hevent']
      rfl
  | drop caller =>
    have hi : s.keys[caller]? = some key := by simpa [concerns] using he
    constructor
    · rw [hkeep (by rw [CacheEvent.started?, call?_event_drop]; rfl)]
      exact h.left hi
    · rw [renumbered, call?_event_drop, call?_event_drop]
  | invalidate k =>
    obtain rfl : k = key := by simpa [concerns] using he
    refine ⟨?_, rfl⟩
    rw [event, hkeep rfl]
    exact h.forgotten (by simp) (by simp)
  | clear =>
    refine ⟨?_, rfl⟩
    rw [event, hkeep rfl]
    exact h.forgotten (Table.get?_empty key) (Table.get?_empty key)

/-- The restricted run mirrors the full one, and the calls for the key start a fetch in both or in
neither. -/
theorem mirrors_restrict (steps : List (CacheStep ε ρ)) {past past' : List (CacheEvent ε ρ)}
    {s s' : CacheSession ε ρ} (ha : Assorted past s) (hs : Sound s')
    (h : Mirrors key (startedFor key past) s s')
    (hcalls : (callsFor key past').map startsFetch = (callsFor key past).map startsFetch) :
    Mirrors key (startedFor key (history past s steps)) (s.run steps)
        (s'.run (restrictFrom key past s steps)) ∧
      (callsFor key (history past' s' (restrictFrom key past s steps))).map startsFetch =
        (callsFor key (history past s steps)).map startsFetch := by
  induction steps generalizing past s past' s' with
  | nil => exact ⟨h, hcalls⟩
  | cons e rest ih =>
    have ha' := ha.change (change_step s e)
    rw [restrictFrom]
    by_cases he : concerns key s e
    · obtain ⟨hstep, hcall⟩ := h.follows ha hs he
      simp only [if_pos he]
      refine ih ha' (hs.change (change_step s' _)) hstep ?_
      rw [callsFor, callsFor, List.map_append, List.map_append, hcalls, ← Option.toList_map,
        ← Option.toList_map, hcall]
    · obtain ⟨hstep, hcall⟩ := h.skip ha (change_step s e) (not_touches_event (by simpa using he))
      simp only [if_neg he]
      refine ih ha' hs hstep ?_
      rw [callsFor_of_none hcall, hcalls]

end Steps

/-- A key is not disturbed by the others. To delete from a run all steps that do not concern the key,
and to number the fetches and callers that remain among themselves, changes nothing of what can be
seen of the key after any of the steps: the memoized result, which of its callers, in their order,
have started a fetch, and what each of them has. -/
theorem seen_restrict (before after : List (CacheStep ε ρ)) (key : String) :
    restrict key before <+: restrict key (before ++ after) ∧
    let s : CacheSession ε ρ := start.run before
    let s' : CacheSession ε ρ := start.run (restrict key before)
    s'.cache.cached? key = s.cache.cached? key ∧
      (callsFor key (events (restrict key before))).map startsFetch =
        (callsFor key (events before)).map startsFetch ∧
      s'.callers.map seen = (callersFor key s.callers).map seen := by
  refine ⟨?_, ?_⟩
  · unfold restrict
    rw [restrictFrom_append]
    exact List.prefix_append _ _
  · intro s s'
    obtain ⟨hmirrors, hcalls⟩ : Mirrors key (startedFor key (events before)) s s' ∧ _ :=
      mirrors_restrict before Assorted.start Sound.start (Mirrors.start key) rfl
    refine ⟨?_, hcalls, hmirrors.callers⟩
    unfold SingleFlight.cached?
    rw [hmirrors.entry]
    rcases s.cache.entries.get? key with _ | (v | t) <;> rfl

/-- The second fetch of all is the first one for its key. -/
example : restrict "b" ([.resolve "a" false, .resolve "b" false, .drop 0, .complete 1 (.ok 5),
    .complete 0 (.error ()), .clear, .drop 1] : List (CacheStep Unit Nat)) =
      [.resolve "b" false, .complete 0 (.ok 5), .clear, .drop 0] := rfl

end Paywall.CacheSession
