import Paywall.Proofs.Decision.Refreshing

/-!
# Who waits for a fetch

A fetch that an entry of the cache refers to is attended: somebody waits for it, and whoever was the
first to do so has started it for the key of that entry. So it is known which fetch is under way for
which key. Every part of a request and every step keeps it so: a fetch is started by one who waits for
it, others join behind, and when it ends its entry goes with those who wait.
-/

namespace Paywall.Context

variable {c c' : Context}

/-- The fetches that the cache refers to are attended. -/
def Attended (c : Context) : Prop :=
  ∀ key token, c.cache.entries.get? key = some (.inFlight token) →
    token < c.cache.nextToken ∧ ∃ f, c.fetchUnderWay? token = some f ∧ f.key = key

theorem fetchUnderWay?_congr (hcache : c'.cache = c.cache) (token : Nat) :
    c'.fetchUnderWay? token = c.fetchUnderWay? token := by
  simp only [fetchUnderWay?, hcache]

namespace Attended

theorem congr (h : c.Attended) (hcache : c'.cache = c.cache) : c'.Attended := by
  intro key token ht
  rw [hcache] at ht ⊢
  rw [fetchUnderWay?_congr hcache]
  exact h key token ht

/-- What a caller waits for is a fetch for the key that it asks for. -/
theorem key_awaited (h : c.Attended) (f : FetchRequest) : (c.awaited f).key = f.key := by
  unfold awaited
  split
  · next token ht =>
    obtain ⟨-, g, hg, hkey⟩ := h _ _ ht
    rw [hg]
    exact hkey
  · rfl

/-! ## Asking and ending -/

theorem ask (h : c.Attended) (f : FetchRequest) (bypass : Bool) (number : Nat) :
    (c.ask f bypass number).2.Attended := by
  suffices hasked : ({ c with cache := (c.cache.resolve f.key bypass ⟨number, f⟩).2 } : Context).Attended
    from hasked.congr rfl
  rcases c.cache.resolve_cases f.key bypass ⟨number, f⟩ with
    ⟨p, -, -, heq⟩ | ⟨current, hcurrent, heq⟩ | ⟨-, -, heq⟩
  · rw [heq]
    exact h
  · rw [heq]
    intro key token ht
    obtain ⟨hlt, g, hg, hkey⟩ := h key token ht
    refine ⟨hlt, g, ?_, hkey⟩
    unfold fetchUnderWay? at hg ⊢
    rw [SingleFlight.waiters_join]
    split
    · next hsame =>
      rw [hsame, List.head?_append, ← hg]
      cases hwaiters : c.cache.waiters token with
      | nil => simp [hwaiters] at hg
      | cons first others => rfl
    · exact hg
  · rw [heq]
    intro key token ht
    rw [SingleFlight.get?_entries_start] at ht
    unfold fetchUnderWay?
    rw [SingleFlight.nextToken_start, SingleFlight.waiters_start]
    split at ht
    · next hkey =>
      obtain rfl := CacheEntry.inFlight.inj (Option.some.inj ht)
      rw [if_pos rfl]
      exact ⟨Nat.lt_succ_self _, f, rfl, hkey⟩
    · obtain ⟨hlt, g, hg, hkey⟩ := h key token ht
      rw [if_neg (Nat.ne_of_gt hlt)]
      exact ⟨Nat.lt_succ_of_lt hlt, g, hg, hkey⟩

/-- A fetch under way that ends takes its entry with it, if it still has one. -/
theorem runFetch {f : FetchRequest} {token : Nat} (h : c.Attended)
    (hrun : ∀ g, c.fetchUnderWay? token = some g → g.key = f.key) :
    (c.runFetch f token).2.2.Attended := by
  intro key t ht
  have hentry : (c.cache.settle f.key token (c.fetch f)).2.entries.get? key = some (.inFlight t) := ht
  rw [SingleFlight.get?_entries_settle] at hentry
  split at hentry
  · cases hresult : c.fetch f <;> simp [hresult, SingleFlight.settledEntry] at hentry
  · next hother =>
    obtain ⟨hlt, g, hg, hkey⟩ := h key t hentry
    refine ⟨hlt, g, ?_, hkey⟩
    have hne : token ≠ t := by
      rintro rfl
      have hsame : f.key = key := (hrun g hg).symm.trans hkey
      exact hother ⟨hsame, SingleFlight.owns_iff.mpr (hsame ▸ hentry)⟩
    show ((c.cache.settle f.key token (c.fetch f)).2.waiters t).head?.map (·.fetch) = some g
    rw [SingleFlight.waiters_settle, if_neg hne]
    exact hg

theorem await (h : c.Attended) (f : FetchRequest) (resolution : Resolution Resource) :
    (c.await f resolution).2.Attended := by
  cases resolution with
  | hit p => exact h
  | joined token | started token =>
    refine h.runFetch fun g hg => ?_
    rw [hg]
    rfl

theorem serve (h : c.Attended) (f : FetchRequest) (bypass : Bool) :
    (c.serve f bypass).2.Attended :=
  (h.ask f bypass 0).await f _

/-! ## Requests -/

theorem assigned {r : Request} {x : Except Outcome Decision} (h : c.Attended)
    (ha : Assigned c r x c') : c'.Attended :=
  h.congr ha.frame.2

theorem finish (h : c.Attended) (d : Decision) (result : Except PaywallError Resource) :
    (c.finish d result).2.Attended :=
  h.congr (finish_frame ..).2

theorem begin (h : c.Attended) (r : Request) (number : Nat) : (c.begin r number).2.Attended := by
  obtain ⟨x, c', ha⟩ := exists_assigned c r
  have h' := h.assigned ha
  rw [begin_eq, ha.eq]
  cases x with
  | error o => exact h'
  | ok d =>
    have hloading : (c'.loading d).Attended := h'.congr rfl
    exact hloading.ask _ _ number

theorem present (h : c.Attended) (r : Request) : (c.present r).2.Attended := by
  obtain ⟨x, c', ha⟩ := exists_assigned c r
  have h' := h.assigned ha
  cases x with
  | error o => rwa [present_of_error ha]
  | ok d =>
    have hloading : (c'.loading d).Attended := h'.congr rfl
    rw [present_of_ok ha]
    exact (hloading.serve _ _).finish d _

theorem enter (h : c.Attended) (r : Request) (number : Nat) : (c.enter r number).2.Attended := by
  have hbegun := h.begin r number
  unfold Context.enter
  generalize c.begin r number = begun at hbegun ⊢
  obtain ⟨_ | ⟨d, fetch, _ | _ | _⟩, c'⟩ := begun
  · exact hbegun
  · exact hbegun.finish d _
  · exact hbegun
  · exact hbegun

theorem beginAll (h : c.Attended) (number : Nat) (rs : List Request) :
    (c.beginAll number rs).2.Attended := by
  induction rs generalizing c number with
  | nil => exact h
  | cons r rest ih => exact ih (h.enter r number) (number + 1)

theorem finishAll (h : c.Attended) (token : Nat) (result : Except PaywallError Resource)
    (numbers : List Nat) (all : List Progress) : (c.finishAll token result numbers all).2.Attended := by
  induction numbers generalizing c all with
  | nil => exact h
  | cons number rest ih =>
    rw [Context.finishAll]
    rcases all[number]? with _ | _ | w
    · exact ih h all
    · exact ih h all
    · simp only
      split
      · exact ih (h.finish _ _) _
      · exact ih h all

theorem runFetches (h : c.Attended) (tokens : List Nat) (all : List Progress) :
    (c.runFetches tokens all).2.Attended := by
  induction tokens generalizing c all with
  | nil => exact h
  | cons token rest ih =>
    rw [Context.runFetches]
    cases hrun : c.fetchUnderWay? token with
    | none => exact ih h all
    | some f =>
      have hended : (c.runFetch f token).2.2.Attended := h.runFetch fun g hg => by
        cases hrun.symm.trans hg
        rfl
      exact ih (hended.finishAll _ _ _ _) _

theorem presentAll (h : c.Attended) (rs : List Request) : (c.presentAll rs).2.Attended :=
  (h.beginAll 0 rs).runFetches _ _

/-! ## The other steps -/

theorem preload (h : c.Attended) (identifiers : List String) : (c.preload identifiers).2.Attended := by
  have hwarmed {c : Context} (h : c.Attended) : (c.warmAll identifiers).2.Attended := by
    induction identifiers generalizing c with
    | nil => exact h
    | cons identifier rest ih => exact ih (h.serve (c.preloadFetch identifier) false)
  unfold Context.preload
  split
  · have hstarted : (c.emit .preloadStart none id).Attended := h.congr rfl
    exact (hwarmed hstarted).congr rfl
  · exact h

theorem preloadActive (h : c.Attended) : c.preloadActive.2.Attended := by
  unfold Context.preloadActive
  split
  · exact h
  · exact h.preload _

theorem preloadEvents (h : c.Attended) (names : List String) : (c.preloadEvents names).2.Attended := by
  unfold Context.preloadEvents
  split
  · exact h
  · exact h.preload _

/-- Where entries are forgotten, those that stay are attended as before. -/
theorem invalidateAll (h : c.Attended) (keys : List String) :
    ({ c with cache := keys.foldl SingleFlight.invalidate c.cache } : Context).Attended := by
  induction keys generalizing c with
  | nil => exact h
  | cons key rest ih =>
    have hfirst : ({ c with cache := c.cache.invalidate key } : Context).Attended := by
      intro k token ht
      rw [SingleFlight.get?_entries_invalidate] at ht
      split at ht
      · cases ht
      · exact h k token ht
    exact ih hfirst

theorem load (h : c.Attended) (fetched : Except PaywallError Campaign) :
    (c.load fetched).2.Attended := by
  cases fetched with
  | error e => exact h
  | ok m =>
    have hreplaced : (c.replaced m).Attended := by
      unfold Context.replaced Context.evictStale
      cases c.campaign with
      | none => exact h.congr rfl
      | some previous => exact (h.invalidateAll _).congr rfl
    exact hreplaced.congr (c.load_frame m).2.2.1

theorem refresh (h : c.Attended) (fetched : Except PaywallError Campaign) :
    (c.refresh fetched).2.Attended := by
  have hloaded := h.load fetched
  unfold Context.refresh
  generalize c.load fetched = loaded at hloaded ⊢
  obtain ⟨_ | m, c'⟩ := loaded
  · exact hloaded
  · simp only
    split
    · exact hloaded.preloadActive
    · exact hloaded

theorem reset (h : c.Attended) : c.reset.2.Attended := by
  unfold Context.reset
  rcases c.assignments.clear with ⟨_ | _, cleared⟩
  · exact h.congr rfl
  · intro key token ht
    rw [SingleFlight.get?_entries_clear] at ht
    cases ht

theorem deliver (h : c.Attended) : c.deliver.Attended := by
  rw [deliver_eq]
  exact h.congr rfl

theorem perform (h : c.Attended) (s : HostStep) : (c.perform s).2.Attended := by
  cases s with
  | load fetched => exact h.load fetched
  | refresh fetched => exact h.refresh fetched
  | present r => exact h.present r
  | presentAll rs => exact h.presentAll rs
  | preloadActive => exact h.preloadActive
  | preloadEvents names => exact h.preloadEvents names
  | reset => exact h.reset
  | setAttribute | setSubscribed | recordPurchase | setClock | recordAt | setSource | setRefused
  | setSaveFault => exact h.congr rfl

theorem run (h : c.Attended) (steps : List HostStep) : (c.run steps).2.Attended := by
  induction steps generalizing c with
  | nil => exact h
  | cons s rest ih => exact ih (h.perform s).deliver

end Attended

/-- A context that has just been opened has no fetch under way. -/
theorem attended_of_open {settings : Settings} {evaluator : Evaluator} {source : PaywallSource}
    {record : Record} {ledger : Ledger} {seed : UInt64} {now : Instant}
    (h : openWith settings evaluator source record ledger seed now = .ok c) : c.Attended := by
  unfold openWith at h
  split at h
  · cases h
  · cases h
    intro key token ht
    simp [SingleFlight.empty] at ht

end Paywall.Context
