import Paywall.Proofs.Cache.SingleFlight
import Paywall.Proofs.Decision.Stages

/-!
# Getting a paywall

A caller is served what is cached, or the result of a fetch: the one that is under way for its key,
whoever has started it, or else one of its own. `Served` lists these ways. A fetch that is under way
is attended, that is, whoever started it still waits for it; so it can be told from the cache which
fetch that is.
-/

namespace Paywall.Context

variable {c c' : Context} {f : FetchRequest} {bypass : Bool}

/-- What is fetched depends on the scene only. -/
theorem fetch_congr (hscene : c'.scene = c.scene) (f : FetchRequest) : c'.fetch f = c.fetch f := by
  have hsource : c'.source = c.source := congrArg Scene.source hscene
  have hcampaign : c'.campaign = c.campaign := congrArg Scene.campaign hscene
  simp only [fetch, hsource, hcampaign]

/-- The fetch that a caller waits for if it is not served from the cache. -/
def awaited (c : Context) (f : FetchRequest) : FetchRequest :=
  match c.cache.entries.get? f.key with
  | some (.inFlight token) => (c.fetchUnderWay? token).getD f
  | _ => f

/-- The ways in which a caller is served, with the context behind each. -/
inductive Served (c : Context) (f : FetchRequest) (bypass : Bool) :
    Except PaywallError Resource → Context → Prop where
  | cached {p : Resource} (hbypass : bypass = false)
      (hp : c.cache.entries.get? f.key = some (.resolved p)) : Served c f bypass (.ok p) c
  | joined {token : Nat} (ht : c.cache.entries.get? f.key = some (.inFlight token)) :
      Served c f bypass (c.fetch (c.awaited f)) { c with
        cache := ((c.cache.join token ⟨0, f⟩).settle (c.awaited f).key token
          (c.fetch (c.awaited f))).2 }
  | started (hmissing : bypass = false → c.cache.entries.get? f.key = none)
      (hidle : ∀ token, c.cache.entries.get? f.key ≠ some (.inFlight token)) :
      Served c f bypass (c.fetch (c.awaited f)) { c with
        cache := ((c.cache.start f.key ⟨0, f⟩).settle f.key c.cache.nextToken
          (c.fetch (c.awaited f))).2
        fetches := c.fetches ++ [f] }

theorem awaited_congr (hcache : c'.cache = c.cache) (f : FetchRequest) :
    c'.awaited f = c.awaited f := by
  simp only [awaited, fetchUnderWay?, hcache]

theorem awaited_of_idle (hidle : ∀ token, c.cache.entries.get? f.key ≠ some (.inFlight token)) :
    c.awaited f = f := by
  unfold awaited
  split
  · next token ht => exact absurd ht (hidle token)
  · rfl

theorem awaited_of_inFlight {token : Nat}
    (ht : c.cache.entries.get? f.key = some (.inFlight token)) :
    c.awaited f = (c.fetchUnderWay? token).getD f := by
  unfold awaited
  rw [ht]

/-- Whoever joins a fetch is not the first to wait for it, unless nobody else waits. -/
theorem fetchUnderWay?_join (token : Nat) :
    ({ c with cache := c.cache.join token ⟨0, f⟩ } : Context).fetchUnderWay? token =
      some ((c.fetchUnderWay? token).getD f) := by
  simp only [fetchUnderWay?, SingleFlight.waiters_join, if_true]
  cases c.cache.waiters token <;> rfl

theorem served_serve (c : Context) (f : FetchRequest) (bypass : Bool) :
    Served c f bypass (c.serve f bypass).1 (c.serve f bypass).2 := by
  unfold serve ask
  rcases c.cache.resolve_cases f.key bypass ⟨0, f⟩ with
    ⟨p, hbypass, hp, heq⟩ | ⟨token, ht, heq⟩ | ⟨hmissing, hidle, heq⟩
  · rw [heq]
    exact .cached hbypass hp
  · have hrun := fetchUnderWay?_join (c := c) (f := f) token
    rw [heq]
    simp only [await, hrun]
    rw [Option.getD_some, ← awaited_of_inFlight ht]
    exact .joined ht
  · have hstarted := Served.started hmissing hidle
    have hrun : ({ c with cache := c.cache.start f.key ⟨0, f⟩, fetches := c.fetches ++ [f] } :
        Context).fetchUnderWay? c.cache.nextToken = some f := by
      simp [fetchUnderWay?]
    rw [awaited_of_idle hidle] at hstarted
    rw [heq]
    simp only [await, hrun]
    exact hstarted

theorem serve_fst (c : Context) (f : FetchRequest) (bypass : Bool) :
    (c.serve f bypass).1 =
      match c.cache.cached? f.key with
      | some p => if bypass then c.fetch (c.awaited f) else .ok p
      | none => c.fetch (c.awaited f) := by
  have h := served_serve c f bypass
  generalize (c.serve f bypass).1 = result, (c.serve f bypass).2 = c' at h
  unfold SingleFlight.cached?
  cases h with
  | cached hbypass hp =>
    rw [hp, hbypass]
    rfl
  | joined ht => rw [ht]
  | started hmissing hidle =>
    rcases he : c.cache.entries.get? f.key with _ | p | token
    · rfl
    · cases bypass with
      | true => rfl
      | false => exact absurd (he.symm.trans (hmissing rfl)) (by simp)
    · rfl

/-- Whatever a caller waits for, it starts no fetch but its own. -/
theorem fetches_serve_cases (c : Context) (f : FetchRequest) (bypass : Bool) :
    (c.serve f bypass).2.fetches = c.fetches ∨ (c.serve f bypass).2.fetches = c.fetches ++ [f] := by
  have h := served_serve c f bypass
  generalize (c.serve f bypass).1 = result, (c.serve f bypass).2 = c' at h
  cases h with
  | cached | joined => exact Or.inl rfl
  | started => exact Or.inr rfl

theorem fetches_serve_of_missing (h : c.cache.entries.get? f.key = none) :
    (c.serve f false).2.fetches = c.fetches ++ [f] := by
  have hserved := served_serve c f false
  generalize (c.serve f false).1 = result, (c.serve f false).2 = c' at hserved
  cases hserved with
  | cached hbypass hp => cases h.symm.trans hp
  | joined ht => cases h.symm.trans ht
  | started => rfl

/-- What is cached is not fetched, and the cache stays as it is. -/
theorem serve_of_cached {p : Resource} (h : c.cache.cached? f.key = some p) :
    c.serve f false = (.ok p, c) := by
  have hentry := SingleFlight.cached?_eq_some_iff.mp h
  have hserved := served_serve c f false
  rcases hserve : c.serve f false with ⟨result, c'⟩
  rw [hserve] at hserved
  cases hserved with
  | cached hbypass hp =>
    cases hentry.symm.trans hp
    rfl
  | joined ht => cases hentry.symm.trans ht
  | started hmissing hidle => cases hentry.symm.trans (hmissing rfl)

/-- Where the fetch that a caller waits for is for its key, it leaves its result there, unless it
fails, and nothing is left elsewhere. -/
theorem serve_cases (c : Context) (f : FetchRequest) (bypass : Bool)
    (hkey : (c.awaited f).key = f.key) :
    (∃ p, bypass = false ∧ c.cache.entries.get? f.key = some (.resolved p) ∧
      c.serve f bypass = (.ok p, c)) ∨
    ((bypass = false → c.cache.cached? f.key = none) ∧
      (c.serve f bypass).1 = c.fetch (c.awaited f) ∧
      ∀ key, (c.serve f bypass).2.cache.entries.get? key =
        if f.key = key then SingleFlight.settledEntry (c.fetch (c.awaited f))
        else c.cache.entries.get? key) := by
  have h := served_serve c f bypass
  rcases hserve : c.serve f bypass with ⟨result, c'⟩
  rw [hserve] at h
  cases h with
  | cached hbypass hp => exact Or.inl ⟨_, hbypass, hp, rfl⟩
  | @joined token ht =>
    have hentry : (c.cache.join token ⟨0, f⟩).entries.get? f.key = some (.inFlight token) := ht
    refine Or.inr ⟨fun _ => by simp [SingleFlight.cached?, ht], rfl, fun key => ?_⟩
    rw [hkey, SingleFlight.get?_entries_settle_of_inFlight hentry, SingleFlight.entries_join]
  | started hmissing hidle =>
    have hentry : (c.cache.start f.key ⟨0, f⟩).entries.get? f.key =
        some (.inFlight c.cache.nextToken) := by simp
    refine Or.inr ⟨fun hbypass => by simp [SingleFlight.cached?, hmissing hbypass], rfl, fun key => ?_⟩
    rw [SingleFlight.get?_entries_settle_of_inFlight hentry, SingleFlight.get?_entries_start]
    split <;> rfl

/-- Where no fetch is under way, a caller is served what is cached or the result of its own. -/
theorem serve_cases_of_idle (f : FetchRequest) (bypass : Bool)
    (hidle : ∀ token, c.cache.entries.get? f.key ≠ some (.inFlight token)) :
    (∃ p, bypass = false ∧ c.cache.entries.get? f.key = some (.resolved p) ∧
      c.serve f bypass = (.ok p, c)) ∨
    ((bypass = false → c.cache.entries.get? f.key = none) ∧
      (c.serve f bypass).1 = c.fetch f ∧
      ∀ key, (c.serve f bypass).2.cache.entries.get? key =
        if f.key = key then SingleFlight.settledEntry (c.fetch f)
        else c.cache.entries.get? key) := by
  have hawaited := awaited_of_idle hidle
  have h := serve_cases c f bypass (congrArg FetchRequest.key hawaited)
  rw [hawaited] at h
  refine h.imp_right fun ⟨hmissing, hfetched⟩ => ⟨fun hbypass => ?_, hfetched⟩
  have hnone := hmissing hbypass
  unfold SingleFlight.cached? at hnone
  rcases he : c.cache.entries.get? f.key with _ | p | token
  · rfl
  · simp [he] at hnone
  · exact absurd he (hidle token)

end Paywall.Context
