import Paywall.Proofs.Cache.Mirror

/-!
# Caches that differ in the numbers of their fetches

A token only tells one fetch from another. So a cache all of whose tokens are larger by some number
answers like the cache itself, and stays as far ahead whatever is asked of the two. Of a cache that
has been cleared, with nobody waiting, no more is left than how far it is ahead of an empty one.
-/

namespace Paywall

variable {ρ κ ε : Type}

/-- What becomes of a call, under other numbers for the fetches. -/
def Resolution.renumber (number : Nat → Nat) : Resolution ρ → Resolution ρ
  | .hit result => .hit result
  | .joined token => .joined (number token)
  | .started token => .started (number token)

namespace SingleFlight

/-- The cache `c'` holds what `c` holds, under tokens that are larger by `k`. -/
structure Shifted (k : Nat) (c c' : SingleFlight ρ κ) : Prop where
  nextToken : c'.nextToken = c.nextToken + k
  entry : ∀ key, c'.entries.get? key = (c.entries.get? key).map (.renumber (· + k))
  waiters : ∀ t, c'.waiters (t + k) = c.waiters t

/-- A cache for which nobody waits is cleared to an empty one under other numbers. -/
theorem shifted_clear {c : SingleFlight ρ κ} (h : c.tokens = []) :
    Shifted c.nextToken empty c.clear where
  nextToken := (Nat.zero_add _).symm
  entry key := by simp [empty]
  waiters t := by
    have hnobody : t + c.nextToken ∉ c.tokens := by simp [h]
    exact waiters_eq_nil (c := c.clear) hnobody

namespace Shifted

variable {k : Nat} {c c' : SingleFlight ρ κ}

theorem start (h : Shifted k c c') (key : String) (caller : κ) :
    Shifted k (c.start key caller) (c'.start key caller) where
  nextToken := by simp only [nextToken_start, h.nextToken, Nat.add_right_comm]
  entry q := by
    simp only [get?_entries_start, h.entry, h.nextToken]
    split <;> rfl
  waiters t := by simp only [waiters_start, h.waiters, h.nextToken, Nat.add_right_cancel_iff]

theorem join (h : Shifted k c c') (token : Nat) (caller : κ) :
    Shifted k (c.join token caller) (c'.join (token + k) caller) where
  nextToken := h.nextToken
  entry := h.entry
  waiters t := by simp only [waiters_join, h.waiters, Nat.add_right_cancel_iff]

/-- A call becomes the same in both, up to the number of the fetch that it waits for. -/
theorem resolve (h : Shifted k c c') (key : String) (bypass : Bool) (caller : κ) :
    (c'.resolve key bypass caller).1 = (c.resolve key bypass caller).1.renumber (· + k) ∧
      Shifted k (c.resolve key bypass caller).2 (c'.resolve key bypass caller).2 := by
  have hstarted : (Resolution.started c'.nextToken : Resolution ρ) =
      (Resolution.started c.nextToken).renumber (· + k) := by
    rw [h.nextToken]
    rfl
  unfold SingleFlight.resolve
  rw [h.entry key]
  rcases c.entries.get? key with _ | result | token
  · exact ⟨hstarted, h.start key caller⟩
  · cases bypass with
    | true => exact ⟨hstarted, h.start key caller⟩
    | false => exact ⟨rfl, h⟩
  · exact ⟨rfl, h.join token caller⟩

theorem owns_eq (h : Shifted k c c') (key : String) (token : Nat) :
    c'.owns key (token + k) = c.owns key token := by
  rw [Bool.eq_iff_iff, owns_iff, owns_iff, h.entry key]
  rcases c.entries.get? key with _ | result | current
  · simp
  · simp [CacheEntry.renumber]
  · simp [CacheEntry.renumber]

/-- The end of a fetch answers the same callers. -/
theorem settle (h : Shifted k c c') (key : String) (token : Nat) (result : Except ε ρ) :
    (c'.settle key (token + k) result).1 = (c.settle key token result).1 ∧
      Shifted k (c.settle key token result).2 (c'.settle key (token + k) result).2 := by
  refine ⟨h.waiters token, h.nextToken, fun q => ?_, fun t => ?_⟩
  · simp only [get?_entries_settle, h.owns_eq, h.entry q]
    split
    · cases result <;> rfl
    · rfl
  · simp only [waiters_settle, h.waiters, Nat.add_right_cancel_iff]

theorem invalidate (h : Shifted k c c') (key : String) :
    Shifted k (c.invalidate key) (c'.invalidate key) where
  nextToken := h.nextToken
  entry q := by
    simp only [get?_entries_invalidate, h.entry]
    split <;> rfl
  waiters := h.waiters

theorem invalidateAll (h : Shifted k c c') (keys : List String) :
    Shifted k (keys.foldl SingleFlight.invalidate c) (keys.foldl SingleFlight.invalidate c') := by
  induction keys generalizing c c' with
  | nil => exact h
  | cons key rest ih => exact ih (h.invalidate key)

theorem clear (h : Shifted k c c') : Shifted k c.clear c'.clear where
  nextToken := h.nextToken
  entry key := by simp only [get?_entries_clear, Option.map_none]
  waiters := h.waiters

end Shifted

end SingleFlight

end Paywall
