import Paywall.Campaign.Occurrence

/-!
# Windows slide forward

As the clock goes on a window begins later or where it began before, so nothing that has left a
window comes back. The clock must not go back for this, and a leap second has two places in time: it
stands before the minute that follows, but windows that go back from it count it into that minute.
-/

namespace Paywall

namespace Instant

variable {a b t : Instant}

theorem le_iff :
    a ≤ b ↔ a.seconds < b.seconds ∨ a.seconds = b.seconds ∧ a.nanos ≤ b.nanos := Iff.rfl

theorem le_trans (hab : a ≤ b) (hbt : b ≤ t) : a ≤ t := by
  rw [le_iff] at *
  omega

/-- Whether a clock that reads `a` may read `b` later: it goes back neither in the order of instants
nor where a leap second is counted into the next minute. -/
def Passes (a b : Instant) : Prop := a ≤ b ∧ a.back 0 ≤ b.back 0

instance : Decidable (a.Passes b) := inferInstanceAs (Decidable (_ ∧ _))

theorem passes_refl (a : Instant) : a.Passes a := by
  unfold Passes
  rw [le_iff, le_iff]
  omega

/-- Outside of leap seconds the order of instants is enough. -/
theorem passes_of_le (ha : a.inLeapSecond = false) (h : a ≤ b) : a.Passes b := by
  have hnanos : a.nanos < nanosPerSecond := by
    unfold inLeapSecond at ha
    simpa using ha
  refine ⟨h, ?_⟩
  rw [le_iff] at h
  unfold back
  rw [if_neg (by simp [ha]), le_iff]
  split
  · next hb =>
    show a.seconds - (0 : Nat) < b.seconds + 1 - (0 : Nat) ∨ _
    omega
  · show a.seconds - (0 : Nat) < b.seconds - (0 : Nat) ∨
      a.seconds - (0 : Nat) = b.seconds - (0 : Nat) ∧ a.nanos ≤ b.nanos
    omega

theorem back_eq (t : Instant) (n : Nat) :
    t.back n = ⟨(t.back 0).seconds - n, (t.back 0).nanos⟩ := by
  unfold back
  split <;> simp

theorem back_le_back (h : a.Passes b) (n : Nat) : a.back n ≤ b.back n := by
  have hzero := h.2
  rw [back_eq a n, back_eq b n]
  rw [le_iff] at hzero ⊢
  show (a.back 0).seconds - (n : Int) < (b.back 0).seconds - n ∨
    (a.back 0).seconds - (n : Int) = (b.back 0).seconds - n ∧ (a.back 0).nanos ≤ (b.back 0).nanos
  omega

theorem midnight_le_midnight (h : a ≤ b) : a.midnight ≤ b.midnight := by
  have hseconds : a.seconds ≤ b.seconds := by
    rw [le_iff] at h
    omega
  have hdays : a.seconds / secondsPerDay ≤ b.seconds / secondsPerDay := by
    unfold secondsPerDay
    omega
  rw [le_iff]
  show a.seconds / secondsPerDay * secondsPerDay < b.seconds / secondsPerDay * secondsPerDay ∨
    a.seconds / secondsPerDay * secondsPerDay = b.seconds / secondsPerDay * secondsPerDay ∧ 0 ≤ 0
  unfold secondsPerDay at *
  omega

end Instant

namespace Window

variable {a b : Instant}

/-- Whether an instant lies in the window that ends now. -/
def holds (w : Window) (now sessionStart t : Instant) : Bool :=
  match w.start now (some sessionStart) with
  | some s => s ≤ t
  | none => true

/-- What lies in a window has lain in it before. -/
theorem holds_of_passes {w : Window} {sessionStart t : Instant} (h : a.Passes b)
    (ht : w.holds b sessionStart t) : w.holds a sessionStart t := by
  have hback : ∀ n, b.back n ≤ t → a.back n ≤ t := by
    intro n hn
    exact Instant.le_trans (Instant.back_le_back h n) hn
  unfold holds start at *
  cases w with
  | sinceInstall => rfl
  | last30Days | last7Days | last24Hours =>
    simp only [decide_eq_true_eq] at ht ⊢
    exact hback _ ht
  | currentSession => exact ht
  | today =>
    simp only [decide_eq_true_eq] at ht ⊢
    exact Instant.le_trans (Instant.midnight_le_midnight h.1) ht

end Window

end Paywall
