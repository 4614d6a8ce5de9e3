import Mathlib.Algebra.Order.Group.Nat
import Paywall.Campaign.Elapsed
import Paywall.Proofs.Time.Calendar
import Paywall.Time.Notation

/-!
# Units of time in 64 bits

Between two instants of the calendar there are fewer units than a number of 64 bits can count, so
the time since an event is never cut off.
-/

namespace Paywall

/-- Whether the calendar has the instant: its year can be written, and its fraction is one of a
second or of a leap second. -/
structure Instant.InCalendar (t : Instant) : Prop where
  year : hasYear t.date.year
  nanos : t.nanos < 2 * nanosPerSecond

example : Instant.InCalendar ⟨1715353200, 0⟩ := ⟨by decide +kernel, by decide⟩

namespace Instant.InCalendar

variable {a b : Instant}

theorem natAbs_year_le (h : a.InCalendar) : a.date.year.natAbs ≤ 262143 := by
  obtain ⟨hfirst, hlast⟩ := Bool.and_eq_true_iff.mp h.year
  have hlow : -262143 ≤ a.date.year := of_decide_eq_true hfirst
  have hhigh : a.date.year ≤ 262142 := of_decide_eq_true hlast
  omega

theorem natAbs_seconds_lt (h : a.InCalendar) : a.seconds.natAbs < 10000000000000 := by
  have hyear : (Date.yearOf a.dayNumber).natAbs ≤ 262143 := h.natAbs_year_le
  obtain ⟨hfrom, hto⟩ := Date.yearStart_yearOf a.dayNumber
  have hday : a.dayNumber = a.seconds / 86400 := rfl
  unfold Date.yearStart at hfrom hto
  dsimp only at hfrom hto
  omega

/-- Nanoseconds between two such instants may have more than 64 bits, but minutes have not. -/
theorem natAbs_elapsed_lt (ha : a.InCalendar) (hb : b.InCalendar) :
    (a.elapsed b).natAbs < 60 * nanosPerSecond * 2 ^ 63 := by
  have hseconds := ha.natAbs_seconds_lt
  have hseconds' := hb.natAbs_seconds_lt
  have hnanos := ha.nanos
  have hnanos' := hb.nanos
  have hleap : (leapBetween a b).natAbs ≤ nanosPerSecond := by
    unfold leapBetween
    split
    · omega
    · split <;> omega
  unfold elapsed
  rw [show nanosPerSecond = 1000000000 from rfl] at *
  omega

theorem natAbs_monthsUntil_lt (ha : a.InCalendar) (hb : b.InCalendar) :
    (a.monthsUntil b).natAbs < 2 ^ 63 := by
  have hyear := ha.natAbs_year_le
  have hyear' := hb.natAbs_year_le
  have hmonth : a.date.month ≤ 12 :=
    (Date.bounds_of_isValid (Date.ofDayNumber_spec a.dayNumber).2).1
  have hmonth' : b.date.month ≤ 12 :=
    (Date.bounds_of_isValid (Date.ofDayNumber_spec b.dayNumber).2).1
  unfold monthsUntil
  dsimp only
  split <;> omega

theorem natAbs_months_lt (ha : a.InCalendar) (hb : b.InCalendar) :
    (a.months b).natAbs < 2 ^ 63 := by
  unfold months
  split
  · rw [Int.natAbs_neg]
    exact natAbs_monthsUntil_lt hb ha
  · exact natAbs_monthsUntil_lt ha hb

end Instant.InCalendar

/-- Between instants of the calendar no number of units is too large for a variable. -/
theorem TimeUnit.toInt_elapsed {a b : Instant} (ha : a.InCalendar) (hb : b.InCalendar)
    (u : TimeUnit) : (Int64.ofInt (u.elapsed a b)).toInt = u.elapsed a b := by
  have hmonths := ha.natAbs_months_lt hb
  have htime (k : Nat) (hk : 60 * nanosPerSecond ≤ k) :
      ((a.elapsed b).tdiv k).natAbs < 2 ^ 63 := by
    rw [Int.natAbs_tdiv]
    refine Nat.div_lt_of_lt_mul ((ha.natAbs_elapsed_lt hb).trans_le ?_)
    exact Nat.mul_le_mul_right _ hk
  have hfits : (u.elapsed a b).natAbs < 2 ^ 63 := by
    cases u with
    | minutes => exact htime (60 * nanosPerSecond) (by decide)
    | hours => exact htime (3600 * nanosPerSecond) (by decide)
    | days => exact htime (secondsPerDay * nanosPerSecond) (by decide)
    | months => exact hmonths
    | years =>
      show ((a.months b).tdiv 12).natAbs < 2 ^ 63
      rw [Int.natAbs_tdiv]
      exact (Nat.div_le_self _ _).trans_lt hmonths
  exact Int64.toInt_ofInt_of_le (by omega) (by omega)

end Paywall
