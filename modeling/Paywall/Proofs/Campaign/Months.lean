import Mathlib.Algebra.Order.Group.Nat
import Mathlib.Algebra.Order.Group.Int
import Mathlib.Data.Prod.Lex
import Paywall.Campaign.Elapsed
import Paywall.Proofs.Campaign.Window
import Paywall.Proofs.Time.Calendar

/-!
# Whole months

An instant has its place in a month: the day, and then the time of day. The whole months from an
instant to a later one are as many months as its place can be moved forward without passing the
later one, whether or not the months on the way have such a day. A year is twelve of them.
-/

namespace Paywall

namespace Instant

variable {a b c : Instant}

/-! ## Places in the calendar -/

/-- The place of an instant within its month: the day, then the time of day. -/
def placeInMonth (t : Instant) : ℕ ×ₗ ℤ ×ₗ ℕ := toLex (t.date.day, toLex (t.secondOfDay, t.nanos))

/-- The place of an instant in the calendar if it is moved by a number of months: the month first,
then the place within it. There need not be such a day. -/
def place (t : Instant) (months : ℤ) : ℤ ×ₗ ℕ ×ₗ ℤ ×ₗ ℕ :=
  toLex (t.date.monthNumber + months, t.placeInMonth)

theorem earlierInMonth_iff : a.earlierInMonth b ↔ a.placeInMonth < b.placeInMonth := by
  unfold earlierInMonth placeInMonth
  rw [Prod.Lex.toLex_lt_toLex, Prod.Lex.toLex_lt_toLex]
  simp

theorem place_le_place {m n : ℤ} :
    a.place m ≤ b.place n ↔ a.date.monthNumber + m < b.date.monthNumber + n ∨
      a.date.monthNumber + m = b.date.monthNumber + n ∧ a.placeInMonth ≤ b.placeInMonth :=
  Prod.Lex.toLex_le_toLex

theorem place_lt_place {m n : ℤ} :
    a.place m < b.place n ↔ a.date.monthNumber + m < b.date.monthNumber + n ∨
      a.date.monthNumber + m = b.date.monthNumber + n ∧ a.placeInMonth < b.placeInMonth :=
  Prod.Lex.toLex_lt_toLex

/-- Two instants that are moved by the same number of months stay in their order. -/
theorem place_add_le_place_add {m n : ℤ} (k : ℤ) (h : a.place m ≤ b.place n) :
    a.place (m + k) ≤ b.place (n + k) := by
  rw [place_le_place] at h ⊢
  rcases h with hmonth | ⟨hmonth, hplace⟩
  · exact .inl (by omega)
  · exact .inr ⟨by omega, hplace⟩

theorem le_of_place_lt {m n : ℤ} (h : a.place m < a.place (n + 1)) : m ≤ n := by
  rcases place_lt_place.mp h with hmonth | ⟨-, hplace⟩
  · omega
  · exact absurd hplace (lt_irrefl _)

theorem isValid_date (t : Instant) : t.date.isValid := (Date.ofDayNumber_spec t.dayNumber).2

theorem dayNumber_date (t : Instant) : t.date.dayNumber = t.dayNumber :=
  (Date.ofDayNumber_spec t.dayNumber).1

/-- The order of instants is that of their places. -/
theorem place_le_of_le (h : a ≤ b) : a.place 0 ≤ b.place 0 := by
  have hseconds : a.seconds = a.dayNumber * secondsPerDay + a.secondOfDay :=
    (Int.mul_comm _ _ ▸ Int.mul_ediv_add_emod a.seconds secondsPerDay).symm
  have hseconds' : b.seconds = b.dayNumber * secondsPerDay + b.secondOfDay :=
    (Int.mul_comm _ _ ▸ Int.mul_ediv_add_emod b.seconds secondsPerDay).symm
  rw [le_iff] at h
  rw [place_le_place, Int.add_zero, Int.add_zero]
  have hday : a.dayNumber ≤ b.dayNumber := Int.ediv_le_ediv (by decide) (by omega)
  rcases Int.lt_or_eq_of_le hday with hlt | heq
  · rw [← dayNumber_date, ← dayNumber_date] at hlt
    refine (Date.monthNumber_of_dayNumber_lt a.isValid_date b.isValid_date hlt).imp_right ?_
    rintro ⟨hmonth, hday⟩
    exact ⟨hmonth, (Prod.Lex.toLex_le_toLex.mpr (.inl hday))⟩
  · have hdate : a.date = b.date := congrArg Date.ofDayNumber heq
    refine .inr ⟨congrArg Date.monthNumber hdate, Prod.Lex.toLex_le_toLex.mpr (.inr ⟨?_, ?_⟩)⟩
    · exact congrArg Date.day hdate
    · rw [Prod.Lex.toLex_le_toLex]
      show a.secondOfDay < b.secondOfDay ∨ a.secondOfDay = b.secondOfDay ∧ a.nanos ≤ b.nanos
      rw [heq] at hseconds
      omega

/-! ## Months that fit -/

/-- Whether a number of whole months fits between two instants, and no further one. -/
def SpansMonths (a b : Instant) (m : ℤ) : Prop :=
  0 ≤ m ∧ a.place m ≤ b.place 0 ∧ b.place 0 < a.place (m + 1)

theorem SpansMonths.le {m n : ℤ} (hm : a.place m ≤ b.place 0) (hn : a.SpansMonths b n) : m ≤ n :=
  le_of_place_lt (hm.trans_lt hn.2.2)

theorem SpansMonths.unique {m n : ℤ} (hm : a.SpansMonths b m) (hn : a.SpansMonths b n) : m = n :=
  Int.le_antisymm (hn.le hm.2.1) (hm.le hn.2.1)

theorem monthsUntil_eq (a b : Instant) : a.monthsUntil b =
    if 0 < b.date.monthNumber - a.date.monthNumber ∧ b.earlierInMonth a
    then b.date.monthNumber - a.date.monthNumber - 1
    else b.date.monthNumber - a.date.monthNumber := by
  have hmonths : (b.date.year - a.date.year) * 12 + ((b.date.month : Int) - a.date.month) =
      b.date.monthNumber - a.date.monthNumber := by
    unfold Date.monthNumber
    omega
  unfold monthsUntil
  rw [hmonths]

theorem spansMonths_monthsUntil (h : a ≤ b) : a.SpansMonths b (a.monthsUntil b) := by
  have hplace := place_le_place.mp (place_le_of_le h)
  have hmonth : a.date.monthNumber ≤ b.date.monthNumber := by
    rcases hplace with hmonth | ⟨hmonth, -⟩ <;> omega
  rw [monthsUntil_eq]
  split
  · next hearly =>
    obtain ⟨hgap, hearly⟩ := hearly
    rw [earlierInMonth_iff] at hearly
    exact ⟨by omega, place_le_place.mpr (.inl (by omega)),
      place_lt_place.mpr (.inr ⟨by omega, hearly⟩)⟩
  · next hlate =>
    have hreached : a.placeInMonth ≤ b.placeInMonth := by
      rcases hplace with hlater | ⟨-, hreached⟩
      · exact not_lt.mp fun hearly => hlate ⟨by omega, earlierInMonth_iff.mpr hearly⟩
      · exact hreached
    exact ⟨by omega, place_le_place.mpr (.inr ⟨by omega, hreached⟩),
      place_lt_place.mpr (.inl (by omega))⟩

theorem not_lt_of_le (h : a ≤ b) : ¬ b < a := by
  rw [le_iff] at h
  show ¬ (b.seconds < a.seconds ∨ b.seconds = a.seconds ∧ b.nanos < a.nanos)
  omega

theorem spansMonths_months (h : a ≤ b) : a.SpansMonths b (a.months b) := by
  unfold months
  rw [if_neg (not_lt_of_le h)]
  exact spansMonths_monthsUntil h

end Instant

/-! ## Months and years that have passed -/

/-- The months from an instant to one that is not before it are those that fit between the two, and
twelve of them are a year. -/
theorem TimeUnit.spansMonths_iff_elapsed {a b : Instant} (h : a ≤ b) :
    (∀ m, a.SpansMonths b m ↔ m = TimeUnit.months.elapsed a b) ∧
      TimeUnit.years.elapsed a b = TimeUnit.months.elapsed a b / 12 := by
  have hspans : a.SpansMonths b (TimeUnit.months.elapsed a b) := Instant.spansMonths_months h
  refine ⟨fun m => ⟨fun hm => hm.unique hspans, ?_⟩, Int.tdiv_eq_ediv_of_nonneg hspans.1⟩
  rintro rfl
  exact hspans

/-- From noon of 31 January 2023 to an hour before noon of 1 March 2024. -/
theorem TimeUnit.spansMonths_iff_thirteen :
    let january : Instant := ⟨1675166400, 0⟩
    let march : Instant := ⟨1709290800, 0⟩
    january ≤ march ∧ (∀ m, january.SpansMonths march m ↔ m = 13) ∧
      TimeUnit.years.elapsed january march = 1 := by
  have hmonths : TimeUnit.months.elapsed ⟨1675166400, 0⟩ ⟨1709290800, 0⟩ = 13 := by decide +kernel
  have h := TimeUnit.spansMonths_iff_elapsed (a := ⟨1675166400, 0⟩) (b := ⟨1709290800, 0⟩)
    (by decide)
  rw [hmonths] at h
  exact ⟨by decide, h.1, h.2⟩

end Paywall
