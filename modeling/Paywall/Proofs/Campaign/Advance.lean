import Mathlib.Algebra.Order.Ring.Int
import Paywall.Proofs.Campaign.Months

/-!
# Elapsed time goes with the clock

Counted from one instant the elapsed units never get fewer as the other instant moves on, and they
change their sign when the two instants are exchanged. That counts toward zero are taken in both
directions does not break this, nor does it that months are counted from the earlier instant.
-/

namespace Paywall

namespace Instant

variable {a b c : Instant}

/-! ## Nanoseconds -/

theorem leapBetween_neg (a b : Instant) : a.leapBetween b = -(b.leapBetween a) := by
  unfold leapBetween
  split_ifs <;> omega

theorem elapsed_neg (a b : Instant) : a.elapsed b = -(b.elapsed a) := by
  unfold elapsed
  rw [leapBetween_neg, ← Int.neg_sub a.seconds b.seconds, Int.neg_mul]
  omega

theorem nanos_lt (h : a.inLeapSecond = false) : a.nanos < nanosPerSecond := by
  unfold inLeapSecond at h
  simpa using h

theorem leapBetween_eq_zero (ha : a.inLeapSecond = false) (hb : b.inLeapSecond = false) :
    a.leapBetween b = 0 := by
  unfold leapBetween
  rw [ha, hb]
  simp

/-- Outside of leap seconds nanoseconds are counted without a gap. -/
theorem elapsed_mono (ha : a.inLeapSecond = false) (hb : b.inLeapSecond = false)
    (hc : c.inLeapSecond = false) (h : b ≤ c) : a.elapsed b ≤ a.elapsed c := by
  have hnanos := nanos_lt hb
  unfold elapsed
  rw [leapBetween_eq_zero ha hb, leapBetween_eq_zero ha hc]
  rw [le_iff] at h
  unfold nanosPerSecond at *
  omega

/-! ## Months -/

theorem lt_trichotomy (a b : Instant) : a < b ∨ a = b ∨ b < a := by
  obtain ⟨s, n⟩ := a
  obtain ⟨t, m⟩ := b
  show (s < t ∨ s = t ∧ n < m) ∨ Instant.mk s n = ⟨t, m⟩ ∨ t < s ∨ t = s ∧ m < n
  rw [Instant.mk.injEq]
  omega

theorem le_antisymm (hab : a ≤ b) (hba : b ≤ a) : a = b := by
  rcases lt_trichotomy a b with hlt | heq | hlt
  · exact absurd hlt (not_lt_of_le hba)
  · exact heq
  · exact absurd hlt (not_lt_of_le hab)

theorem le_or_lt (a b : Instant) : a ≤ b ∨ b < a := by
  rw [le_iff]
  show _ ∨ b.seconds < a.seconds ∨ b.seconds = a.seconds ∧ b.nanos < a.nanos
  omega

theorem le_of_lt (h : a < b) : a ≤ b := by
  change a.seconds < b.seconds ∨ a.seconds = b.seconds ∧ a.nanos < b.nanos at h
  rw [le_iff]
  omega

theorem months_of_lt (h : b < a) : a.months b = -(b.months a) := by
  have hnot := not_lt_of_le (le_of_lt h)
  unfold months
  rw [if_pos h, if_neg hnot]

theorem months_self (a : Instant) : a.months a = 0 := by
  have hspans := spansMonths_months (passes_refl a).1
  have hzero : a.SpansMonths a 0 := ⟨le_rfl, le_rfl, place_lt_place.mpr (.inl (by omega))⟩
  exact hspans.unique hzero

theorem months_neg (a b : Instant) : a.months b = -(b.months a) := by
  rcases lt_trichotomy a b with hlt | rfl | hlt
  · rw [months_of_lt hlt, Int.neg_neg]
  · rw [months_self]
    rfl
  · exact months_of_lt hlt

/-- The months to an instant are the fewer the later they begin. -/
theorem months_antitone (hbc : b ≤ c) (hca : c ≤ a) : c.months a ≤ b.months a := by
  have hplace := place_add_le_place_add (c.months a) (place_le_of_le hbc)
  rw [Int.zero_add] at hplace
  exact SpansMonths.le (hplace.trans (spansMonths_months hca).2.1)
    (spansMonths_months (le_trans hbc hca))

theorem months_mono (h : b ≤ c) : a.months b ≤ a.months c := by
  rcases le_or_lt a b with hab | hba
  · exact SpansMonths.le ((spansMonths_months hab).2.1.trans (place_le_of_le h))
      (spansMonths_months (le_trans hab h))
  · rw [months_of_lt hba]
    have hpast := (spansMonths_months (le_of_lt hba)).1
    rcases le_or_lt a c with hac | hca
    · have hfuture := (spansMonths_months hac).1
      omega
    · rw [months_of_lt hca]
      exact Int.neg_le_neg (months_antitone h (le_of_lt hca))

end Instant

/-! ## Units -/

/-- Division toward zero keeps the order, also from below zero to above it. -/
theorem tdiv_le_tdiv {k m n : Int} (hk : 0 < k) (h : m ≤ n) : m.tdiv k ≤ n.tdiv k := by
  rcases Int.le_total 0 m with hm | hm
  · rw [Int.tdiv_eq_ediv_of_nonneg hm, Int.tdiv_eq_ediv_of_nonneg (Int.le_trans hm h)]
    exact Int.ediv_le_ediv hk h
  · have hnegative : m.tdiv k = -(-m / k) := by
      rw [← Int.tdiv_eq_ediv_of_nonneg (Int.neg_nonneg_of_nonpos hm), Int.neg_tdiv, Int.neg_neg]
    rcases Int.le_total 0 n with hn | hn
    · have hquotient := Int.ediv_nonneg (Int.neg_nonneg_of_nonpos hm) (Int.le_of_lt hk)
      have hquotient' := Int.tdiv_nonneg hn (Int.le_of_lt hk)
      omega
    · have hnegative' : n.tdiv k = -(-n / k) := by
        rw [← Int.tdiv_eq_ediv_of_nonneg (Int.neg_nonneg_of_nonpos hn), Int.neg_tdiv, Int.neg_neg]
      rw [hnegative, hnegative']
      exact Int.neg_le_neg (Int.ediv_le_ediv hk (Int.neg_le_neg h))

/-- Outside of leap seconds the elapsed units go up with the instant they are counted to, and change
their sign when the two instants are exchanged. -/
theorem TimeUnit.elapsed_mono_and_neg (u : TimeUnit) {a b c : Instant}
    (ha : a.inLeapSecond = false) (hb : b.inLeapSecond = false) (hc : c.inLeapSecond = false) :
    (b ≤ c → u.elapsed a b ≤ u.elapsed a c) ∧ u.elapsed a b = -(u.elapsed b a) := by
  have htime (k : Nat) (hk : 0 < k) :
      (b ≤ c → (a.elapsed b).tdiv k ≤ (a.elapsed c).tdiv k) ∧
        (a.elapsed b).tdiv k = -((b.elapsed a).tdiv k) := by
    refine ⟨fun h => tdiv_le_tdiv (Int.ofNat_lt.mpr hk) (Instant.elapsed_mono ha hb hc h), ?_⟩
    rw [Instant.elapsed_neg, Int.neg_tdiv]
  cases u with
  | minutes => exact htime (60 * nanosPerSecond) (by decide)
  | hours => exact htime (3600 * nanosPerSecond) (by decide)
  | days => exact htime (secondsPerDay * nanosPerSecond) (by decide)
  | months => exact ⟨Instant.months_mono, Instant.months_neg a b⟩
  | years =>
    refine ⟨fun h => tdiv_le_tdiv (by decide) (Instant.months_mono h), ?_⟩
    show (a.months b).tdiv 12 = -((b.months a).tdiv 12)
    rw [Instant.months_neg, Int.neg_tdiv]

/-- From noon of 31 January 2023 back to 30 November and forward to 1 March 2024. -/
theorem TimeUnit.elapsed_mono_and_neg_fromJanuary :
    let january : Instant := ⟨1675166400, 0⟩
    let november : Instant := ⟨1669809600, 0⟩
    let march : Instant := ⟨1709290800, 0⟩
    (january.inLeapSecond = false ∧ november.inLeapSecond = false ∧
      march.inLeapSecond = false ∧ november ≤ march) ∧
      TimeUnit.months.elapsed january november = -2 ∧
      TimeUnit.months.elapsed january november ≤ TimeUnit.months.elapsed january march ∧
      TimeUnit.months.elapsed january november = -(TimeUnit.months.elapsed november january) := by
  have h := TimeUnit.elapsed_mono_and_neg .months (a := ⟨1675166400, 0⟩) (b := ⟨1669809600, 0⟩)
    (c := ⟨1709290800, 0⟩) rfl rfl rfl
  exact ⟨by decide, by decide +kernel, h.1 (by decide), h.2⟩

end Paywall
