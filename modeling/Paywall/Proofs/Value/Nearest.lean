import Mathlib.Tactic.Ring

/-!
# Rounding to 53 binary digits

A double has 53 binary digits. `nearestDouble` rounds a whole number to as many, from the middle to
the even digit. Numbers up to `2 ^ 53` have no digit to lose, and rounding never turns the order of
two numbers around, though it may make them equal.
-/

namespace Paywall

/-! ## Quotients -/

/-- `n / d`, rounded to the nearest whole number, and from the middle to the even one. -/
def roundHalfEven (n d : Nat) : Nat :=
  if 2 * (n % d) < d ∨ 2 * (n % d) = d ∧ n / d % 2 = 0 then n / d else n / d + 1

theorem div_le_roundHalfEven (n d : Nat) : n / d ≤ roundHalfEven n d := by
  unfold roundHalfEven
  split
  · exact Nat.le_refl _
  · exact Nat.le_succ _

theorem roundHalfEven_le (n d : Nat) : roundHalfEven n d ≤ n / d + 1 := by
  unfold roundHalfEven
  split
  · exact Nat.le_succ _
  · exact Nat.le_refl _

theorem roundHalfEven_mul (q : Nat) {d : Nat} (hd : 0 < d) : roundHalfEven (q * d) d = q := by
  unfold roundHalfEven
  rw [Nat.mul_mod_left, Nat.mul_div_cancel q hd, if_pos (.inl hd)]

/-- A common factor does not count. -/
theorem roundHalfEven_mul_mul (n d : Nat) {c : Nat} (hc : 0 < c) :
    roundHalfEven (n * c) (d * c) = roundHalfEven n d := by
  have hless : 2 * (n % d * c) < d * c ↔ 2 * (n % d) < d := by
    rw [← Nat.mul_assoc]
    exact Nat.mul_lt_mul_right hc
  have hhalf : 2 * (n % d * c) = d * c ↔ 2 * (n % d) = d := by
    rw [← Nat.mul_assoc]
    exact Nat.mul_left_inj hc.ne'
  unfold roundHalfEven
  rw [Nat.mul_mod_mul_right, Nat.mul_div_mul_right n d hc]
  simp only [hless, hhalf]

/-- No multiple of `d` is nearer to `n`. -/
theorem natAbs_roundHalfEven_sub_le {n d x : Nat} (hd : 0 < d)
    (hx : x ≤ n / d * d ∨ (n / d + 1) * d ≤ x) :
    ((roundHalfEven n d * d : Nat) - n : Int).natAbs ≤ (x - n : Int).natAbs := by
  have hn := Nat.div_add_mod' n d
  have hr := Nat.mod_lt n hd
  rw [Nat.succ_mul] at hx
  unfold roundHalfEven
  split
  · omega
  · rw [Nat.succ_mul]
    omega

theorem roundHalfEven_mono {n m : Nat} (d : Nat) (h : n ≤ m) :
    roundHalfEven n d ≤ roundHalfEven m d := by
  rcases Nat.eq_or_lt_of_le (Nat.div_le_div_right (c := d) h) with hquotient | hquotient
  · have hn := Nat.div_add_mod n d
    have hm := Nat.div_add_mod m d
    rw [hquotient] at hn
    unfold roundHalfEven
    rw [hquotient]
    split <;> split <;> omega
  · exact (roundHalfEven_le n d).trans (hquotient.trans_le (div_le_roundHalfEven m d))

theorem roundHalfEven_le_of_le {n d q : Nat} (hd : 0 < d) (h : n ≤ q * d) :
    roundHalfEven n d ≤ q := by
  have hmono := roundHalfEven_mono d h
  rwa [roundHalfEven_mul q hd] at hmono

/-! ## Binary digits -/

theorem log2_mono {n m : Nat} (h : n ≤ m) : n.log2 ≤ m.log2 := by
  by_cases hn : n = 0
  · rw [hn]
    exact Nat.zero_le _
  · exact (Nat.le_log2 (by omega)).mpr ((Nat.log2_self_le hn).trans h)

/-- The number of binary digits behind the first 53. -/
def surplus (n : Nat) : Nat := n.log2 - 52

/-- Rounds to 53 binary digits. -/
def roundTo53 (n : Nat) : Nat := roundHalfEven n (2 ^ surplus n) * 2 ^ surplus n

theorem roundTo53_of_log2_le {n : Nat} (h : n.log2 ≤ 52) : roundTo53 n = n := by
  have hsurplus : surplus n = 0 := Nat.sub_eq_zero_of_le h
  have hround := roundHalfEven_mul n Nat.one_pos
  rw [Nat.mul_one] at hround
  rw [roundTo53, hsurplus, pow_zero, Nat.mul_one, hround]

theorem roundTo53_of_le {n : Nat} (h : n ≤ 2 ^ 53) : roundTo53 n = n := by
  rcases Nat.eq_or_lt_of_le h with rfl | hlt
  · decide +kernel
  · refine roundTo53_of_log2_le ?_
    by_cases hn : n = 0
    · rw [hn]
      exact Nat.zero_le _
    · exact Nat.le_of_lt_succ ((Nat.log2_lt hn).mpr hlt)

theorem div_two_pow_surplus_lt (n : Nat) : n / 2 ^ surplus n < 2 ^ 53 := by
  rw [Nat.div_lt_iff_lt_mul (Nat.two_pow_pos _), ← pow_add]
  refine Nat.lt_log2_self.trans_le (Nat.pow_le_pow_right (by decide) ?_)
  rw [surplus]
  omega

theorem surplus_of_lt {n : Nat} (h : n < 2 ^ 53) : surplus n = 0 := by
  by_cases hn : n = 0
  · rw [hn]
    rfl
  · have hlog := (Nat.log2_lt hn).mpr h
    rw [surplus]
    omega

theorem surplus_le_one {n : Nat} (h : n ≤ 2 ^ 53) : surplus n ≤ 1 := by
  have hlog : n.log2 ≤ (2 ^ 53).log2 := log2_mono h
  rw [Nat.log2_two_pow] at hlog
  rw [surplus]
  omega

/-- A number of 53 digits, or the power of two that follows, has no digit to lose. -/
theorem div_two_pow_surplus_mul {n : Nat} (h : n ≤ 2 ^ 53) :
    n / 2 ^ surplus n * 2 ^ surplus n = n := by
  rcases Nat.eq_or_lt_of_le h with rfl | hlt
  · decide +kernel
  · rw [surplus_of_lt hlt, pow_zero, Nat.div_one, Nat.mul_one]

/-- The digits that are left of a number with at least 53 are 53. -/
theorem le_div_two_pow_surplus {n : Nat} (h : 2 ^ 52 ≤ n) : 2 ^ 52 ≤ n / 2 ^ surplus n := by
  have hn : n ≠ 0 := by
    rintro rfl
    exact absurd h (by decide)
  have hlog := (Nat.le_log2 hn).mpr h
  rw [Nat.le_div_iff_mul_le (Nat.two_pow_pos _), ← pow_add, ← Nat.le_log2 hn, surplus]
  omega

theorem roundHalfEven_surplus_le (n : Nat) : roundHalfEven n (2 ^ surplus n) ≤ 2 ^ 53 :=
  (roundHalfEven_le _ _).trans (div_two_pow_surplus_lt n)

/-- Nothing is lost of a number that ends in enough zeros. -/
theorem roundTo53_mul_two_pow {m : Nat} (hm : m < 2 ^ 53) (k : Nat) :
    roundTo53 (m * 2 ^ k) = m * 2 ^ k := by
  have hle : surplus (m * 2 ^ k) ≤ k := by
    by_cases hzero : m = 0
    · rw [hzero, Nat.zero_mul]
      exact Nat.zero_le _
    · have hne : m * 2 ^ k ≠ 0 := Nat.mul_ne_zero hzero (Nat.two_pow_pos k).ne'
      have hlt : (m * 2 ^ k).log2 < 53 + k := by
        rw [Nat.log2_lt hne, pow_add]
        exact Nat.mul_lt_mul_of_pos_right hm (Nat.two_pow_pos k)
      rw [surplus]
      omega
  have hsplit : m * 2 ^ k = m * 2 ^ (k - surplus (m * 2 ^ k)) * 2 ^ surplus (m * 2 ^ k) := by
    rw [Nat.mul_assoc, ← pow_add, Nat.sub_add_cancel hle]
  have hround := roundHalfEven_mul (m * 2 ^ (k - surplus (m * 2 ^ k)))
    (Nat.two_pow_pos (surplus (m * 2 ^ k)))
  rw [← hsplit] at hround
  rw [roundTo53, hround, ← hsplit]

/-- The first digit is not among those behind the first 53. -/
theorem two_pow_log2_le_div_mul {n : Nat} (hn : n ≠ 0) :
    2 ^ n.log2 ≤ n / 2 ^ surplus n * 2 ^ surplus n := by
  have hsplit : 2 ^ n.log2 = 2 ^ (n.log2 - surplus n) * 2 ^ surplus n := by
    rw [← pow_add, Nat.sub_add_cancel (show surplus n ≤ n.log2 from Nat.sub_le _ _)]
  rw [hsplit]
  refine Nat.mul_le_mul_right _ ?_
  rw [Nat.le_div_iff_mul_le (Nat.two_pow_pos _), ← hsplit]
  exact Nat.log2_self_le hn

/-- The first digit stays where it is. -/
theorem two_pow_log2_le_roundTo53 {n : Nat} (hn : n ≠ 0) : 2 ^ n.log2 ≤ roundTo53 n :=
  (two_pow_log2_le_div_mul hn).trans (Nat.mul_le_mul_right _ (div_le_roundHalfEven _ _))

/-- Or it moves up by one place. -/
theorem roundTo53_le_two_pow (n : Nat) : roundTo53 n ≤ 2 ^ (n.log2 + 1) := by
  have hsurplus : surplus n ≤ n.log2 + 1 := (Nat.sub_le _ _).trans (Nat.le_succ _)
  have hsplit : 2 ^ (n.log2 + 1) = 2 ^ (n.log2 + 1 - surplus n) * 2 ^ surplus n := by
    rw [← pow_add, Nat.sub_add_cancel hsurplus]
  have hquotient : n / 2 ^ surplus n < 2 ^ (n.log2 + 1 - surplus n) := by
    rw [Nat.div_lt_iff_lt_mul (Nat.two_pow_pos _), ← hsplit]
    exact Nat.lt_log2_self
  rw [hsplit]
  exact Nat.mul_le_mul_right _ ((roundHalfEven_le _ _).trans hquotient)

theorem roundTo53_mono {n m : Nat} (h : n ≤ m) : roundTo53 n ≤ roundTo53 m := by
  rcases Nat.eq_or_lt_of_le (log2_mono h) with hlog | hlog
  · have hsurplus : surplus n = surplus m := congrArg (· - 52) hlog
    unfold roundTo53
    rw [hsurplus]
    exact Nat.mul_le_mul_right _ (roundHalfEven_mono _ h)
  · have hm : m ≠ 0 := by
      rintro rfl
      exact absurd hlog (Nat.not_lt_zero _)
    calc roundTo53 n ≤ 2 ^ (n.log2 + 1) := roundTo53_le_two_pow n
      _ ≤ 2 ^ m.log2 := Nat.pow_le_pow_right (by decide) hlog
      _ ≤ roundTo53 m := two_pow_log2_le_roundTo53 hm

/-! ## Whole numbers with a sign -/

/-- The double nearest to a whole number, as a whole number. -/
def nearestDouble : Int → Int
  | .ofNat n => roundTo53 n
  | .negSucc n => -(roundTo53 (n + 1) : Int)

theorem nearestDouble_of_le {z : Int} (h : z.natAbs ≤ 2 ^ 53) : nearestDouble z = z := by
  cases z with
  | ofNat n =>
    have hn : roundTo53 n = n := roundTo53_of_le h
    show (roundTo53 n : Int) = n
    rw [hn]
  | negSucc n =>
    have hn : roundTo53 (n + 1) = n + 1 := roundTo53_of_le h
    show -(roundTo53 (n + 1) : Int) = Int.negSucc n
    rw [hn]
    rfl

theorem nearestDouble_mono {a b : Int} (h : a ≤ b) : nearestDouble a ≤ nearestDouble b := by
  cases a with
  | ofNat n =>
    cases b with
    | ofNat m => exact Int.ofNat_le.mpr (roundTo53_mono (Int.ofNat_le.mp h))
    | negSucc m =>
      have hlt := (Int.negSucc_lt_zero m).trans_le (Int.natCast_nonneg n)
      exact absurd h (Int.not_le.mpr hlt)
  | negSucc n =>
    cases b with
    | ofNat m =>
      show -(roundTo53 (n + 1) : Int) ≤ roundTo53 m
      omega
    | negSucc m =>
      have hle : m + 1 ≤ n + 1 := by omega
      have := roundTo53_mono hle
      show -(roundTo53 (n + 1) : Int) ≤ -(roundTo53 (m + 1) : Int)
      omega

/-- Whether two numbers are in order, their doubles tell if they are different ones. -/
theorem compare_nearestDouble {a b : Int} (h : nearestDouble a = nearestDouble b → a = b) :
    compare (nearestDouble a) (nearestDouble b) = compare a b := by
  rcases Int.lt_trichotomy a b with hab | rfl | hab
  · have hle := nearestDouble_mono hab.le
    have hne : nearestDouble a ≠ nearestDouble b := fun heq => hab.ne (h heq)
    rw [Int.compare_eq_lt.mpr (lt_of_le_of_ne hle hne), Int.compare_eq_lt.mpr hab]
  · rw [Int.compare_eq_eq.mpr rfl, Int.compare_eq_eq.mpr rfl]
  · have hle := nearestDouble_mono hab.le
    have hne : nearestDouble b ≠ nearestDouble a := fun heq => hab.ne (h heq.symm).symm
    rw [Int.compare_eq_gt.mpr (lt_of_le_of_ne hle hne), Int.compare_eq_gt.mpr hab]

/-! ## No double is nearer -/

/-- Whether a whole number has at most 53 binary digits in front of its zeros. -/
def IsDouble (z : Int) : Prop := ∃ m e : Nat, m < 2 ^ 53 ∧ z.natAbs = m * 2 ^ e

/-- A double that is not below the first digit of `n` has no digit behind the last of `n`. -/
theorem two_pow_surplus_dvd {n m e : Nat} (hm : m < 2 ^ 53) (h : 2 ^ n.log2 ≤ m * 2 ^ e) :
    2 ^ surplus n ∣ m * 2 ^ e := by
  have hlt : 2 ^ n.log2 < 2 ^ (53 + e) := by
    rw [pow_add]
    exact h.trans_lt (Nat.mul_lt_mul_of_pos_right hm (Nat.two_pow_pos e))
  have hle : surplus n ≤ e := by
    have := (Nat.pow_lt_pow_iff_right (by decide)).mp hlt
    rw [surplus]
    omega
  exact Dvd.dvd.mul_left (Nat.pow_dvd_pow 2 hle) m

theorem natAbs_roundTo53_sub_le (n : Nat) {m : Nat} (hm : m < 2 ^ 53) (e : Nat) :
    (roundTo53 n - n : Int).natAbs ≤ ((m * 2 ^ e : Nat) - n : Int).natAbs := by
  by_cases hn : n = 0
  · rw [hn]
    exact Nat.zero_le _
  · refine natAbs_roundHalfEven_sub_le (Nat.two_pow_pos _) ?_
    rcases Nat.lt_or_ge (m * 2 ^ e) (2 ^ n.log2) with hlt | hge
    · exact .inl (hlt.le.trans (two_pow_log2_le_div_mul hn))
    · obtain ⟨t, ht⟩ := two_pow_surplus_dvd hm hge
      rw [ht, Nat.mul_comm _ t]
      rcases Nat.lt_or_ge (n / 2 ^ surplus n) t with hgt | hle
      · exact .inr (Nat.mul_le_mul_right _ hgt)
      · exact .inl (Nat.mul_le_mul_right _ hle)

theorem isDouble_roundTo53 (n : Nat) : IsDouble (roundTo53 n) := by
  rcases Nat.eq_or_lt_of_le (roundHalfEven_surplus_le n) with heq | hlt
  · refine ⟨2 ^ 52, surplus n + 1, by decide, ?_⟩
    show roundHalfEven n (2 ^ surplus n) * 2 ^ surplus n = _
    rw [heq]
    ring
  · exact ⟨roundHalfEven n (2 ^ surplus n), surplus n, hlt, rfl⟩

/-- No double is nearer to a whole number than the one it is rounded to. -/
theorem nearestDouble_nearest (z : Int) :
    IsDouble (nearestDouble z) ∧
      ∀ x, IsDouble x → (nearestDouble z - z).natAbs ≤ (x - z).natAbs := by
  cases z with
  | ofNat n =>
    refine ⟨isDouble_roundTo53 n, ?_⟩
    rintro x ⟨m, e, hm, hx⟩
    have hnearest := natAbs_roundTo53_sub_le n hm e
    rw [← hx] at hnearest
    show (roundTo53 n - n : Int).natAbs ≤ (x - n).natAbs
    omega
  | negSucc n =>
    obtain ⟨m, e, hm, hdouble⟩ := isDouble_roundTo53 (n + 1)
    refine ⟨⟨m, e, hm, ?_⟩, ?_⟩
    · show (-(roundTo53 (n + 1) : Int)).natAbs = _
      rw [Int.natAbs_neg, hdouble]
    · rintro x ⟨m, e, hm, hx⟩
      have hnearest := natAbs_roundTo53_sub_le (n + 1) hm e
      rw [← hx] at hnearest
      show (-(roundTo53 (n + 1) : Int) - Int.negSucc n).natAbs ≤ (x - Int.negSucc n).natAbs
      omega

end Paywall
