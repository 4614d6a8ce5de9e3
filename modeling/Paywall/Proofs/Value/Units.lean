import Paywall.Proofs.Value.Double

/-!
# Doubles that are not negative

A double that is not negative is a whole number of units, the smallest positive double being the
unit, and doubles are compared as these numbers are. Infinity counts as the first power of two that
is too large. The sum of two such doubles has the sum of their units, rounded to 53 binary digits;
the other operations of a draw leave a double that is not negative, and a quotient of at most one.
-/

namespace Paywall

open Float.Model (UnpackedFloat Format totalExponent)
open Float.Model.UnpackedFloat (Accuracy ExtendedMantissa Sign)

/-- The units of infinity: the first power of two that no double has. -/
@[irreducible] def overflow : Nat := 2 ^ 52 * 2 ^ 2046

/-- The units of a double that is not negative. -/
inductive HasUnits : UnpackedFloat → Nat → Prop
  | zero (s : Sign) : HasUnits (.zero s) 0
  | infinity : HasUnits (.infinity .positive) overflow
  | finite {m k : Nat} {e : Int} (hm : 0 < m) :
      m < 2 ^ 53 → k = 0 ∨ 2 ^ 52 ≤ m → k ≤ 2045 → e = k - 1074 →
        HasUnits (.finite .positive m e hm) (m * 2 ^ k)

/-! ## Order -/

theorem units_lt_overflow {m k : Nat} (hm : m < 2 ^ 53) (hk : k ≤ 2045) :
    m * 2 ^ k < overflow := by
  unfold overflow
  exact mul_two_pow_lt hm (Nat.le_refl _) (Nat.lt_succ_of_le hk)

theorem overflow_le_units {m k : Nat} (hm : 2 ^ 52 ≤ m) (hk : 2046 ≤ k) : overflow ≤ m * 2 ^ k := by
  unfold overflow
  exact two_pow_mul_le hm hk

namespace HasUnits

variable {u w : UnpackedFloat} {a b : Nat}

theorem le_overflow (h : HasUnits u a) : a ≤ overflow := by
  cases h with
  | zero => exact Nat.zero_le _
  | infinity => exact Nat.le_refl _
  | finite hm hhigh hlow hk he => exact Nat.le_of_lt (units_lt_overflow hhigh hk)

theorem overflow_pos : 0 < overflow :=
  Nat.lt_of_le_of_lt (Nat.zero_le (1 * 2 ^ 0)) (units_lt_overflow (by decide) (by decide))

/-- Doubles that are not negative are in the order of their units. -/
theorem compare_eq (hu : HasUnits u a) (hw : HasUnits w b) : u.compare w = some (compare a b) := by
  cases hu with
  | zero s =>
    cases hw with
    | zero t => rfl
    | infinity => exact congrArg some (Nat.compare_eq_lt.mpr overflow_pos).symm
    | @finite m k e hm =>
      have hpos := Nat.mul_pos hm (Nat.two_pow_pos k)
      exact congrArg some (Nat.compare_eq_lt.mpr hpos).symm
  | infinity =>
    cases hw with
    | zero t => exact congrArg some (Nat.compare_eq_gt.mpr overflow_pos).symm
    | infinity => exact congrArg some (Nat.compare_eq_eq.mpr rfl).symm
    | finite hm hhigh _ hk =>
      exact congrArg some (Nat.compare_eq_gt.mpr (units_lt_overflow hhigh hk)).symm
  | @finite m j e hm hhigh hlow hj he =>
    cases hw with
    | zero t =>
      have hpos := Nat.mul_pos hm (Nat.two_pow_pos j)
      exact congrArg some (Nat.compare_eq_gt.mpr hpos).symm
    | infinity => exact congrArg some (Nat.compare_eq_lt.mpr (units_lt_overflow hhigh hj)).symm
    | finite hn hhigh' hlow' hk hf =>
      exact congrArg some (compare_then_compare hhigh hlow he hhigh' hlow' hf)

theorem lt_iff (hu : HasUnits u a) (hw : HasUnits w b) : u.lt w ↔ a < b := by
  unfold UnpackedFloat.lt
  rw [hu.compare_eq hw, beq_iff_eq, Option.some.injEq, Nat.compare_eq_lt]

theorem float_lt_iff {x y : Float} (hx : HasUnits x.toModel.unpack a)
    (hy : HasUnits y.toModel.unpack b) : x < y ↔ a < b := by
  change decide (x.toModel.unpack.lt y.toModel.unpack = true) = true ↔ a < b
  rw [decide_eq_true_iff]
  exact hx.lt_iff hy

theorem isInf_iff (h : HasUnits u a) : u.isInf ↔ a = overflow := by
  cases h with
  | zero s => exact iff_of_false Bool.false_ne_true overflow_pos.ne
  | infinity => exact iff_of_true rfl rfl
  | finite hm hhigh hlow hk => exact iff_of_false Bool.false_ne_true (units_lt_overflow hhigh hk).ne

theorem isNaN_eq_false (h : HasUnits u a) : u.isNaN = false := by
  cases h with
  | zero => rfl
  | infinity => rfl
  | finite => rfl

end HasUnits

/-! ## Bits -/

/-- Bits that stand for a finite double give it 53 digits, or fewer and the smallest exponent. -/
theorem exponent_of_unpack {b : BitVec Format.binary64.numBits} {s : Sign} {m : Nat} {e : Int}
    {hm : 0 < m} (h : UnpackedFloat.unpack .binary64 b = .finite s m e hm) :
    ∃ k : Nat, m < 2 ^ 53 ∧ (k = 0 ∨ 2 ^ 52 ≤ m) ∧ k ≤ 2045 ∧ e = k - 1074 := by
  have hbias : Format.binary64.exponentBias = 1023 := rfl
  have hmantissa : (UnpackedFloat.unpackMantissa b).toNat < 2 ^ 52 := BitVec.isLt _
  have hexponent : (UnpackedFloat.unpackExponent b).toNat < 2 ^ 11 := BitVec.isLt _
  unfold UnpackedFloat.unpack at h
  dsimp only at h
  by_cases hones : UnpackedFloat.unpackExponent b = -1#11
  · rw [if_pos hones] at h
    by_cases hzero : UnpackedFloat.unpackMantissa b = 0#52
    · rw [if_pos hzero] at h
      cases h
    · rw [if_neg hzero] at h
      cases h
  · rw [if_neg hones] at h
    by_cases hleast : UnpackedFloat.unpackExponent b = 0#11
    · rw [if_pos hleast] at h
      by_cases hzero : UnpackedFloat.unpackMantissa b = 0#52
      · rw [dif_pos hzero] at h
        cases h
      · rw [dif_neg hzero, UnpackedFloat.finite.injEq, hleast, hbias] at h
        obtain ⟨-, rfl, rfl⟩ := h
        exact ⟨0, by omega, .inl rfl, by omega, by decide⟩
    · rw [if_neg hleast, UnpackedFloat.finite.injEq, hbias, toNat_one_append] at h
      obtain ⟨-, rfl, rfl⟩ := h
      have hpos : (UnpackedFloat.unpackExponent b).toNat ≠ 0 := fun hzero =>
        hleast (BitVec.eq_of_toNat_eq hzero)
      have hlast : (UnpackedFloat.unpackExponent b).toNat ≠ 2047 := fun hlast =>
        hones (BitVec.eq_of_toNat_eq hlast)
      exact ⟨(UnpackedFloat.unpackExponent b).toNat - 1, by omega, .inr (by omega), by omega,
        by omega⟩

/-- What is neither negative nor no number at all has units. -/
theorem exists_hasUnits_unpack {f : Float.Model} (hnan : f.unpack.isNaN = false)
    (hneg : f.unpack.lt (.zero .positive) = false) : ∃ n, HasUnits f.unpack n := by
  cases hf : f.unpack with
  | notANumber =>
    rw [hf] at hnan
    cases hnan
  | infinity s =>
    cases s with
    | negative =>
      rw [hf] at hneg
      cases hneg
    | positive => exact ⟨_, .infinity⟩
  | zero s => exact ⟨0, .zero s⟩
  | finite s m e hm =>
    cases s with
    | negative =>
      rw [hf] at hneg
      cases hneg
    | positive =>
      obtain ⟨k, hhigh, hlow, hk, he⟩ := exponent_of_unpack hf
      exact ⟨_, .finite hm hhigh hlow hk he⟩

/-- A double that gets too large becomes infinity. -/
theorem hasUnits_pack {m k : Nat} {e : Int} (hm : 0 < m) (hhigh : m < 2 ^ 53)
    (hlow : k = 0 ∨ 2 ^ 52 ≤ m) (he : e = k - 1074) :
    HasUnits (Float.Model.pack (.finite .positive m e hm)).unpack (min (m * 2 ^ k) overflow) := by
  by_cases hk : k ≤ 2045
  · rw [unpack_pack_finite .positive hm hhigh hlow hk he,
      Nat.min_eq_left (Nat.le_of_lt (units_lt_overflow hhigh hk))]
    exact .finite hm hhigh hlow hk he
  · have hlarge : overflow ≤ m * 2 ^ k :=
      overflow_le_units (hlow.resolve_left (by omega)) (by omega)
    have hinfinity : UnpackedFloat.pack .binary64 (.finite .positive m e hm) =
        UnpackedFloat.packedInfinity .binary64 .positive := by
      have hbias : Format.binary64.exponentBias = 1023 := rfl
      unfold UnpackedFloat.pack
      dsimp only
      rw [hbias, if_pos (by omega)]
    rw [Nat.min_eq_right hlarge]
    show HasUnits (UnpackedFloat.unpack .binary64 (UnpackedFloat.pack .binary64 _)) _
    rw [hinfinity]
    exact .infinity

theorem HasUnits.unpack_pack {u : UnpackedFloat} {n : Nat} (h : HasUnits u n) :
    (Float.Model.pack u).unpack = u := by
  cases h with
  | zero s => cases s <;> rfl
  | infinity => rfl
  | finite hm hhigh hlow hk he => exact unpack_pack_finite .positive hm hhigh hlow hk he

theorem HasUnits.pack_eq {u v : UnpackedFloat} {n : Nat} (h : HasUnits u n) (heq : v = u) :
    HasUnits (Float.Model.pack v).unpack n := by
  rw [heq, h.unpack_pack]
  exact h

/-! ## Rounding -/

/-- Nothing is rounded of what a double can hold. -/
theorem HasUnits.roundTo53_eq {u : UnpackedFloat} {n : Nat} (h : HasUnits u n) :
    roundTo53 n = n := by
  cases h with
  | zero => rfl
  | infinity =>
    unfold overflow
    exact roundTo53_mul_two_pow (by decide) 2046
  | @finite m k => exact roundTo53_mul_two_pow ‹_› k

theorem mantissa_ofMantissaAndAccuracy (q : Nat) (accuracy : Accuracy) :
    (ExtendedMantissa.ofMantissaAndAccuracy q accuracy).mantissa = q := by
  cases accuracy with
  | exact => rfl
  | inexact o => cases o <;> rfl

/-- A rounded mantissa of one digit too many ends in zero, so nothing is lost if it is shifted. -/
theorem hasUnits_carry {r t : Nat} {e : Int} (hhigh : r ≤ 2 ^ 53) (hlow : t = 0 ∨ 2 ^ 52 ≤ r)
    (he : e = t - 1074) :
    HasUnits (Float.Model.pack (if h : r / 2 ^ surplus r = 0 then .zero .positive
      else .finite .positive (r / 2 ^ surplus r) (e + surplus r) (Nat.pos_of_ne_zero h))).unpack
      (min (r * 2 ^ t) overflow) := by
  have hvalue : r / 2 ^ surplus r * 2 ^ (surplus r + t) = r * 2 ^ t := by
    rw [pow_add, ← Nat.mul_assoc, div_two_pow_surplus_mul hhigh]
  by_cases hzero : r / 2 ^ surplus r = 0
  · rw [dif_pos hzero, ← hvalue, hzero, Nat.zero_mul, Nat.zero_min]
    exact .zero .positive
  · have hnormal : surplus r + t = 0 ∨ 2 ^ 52 ≤ r / 2 ^ surplus r := by
      rcases Nat.lt_or_ge r (2 ^ 52) with hsmall | hlarge
      · refine .inl ?_
        rw [surplus_of_lt (hsmall.trans (by decide))]
        omega
      · exact .inr (le_div_two_pow_surplus hlarge)
    rw [dif_neg hzero, ← hvalue]
    exact hasUnits_pack _ (div_two_pow_surplus_lt r) hnormal (by omega)

/-- A quotient `n / d` that is given with at least 53 digits or a small exponent is rounded to the
multiples of a power of two, and what is rounded has units again. -/
theorem hasUnits_roundWithAccuracy {q n d k t : Nat} {e : Int} {accuracy : Accuracy} (hd : 0 < d)
    (hq : IsQuotient (ExtendedMantissa.ofMantissaAndAccuracy q accuracy) n d)
    (hdigits : 52 ≤ q.log2 ∨ e ≤ -1074) (hk : (k : Int) = max (q.log2 + e - 52) (-1074) - e)
    (ht : (t : Int) = e + k + 1074) :
    HasUnits (Float.Model.pack
      (.roundWithAccuracy .binary64 .positive q e accuracy)).unpack
      (min (roundHalfEven n (d * 2 ^ k) * 2 ^ t) overflow) := by
  have hpow := Nat.two_pow_pos k
  have hmantissa : n / (d * 2 ^ k) = q / 2 ^ k := by
    rw [← Nat.div_div_eq_div_mul, ← hq.mantissa, mantissa_ofMantissaAndAccuracy]
  have hhigh : roundHalfEven n (d * 2 ^ k) ≤ 2 ^ 53 := by
    have hlt : q / 2 ^ k < 2 ^ 53 := by
      rw [Nat.div_lt_iff_lt_mul hpow, ← pow_add]
      exact Nat.lt_log2_self.trans_le (Nat.pow_le_pow_right (by decide) (by omega))
    rw [← hmantissa] at hlt
    exact (roundHalfEven_le _ _).trans hlt
  have hlow : t = 0 ∨ 2 ^ 52 ≤ roundHalfEven n (d * 2 ^ k) := by
    rcases Nat.eq_zero_or_pos t with hzero | hpos
    · exact .inl hzero
    · have hq0 : q ≠ 0 := by
        rintro rfl
        have hlog : Nat.log2 0 = 0 := rfl
        omega
      refine .inr (Nat.le_trans ?_ (div_le_roundHalfEven _ _))
      rw [hmantissa, Nat.le_div_iff_mul_le hpow, ← pow_add, ← Nat.le_log2 hq0]
      omega
  unfold UnpackedFloat.roundWithAccuracy
  rw [shiftToTargetExponent_eq (k := k) (by omega)]
  dsimp only
  rw [(hq.shiftRight hd k).roundedMantissa (Nat.mul_pos hd hpow)]
  rw [shiftToTargetExponent_surplus (by omega)]
  dsimp only
  rw [(isQuotient_shiftRight _ _).mantissa]
  exact hasUnits_carry hhigh hlow (by omega)

theorem exists_hasUnits_roundWithAccuracy {q n d : Nat} {e : Int} {accuracy : Accuracy} (hd : 0 < d)
    (hq : IsQuotient (ExtendedMantissa.ofMantissaAndAccuracy q accuracy) n d)
    (hdigits : 52 ≤ q.log2 ∨ e ≤ -1074) :
    ∃ k t : Nat, (t : Int) = e + k + 1074 ∧ (t : Int) = max (q.log2 + e - 52) (-1074) + 1074 ∧
      HasUnits (Float.Model.pack (.roundWithAccuracy .binary64 .positive q e accuracy)).unpack
        (min (roundHalfEven n (d * 2 ^ k) * 2 ^ t) overflow) := by
  obtain ⟨k, hk⟩ := Int.eq_ofNat_of_zero_le
    (show 0 ≤ max (q.log2 + e - 52) (-1074) - e by omega)
  obtain ⟨t, ht⟩ := Int.eq_ofNat_of_zero_le (show 0 ≤ e + k + 1074 by omega)
  exact ⟨k, t, ht.symm, by omega, hasUnits_roundWithAccuracy hd hq hdigits hk.symm ht.symm⟩

/-- A whole number of units is rounded to 53 digits. -/
theorem hasUnits_round {m a : Nat} {e : Int} (hm : m ≠ 0) (he : e = a - 1074) :
    HasUnits (Float.Model.pack (.round .binary64 .positive m e)).unpack
      (min (roundTo53 (m * 2 ^ a)) overflow) := by
  unfold UnpackedFloat.round UnpackedFloat.decreaseExponent
  dsimp only
  rw [targetExponent_eq, Nat.shiftLeft_eq]
  generalize hj : (e - max (m.log2 + e - 52) (-1074)).toNat = j
  have hdigits := log2_mul_two_pow hm
  have hsurplus : surplus (m * 2 ^ a) = m.log2 + a - 52 := by
    rw [surplus, hdigits]
  obtain ⟨k, hk⟩ : ∃ k, surplus (m * 2 ^ a) = k + (a - j) := ⟨surplus (m * 2 ^ a) + j - a, by omega⟩
  have hround := hasUnits_roundWithAccuracy Nat.one_pos (isQuotient_exact (m * 2 ^ j))
    (e := e - j) (k := k) (t := surplus (m * 2 ^ a)) (by rw [hdigits]; omega)
    (by rw [hdigits]; omega) (by omega)
  have hvalue : roundHalfEven (m * 2 ^ j) (1 * 2 ^ k) * 2 ^ surplus (m * 2 ^ a) =
      roundTo53 (m * 2 ^ a) := by
    have hsplit : m * 2 ^ a = m * 2 ^ j * 2 ^ (a - j) := by
      rw [Nat.mul_assoc, ← pow_add, Nat.add_sub_of_le (by omega)]
    rw [roundTo53, hk, pow_add, hsplit, roundHalfEven_mul_mul _ _ (Nat.two_pow_pos _), Nat.one_mul]
  rwa [hvalue] at hround

theorem hasUnits_normalize (m : Nat) {a : Nat} {e : Int} (he : e = a - 1074) (s : Sign) :
    HasUnits (Float.Model.pack (.normalize .binary64 m e s)).unpack
      (min (roundTo53 (m * 2 ^ a)) overflow) := by
  by_cases hm : m = 0
  · rw [hm, Nat.zero_mul]
    exact (HasUnits.zero s).pack_eq rfl
  · have hpos : compare (m : Int) 0 = .gt := by
      rw [Int.compare_eq_gt]
      omega
    have hround := hasUnits_round hm he
    unfold UnpackedFloat.normalize
    rw [hpos]
    exact hround

/-! ## Sum, product and quotient -/

theorem HasUnits.min_roundTo53 {u : UnpackedFloat} {n : Nat} (h : HasUnits u n) :
    min (roundTo53 n) overflow = n := by
  rw [h.roundTo53_eq, Nat.min_eq_left h.le_overflow]

theorem min_roundTo53_of_overflow_le {n : Nat} (h : overflow ≤ n) :
    min (roundTo53 n) overflow = overflow := by
  have hle := roundTo53_mono h
  rw [HasUnits.infinity.roundTo53_eq] at hle
  exact Nat.min_eq_right hle

/-- Behind `2 ^ 53` the next number is not a double. -/
theorem roundTo53_add_le {m n j : Nat} (hm : m ≤ 2 ^ 53 * 2 ^ j) (hn : n ≤ 2 ^ j) :
    roundTo53 (m + n) ≤ 2 ^ 53 * 2 ^ j := by
  have hle : m + n ≤ (2 ^ 53 + 1) * 2 ^ j := by
    rw [Nat.succ_mul]
    exact Nat.add_le_add hm hn
  have hlog : 52 ≤ Nat.log2 (2 ^ 53 + 1) + j := by
    rw [show Nat.log2 (2 ^ 53 + 1) = 53 by decide +kernel]
    omega
  calc roundTo53 (m + n) ≤ roundTo53 ((2 ^ 53 + 1) * 2 ^ j) := roundTo53_mono hle
    _ = roundTo53 (2 ^ 53 + 1) * 2 ^ j := roundHalfEven_mul_two_pow (Nat.succ_ne_zero _) hlog
    _ = 2 ^ 53 * 2 ^ j := by rw [show roundTo53 (2 ^ 53 + 1) = 2 ^ 53 by decide +kernel]

theorem hasUnits_add_finite {m n j k : Nat} {e f : Int} (hm : 0 < m) (hn : 0 < n)
    (he : e = j - 1074) (hf : f = k - 1074) :
    HasUnits (Float.Model.pack (.add .binary64 (.finite .positive m e hm)
      (.finite .positive n f hn))).unpack (min (roundTo53 (m * 2 ^ j + n * 2 ^ k)) overflow) := by
  have hexponent : min e f = (min j k : Nat) - 1074 := by omega
  have hfirst : (e - min e f).toNat = j - min j k := by omega
  have hsecond : (f - min e f).toNat = k - min j k := by omega
  have hvalue : (m * 2 ^ (j - min j k) + n * 2 ^ (k - min j k)) * 2 ^ min j k =
      m * 2 ^ j + n * 2 ^ k := by
    rw [Nat.add_mul, Nat.mul_assoc, ← pow_add, Nat.mul_assoc, ← pow_add,
      Nat.sub_add_cancel (Nat.min_le_left j k), Nat.sub_add_cancel (Nat.min_le_right j k)]
  have hsum := hasUnits_normalize (m * 2 ^ (j - min j k) + n * 2 ^ (k - min j k)) hexponent
    .positive
  rw [hvalue] at hsum
  unfold UnpackedFloat.add UnpackedFloat.decreaseExponent
  dsimp only
  rw [hfirst, hsecond, Nat.shiftLeft_eq, Nat.shiftLeft_eq]
  exact hsum

/-- The sum has the rounded sum of the units. -/
theorem HasUnits.add {u w : UnpackedFloat} {a b : Nat} (hu : HasUnits u a) (hw : HasUnits w b) :
    HasUnits (Float.Model.pack (.add .binary64 u w)).unpack
      (min (roundTo53 (a + b)) overflow) := by
  cases hu with
  | zero s =>
    rw [Nat.zero_add, hw.min_roundTo53]
    cases hw with
    | zero t => cases s <;> cases t <;> exact (HasUnits.zero _).pack_eq rfl
    | infinity => exact HasUnits.infinity.pack_eq rfl
    | finite hm hhigh hlow hk he => exact (HasUnits.finite hm hhigh hlow hk he).pack_eq rfl
  | infinity =>
    rw [min_roundTo53_of_overflow_le (Nat.le_add_right _ _)]
    cases hw <;> exact HasUnits.infinity.pack_eq rfl
  | @finite m j e hm hhigh hlow hj he =>
    have hu := HasUnits.finite hm hhigh hlow hj he
    cases hw with
    | zero t =>
      rw [Nat.add_zero, hu.min_roundTo53]
      exact hu.pack_eq rfl
    | infinity =>
      rw [min_roundTo53_of_overflow_le (Nat.le_add_left _ _)]
      exact HasUnits.infinity.pack_eq rfl
    | finite hn _ _ _ hf => exact hasUnits_add_finite hm hn he hf

theorem HasUnits.exists_mul {u w : UnpackedFloat} {a b : Nat} (hu : HasUnits u a)
    (hw : HasUnits w b) (ha : a ≠ overflow) (hb : b ≠ overflow) :
    ∃ n, HasUnits (Float.Model.pack (.mul .binary64 u w)).unpack n := by
  cases hu with
  | infinity => exact absurd rfl ha
  | zero s =>
    cases hw with
    | infinity => exact absurd rfl hb
    | zero t => exact ⟨0, (HasUnits.zero (s * t)).pack_eq rfl⟩
    | finite => exact ⟨0, (HasUnits.zero (s * .positive)).pack_eq rfl⟩
  | @finite m j e hm hhigh hlow hj he =>
    cases hw with
    | infinity => exact absurd rfl hb
    | zero t => exact ⟨0, (HasUnits.zero (.positive * t)).pack_eq rfl⟩
    | @finite n k f hn hhigh' hlow' hk hf =>
      have hne : m * n ≠ 0 := (Nat.mul_pos hm hn).ne'
      have hdigits : 52 ≤ (m * n).log2 ∨ e + f ≤ -1074 := by
        rw [Nat.le_log2 hne]
        rcases hlow with rfl | hlow
        · rcases hlow' with rfl | hlow'
          · exact .inr (by omega)
          · exact .inl (hlow'.trans (Nat.le_mul_of_pos_left n hm))
        · exact .inl (hlow.trans (Nat.le_mul_of_pos_right m hn))
      obtain ⟨_, _, -, -, hrounded⟩ :=
        exists_hasUnits_roundWithAccuracy Nat.one_pos (isQuotient_exact (m * n)) hdigits
      exact ⟨_, hrounded⟩

/-- A remainder is told by where it is in relation to the half. -/
theorem isQuotient_accuracyOfFraction (n : Nat) {d : Nat} (hd : 0 < d) :
    IsQuotient (ExtendedMantissa.ofMantissaAndAccuracy (n / d)
      (UnpackedFloat.accuracyOfFraction (n % d) d)) n d := by
  unfold UnpackedFloat.accuracyOfFraction
  by_cases hzero : n % d = 0
  · have hless : ¬ d ≤ 2 * (n % d) := by omega
    rw [if_pos hzero]
    exact ⟨rfl, iff_of_false Bool.false_ne_true hless,
      iff_of_false Bool.false_ne_true fun h => h.1 hzero⟩
  · rw [if_neg hzero]
    rcases Nat.lt_trichotomy (2 * (n % d)) d with hlt | heq | hgt
    · rw [Nat.compare_eq_lt.mpr hlt]
      exact ⟨rfl, iff_of_false Bool.false_ne_true (Nat.not_le.mpr hlt),
        iff_of_true rfl ⟨hzero, hlt.ne⟩⟩
    · rw [Nat.compare_eq_eq.mpr heq]
      exact ⟨rfl, iff_of_true rfl heq.ge, iff_of_false Bool.false_ne_true fun h => h.2 heq⟩
    · rw [Nat.compare_eq_gt.mpr hgt]
      exact ⟨rfl, iff_of_true rfl hgt.le, iff_of_true rfl ⟨hzero, hgt.ne'⟩⟩

/-- How far a dividend has to be shifted for 53 digits of the quotient. -/
theorem two_pow_le_div {m n s : Nat} (hm : m ≠ 0) (hn : n ≠ 0)
    (h : n.log2 + 53 ≤ m.log2 + s) : 2 ^ 52 ≤ m * 2 ^ s / n := by
  rw [Nat.le_div_iff_mul_le (Nat.pos_of_ne_zero hn)]
  calc 2 ^ 52 * n ≤ 2 ^ 52 * 2 ^ (n.log2 + 1) := Nat.mul_le_mul_left _ Nat.lt_log2_self.le
    _ = 2 ^ (n.log2 + 53) := by ring
    _ ≤ 2 ^ (m.log2 + s) := Nat.pow_le_pow_right Nat.two_pos h
    _ = 2 ^ m.log2 * 2 ^ s := pow_add 2 _ _
    _ ≤ m * 2 ^ s := Nat.mul_le_mul_right _ (Nat.log2_self_le hm)

/-- A shift of the dividend is made up for by the divisor's. -/
theorem mul_two_pow_le_of_add_eq {m n j k s y : Nat} (hle : m * 2 ^ j ≤ n * 2 ^ k)
    (h : s + k = j + y) : m * 2 ^ s ≤ n * 2 ^ y := by
  refine Nat.le_of_mul_le_mul_right ?_ (Nat.two_pow_pos k)
  calc m * 2 ^ s * 2 ^ k = m * 2 ^ j * 2 ^ y := by
        rw [Nat.mul_assoc, ← pow_add, h, pow_add, Nat.mul_assoc]
    _ ≤ n * 2 ^ k * 2 ^ y := Nat.mul_le_mul_right _ hle
    _ = n * 2 ^ y * 2 ^ k := Nat.mul_right_comm _ _ _

theorem exists_hasUnits_div {m n j k : Nat} {e f : Int} (hm : 0 < m) (hn : 0 < n)
    (he : e = j - 1074) (hf : f = k - 1074) (hle : m * 2 ^ j ≤ n * 2 ^ k) :
    ∃ l ≤ 2 ^ 1074, HasUnits (Float.Model.pack (.div .binary64 (.finite .positive m e hm)
      (.finite .positive n f hn))).unpack l := by
  have hlog : m.log2 + j ≤ n.log2 + k := by
    have hmono := log2_mono hle
    rwa [log2_mul_two_pow hm.ne', log2_mul_two_pow hn.ne'] at hmono
  unfold UnpackedFloat.div UnpackedFloat.divCore
  dsimp only
  rw [targetExponent_binary64, totalExponent, totalExponent, Nat.shiftLeft_eq]
  generalize hx : min (e - f) (max ((m.log2 : Int) + 1 + e - (n.log2 + 1 + f) - 53) (-1074)) = x
  generalize hs : (e - f - x).toNat = s
  obtain ⟨y, hy⟩ := Int.eq_ofNat_of_zero_le (show 0 ≤ -x by omega)
  have hquotient : m * 2 ^ s ≤ n * 2 ^ y := mul_two_pow_le_of_add_eq hle (by omega)
  have hdigits : 52 ≤ (m * 2 ^ s / n).log2 ∨ x ≤ -1074 := by
    rcases Int.lt_or_le (-1074) x with hlarge | hsmall
    · have hlow := two_pow_le_div (s := s) hm.ne' hn.ne' (by omega)
      exact .inl ((Nat.le_log2 ((Nat.two_pow_pos 52).trans_le hlow).ne').mpr hlow)
    · exact .inr hsmall
  have hone : (m * 2 ^ s / n).log2 ≤ y := by
    have hmono := log2_mono (Nat.div_le_of_le_mul hquotient)
    rwa [Nat.log2_two_pow] at hmono
  obtain ⟨i, t, ht, hmax, hrounded⟩ := exists_hasUnits_roundWithAccuracy hn
    (isQuotient_accuracyOfFraction (m * 2 ^ s) hn) hdigits
  refine ⟨_, (Nat.min_le_left _ _).trans ?_, hrounded⟩
  have hbound : roundHalfEven (m * 2 ^ s) (n * 2 ^ i) ≤ 2 ^ (1074 - t) := by
    refine roundHalfEven_le_of_le (Nat.mul_pos hn (Nat.two_pow_pos i)) (hquotient.trans_eq ?_)
    rw [show y = i + (1074 - t) by omega]
    ring
  calc roundHalfEven (m * 2 ^ s) (n * 2 ^ i) * 2 ^ t ≤ 2 ^ (1074 - t) * 2 ^ t :=
        Nat.mul_le_mul_right _ hbound
    _ = 2 ^ 1074 := by rw [← pow_add, Nat.sub_add_cancel (by omega)]

/-- A number that is divided by one that is not smaller gives one at most, and zero gives zero. -/
theorem HasUnits.exists_div {u w : UnpackedFloat} {a b : Nat} (hu : HasUnits u a)
    (hw : HasUnits w b) (hpos : 0 < b) (hfinite : b ≠ overflow) (hle : a ≤ b) :
    ∃ n ≤ 2 ^ 1074, HasUnits (Float.Model.pack (.div .binary64 u w)).unpack n ∧
      (0 < n → 0 < a) := by
  cases hw with
  | zero => exact absurd hpos (Nat.lt_irrefl 0)
  | infinity => exact absurd rfl hfinite
  | @finite n k f hn hhigh hlow hk hf =>
    cases hu with
    | infinity => exact absurd hle (Nat.not_le.mpr (units_lt_overflow hhigh hk))
    | zero s => exact ⟨0, Nat.zero_le _, (HasUnits.zero (s / .positive)).pack_eq rfl, id⟩
    | @finite m j e hm _ _ _ he =>
      obtain ⟨l, hl, hunits⟩ := exists_hasUnits_div hm hn he hf hle
      exact ⟨l, hl, hunits, fun _ => Nat.mul_pos hm (Nat.two_pow_pos j)⟩

end Paywall
