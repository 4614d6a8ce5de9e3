import Paywall.Proofs.Value.Nearest

/-!
# Whole numbers in the order of doubles

The double that a whole number of 64 bits becomes stands for `nearestDouble` of it, so doubles of
whole numbers are compared as these are. The steps that make a double keep the mantissa at 53
digits; a shift gives the quotient and two bits that tell how it has to be rounded.
-/

namespace Paywall

open Float.Model (UnpackedFloat Format totalExponent)
open Float.Model.UnpackedFloat (Accuracy ExtendedMantissa Sign)

/-! ## Shifting and rounding -/

/-- Whether an extended mantissa is the quotient of `m` by `d`, with one bit for a remainder of at
least half of `d` and one for a remainder that is neither nothing nor half of `d`. -/
structure IsQuotient (em : ExtendedMantissa) (m d : Nat) : Prop where
  mantissa : em.mantissa = m / d
  roundBit : em.roundBit = true ↔ d ≤ 2 * (m % d)
  stickyBit : em.stickyBit = true ↔ m % d ≠ 0 ∧ 2 * (m % d) ≠ d

theorem IsQuotient.shiftRightOne {em : ExtendedMantissa} {m d : Nat} (hd : 0 < d)
    (h : IsQuotient em m d) : IsQuotient em.shiftRightOne m (d * 2) := by
  have hlt := Nat.mod_lt m hd
  have hmod : m % (d * 2) = m % d + d * (m / d % 2) := Nat.mod_mul
  have hbit : m / d % 2 = 0 ∨ m / d % 2 = 1 := by omega
  constructor
  · show em.mantissa / 2 = m / (d * 2)
    rw [h.mantissa, Nat.div_div_eq_div_mul]
  · show (em.mantissa % 2 != 0) = true ↔ _
    rw [h.mantissa, hmod]
    rcases hbit with hbit | hbit <;> rw [hbit] <;> simp <;> omega
  · show (em.roundBit || em.stickyBit) = true ↔ _
    rw [Bool.or_eq_true, h.roundBit, h.stickyBit, hmod]
    rcases hbit with hbit | hbit <;> rw [hbit] <;> omega

theorem IsQuotient.shiftRight {em : ExtendedMantissa} {m d : Nat} (hd : 0 < d)
    (h : IsQuotient em m d) (k : Nat) : IsQuotient (em >>> k) m (d * 2 ^ k) := by
  induction k with
  | zero => rwa [pow_zero, Nat.mul_one]
  | succ k ih =>
    rw [pow_succ, ← Nat.mul_assoc]
    exact ih.shiftRightOne (Nat.mul_pos hd (Nat.two_pow_pos k))

/-- Nothing is left of a mantissa that is exact. -/
theorem isQuotient_exact (m : Nat) :
    IsQuotient (ExtendedMantissa.ofMantissaAndAccuracy m .exact) m 1 := by
  have hremainder : m % 1 = 0 := Nat.mod_one m
  have hless : ¬ 1 ≤ 2 * (m % 1) := by omega
  exact ⟨(Nat.div_one m).symm, iff_of_false Bool.false_ne_true hless,
    iff_of_false Bool.false_ne_true fun h => h.1 hremainder⟩

theorem isQuotient_shiftRight (m k : Nat) :
    IsQuotient (ExtendedMantissa.ofMantissaAndAccuracy m .exact >>> k) m (2 ^ k) := by
  have hshift := (isQuotient_exact m).shiftRight Nat.one_pos k
  rwa [Nat.one_mul] at hshift

theorem IsQuotient.roundedMantissa {em : ExtendedMantissa} {m d : Nat} (hd : 0 < d)
    (h : IsQuotient em m d) : em.roundedMantissa = roundHalfEven m d := by
  have hlt := Nat.mod_lt m hd
  obtain ⟨q, r, s⟩ := em
  obtain ⟨hmantissa, hround, hsticky⟩ := h
  dsimp only at hmantissa hround hsticky
  unfold roundHalfEven
  rw [hmantissa]
  cases r <;> cases s <;>
    simp only [Bool.false_eq_true, false_iff, true_iff] at hround hsticky <;>
    simp only [ExtendedMantissa.roundedMantissa, ExtendedMantissa.accuracy,
      Accuracy.roundToNearestEven] <;>
    split <;> omega

/-- The exponent that leaves 53 digits, unless it is too small. -/
theorem targetExponent_binary64 (z : Int) :
    Format.binary64.targetExponent z = max (z - 53) (-1074) := rfl

theorem targetExponent_eq (m : Nat) (e : Int) :
    Format.binary64.targetExponent (totalExponent m e) = max (m.log2 + e - 52) (-1074) := by
  rw [targetExponent_binary64, totalExponent]
  omega

theorem shiftToTargetExponent_eq {m k : Nat} {e : Int} {accuracy : Accuracy}
    (hk : (max (m.log2 + e - 52) (-1074) - e).toNat = k) :
    UnpackedFloat.shiftToTargetExponent .binary64 m e accuracy =
      (ExtendedMantissa.ofMantissaAndAccuracy m accuracy >>> k, e + k) := by
  unfold UnpackedFloat.shiftToTargetExponent UnpackedFloat.shiftToExponent
  dsimp only
  rw [targetExponent_eq, hk]

/-- A mantissa of more than 53 digits is shifted until it has 53. -/
theorem shiftToTargetExponent_surplus {m : Nat} {e : Int} (he : -1074 ≤ e) :
    UnpackedFloat.shiftToTargetExponent .binary64 m e .exact =
      (ExtendedMantissa.ofMantissaAndAccuracy m .exact >>> surplus m, e + surplus m) := by
  refine shiftToTargetExponent_eq ?_
  rw [surplus]
  omega

/-! ## Doubles of whole numbers -/

/-- Doubles in normal form that stand for a whole number. -/
inductive StandsFor : UnpackedFloat → Int → Prop
  | zero (s : Sign) : StandsFor (.zero s) 0
  | finite (s : Sign) {m k v : Nat} {e : Int} (hm : 0 < m) :
      2 ^ 52 ≤ m → m < 2 ^ 53 → k ≤ 64 → e = k - 52 → m * 2 ^ k = v * 2 ^ 52 →
        StandsFor (.finite s m e hm) (s.apply v)

theorem log2_mul_two_pow {n : Nat} (hn : n ≠ 0) (j : Nat) : (n * 2 ^ j).log2 = n.log2 + j := by
  have hpos := Nat.two_pow_pos j
  rw [Nat.log2_eq_iff (Nat.mul_ne_zero hn hpos.ne'), Nat.add_right_comm, pow_add, pow_add]
  exact ⟨Nat.mul_le_mul_right _ (Nat.log2_self_le hn),
    Nat.mul_lt_mul_of_pos_right Nat.lt_log2_self hpos⟩

/-- It does not matter at which place the digits of a number begin. -/
theorem roundHalfEven_mul_two_pow {n j : Nat} (hn : n ≠ 0) (hlog : 52 ≤ n.log2 + j) :
    roundHalfEven (n * 2 ^ j) (2 ^ surplus (n * 2 ^ j)) * 2 ^ surplus (n * 2 ^ j) =
      roundTo53 n * 2 ^ j := by
  have hsurplus : surplus (n * 2 ^ j) = n.log2 + j - 52 := by
    rw [surplus, log2_mul_two_pow hn]
  rcases Nat.le_total 52 n.log2 with hlarge | hsmall
  · have hsplit : surplus (n * 2 ^ j) = surplus n + j := by
      rw [hsurplus, surplus]
      omega
    rw [hsplit, pow_add, roundHalfEven_mul_mul _ _ (Nat.two_pow_pos j), roundTo53]
    ring
  · have hsplit : n * 2 ^ j = n * 2 ^ (52 - n.log2) * 2 ^ surplus (n * 2 ^ j) := by
      rw [mul_assoc, ← pow_add, hsurplus]
      congr 2
      omega
    have hround := roundHalfEven_mul (n * 2 ^ (52 - n.log2)) (Nat.two_pow_pos (surplus (n * 2 ^ j)))
    rw [← hsplit] at hround
    rw [hround, ← hsplit, roundTo53_of_log2_le hsmall]

/-- Rounding the digits of a whole number gives a double for the rounded number, wherever the digits
begin. -/
theorem standsFor_roundWithAccuracy (s : Sign) {n j : Nat} {e : Int} (hn : n ≠ 0)
    (hlog : 52 ≤ n.log2 + j) (hbits : n.log2 < 64) (hj : j ≤ 1000) (he : e = -j) :
    StandsFor (.roundWithAccuracy .binary64 s (n * 2 ^ j) e .exact) (s.apply (roundTo53 n)) := by
  have hm : n * 2 ^ j ≠ 0 := Nat.mul_ne_zero hn (Nat.two_pow_pos j).ne'
  have hdigits := log2_mul_two_pow hn j
  have hfirst := roundHalfEven_mul_two_pow hn hlog
  have hlow := (le_div_two_pow_surplus ((Nat.le_log2 hm).mp (hdigits ▸ hlog))).trans
    (div_le_roundHalfEven _ _)
  have hhigh := roundHalfEven_surplus_le (n * 2 ^ j)
  have hpower : surplus (n * 2 ^ j) + 52 = n.log2 + j := by
    rw [surplus, hdigits]
    omega
  have hrounded := (isQuotient_shiftRight (n * 2 ^ j) (surplus (n * 2 ^ j))).roundedMantissa
    (Nat.two_pow_pos _)
  unfold UnpackedFloat.roundWithAccuracy
  rw [shiftToTargetExponent_surplus (by omega)]
  dsimp only
  rw [hrounded]
  generalize roundHalfEven (n * 2 ^ j) (2 ^ surplus (n * 2 ^ j)) = r at hfirst hlow hhigh ⊢
  rw [shiftToTargetExponent_surplus (by omega)]
  dsimp only
  rw [(isQuotient_shiftRight r (surplus r)).mantissa]
  have hx := div_two_pow_surplus_mul hhigh
  have hxlow := le_div_two_pow_surplus hlow
  have hxhigh := div_two_pow_surplus_lt r
  have hle := surplus_le_one hhigh
  generalize r / 2 ^ surplus r = x at hx hxlow hxhigh ⊢
  rw [dif_neg (show x ≠ 0 by omega)]
  refine .finite s _ hxlow hxhigh (k := n.log2 + surplus r) (by omega) (by omega) ?_
  refine Nat.eq_of_mul_eq_mul_right (Nat.two_pow_pos j) ?_
  calc x * 2 ^ (n.log2 + surplus r) * 2 ^ j
      = x * 2 ^ surplus r * 2 ^ (n.log2 + j) := by ring
    _ = r * 2 ^ surplus (n * 2 ^ j) * 2 ^ 52 := by rw [hx, ← hpower, pow_add, Nat.mul_assoc]
    _ = roundTo53 n * 2 ^ 52 * 2 ^ j := by rw [hfirst]; ring

/-! ## Packing -/

theorem ofBitVec_unpackSign (s : Sign) (x : BitVec 11) (m : BitVec 52) :
    Sign.ofBitVec (UnpackedFloat.unpackSign (UnpackedFloat.packComponents .binary64 s x m)) =
      s := by
  have hsign : UnpackedFloat.unpackSign (UnpackedFloat.packComponents .binary64 s x m) =
      s.toBitVec := by
    unfold UnpackedFloat.unpackSign UnpackedFloat.packComponents BitVec.extractLsb
    rw [BitVec.extractLsb'_append_eq_of_le (by decide),
      BitVec.extractLsb'_append_eq_of_le (by decide)]
    cases s <;> rfl
  rw [hsign]
  cases s <;> rfl

theorem toNat_one_append (m : BitVec 52) : (1#1 ++ m).toNat = 2 ^ 52 + m.toNat := by
  rw [BitVec.toNat_append, ← Nat.shiftLeft_add_eq_or_of_lt m.isLt]
  rfl

theorem one_append_pos (m : BitVec 52) : 0 < (1#1 ++ m).toNat := by
  rw [toNat_one_append]
  exact Nat.add_pos_left (by decide) _

/-- Bits whose exponent is neither all ones nor all zeros have one more digit in front. -/
theorem unpack_packComponents (s : Sign) {x : BitVec 11} (m : BitVec 52) (hones : x ≠ -1#11)
    (hzero : x ≠ 0#11) :
    UnpackedFloat.unpack .binary64 (UnpackedFloat.packComponents .binary64 s x m) =
      .finite s (1#1 ++ m).toNat (x.toNat - 1075) (one_append_pos m) := by
  have hsign := ofBitVec_unpackSign s x m
  have hexponent :
      UnpackedFloat.unpackExponent (UnpackedFloat.packComponents .binary64 s x m) = x :=
    UnpackedFloat.unpackExponent_packComponents
  have hmantissa :
      UnpackedFloat.unpackMantissa (UnpackedFloat.packComponents .binary64 s x m) = m :=
    UnpackedFloat.unpackMantissa_packComponents
  generalize UnpackedFloat.packComponents .binary64 s x m = b at hsign hexponent hmantissa ⊢
  subst hsign hexponent hmantissa
  unfold UnpackedFloat.unpack
  dsimp only
  rw [if_neg hones, if_neg hzero]
  rfl

/-- Bits whose exponent is all zeros have no further digit. -/
theorem unpack_packComponents_zero (s : Sign) {m : BitVec 52} (hm : 0 < m.toNat) :
    UnpackedFloat.unpack .binary64 (UnpackedFloat.packComponents .binary64 s 0#11 m) =
      .finite s m.toNat (-1074) hm := by
  have hsign := ofBitVec_unpackSign s 0#11 m
  have hexponent :
      UnpackedFloat.unpackExponent (UnpackedFloat.packComponents .binary64 s 0#11 m) = 0#11 :=
    UnpackedFloat.unpackExponent_packComponents
  have hmantissa :
      UnpackedFloat.unpackMantissa (UnpackedFloat.packComponents .binary64 s 0#11 m) = m :=
    UnpackedFloat.unpackMantissa_packComponents
  have hne : m ≠ 0#52 := by
    rintro rfl
    exact absurd hm (Nat.lt_irrefl 0)
  generalize UnpackedFloat.packComponents .binary64 s 0#11 m = b at hsign hexponent hmantissa ⊢
  subst hsign hmantissa
  unfold UnpackedFloat.unpack
  dsimp only
  rw [if_neg (by rw [hexponent]; decide), if_pos hexponent, dif_neg hne, UnpackedFloat.finite.injEq,
    hexponent]
  exact ⟨rfl, rfl, rfl⟩

/-- The fields of a double: with 53 digits the first one is left out, and with fewer the exponent is
the smallest one. -/
theorem pack_finite (s : Sign) {m k : Nat} {e : Int} (hm : 0 < m) (hhigh : m < 2 ^ 53)
    (hk : k ≤ 2045) (he : e = k - 1074) :
    UnpackedFloat.pack .binary64 (.finite s m e hm) =
      UnpackedFloat.packComponents .binary64 s
        (if 2 ^ 52 ≤ m then .ofNat 11 (k + 1) else 0#11) (.ofNat 52 m) := by
  have hbias : Format.binary64.exponentBias = 1023 := rfl
  have hdigits : m.log2 + 1 = Format.binary64.mantissaBits ↔ 2 ^ 52 ≤ m := by
    have hlog : m.log2 < 53 := (Nat.log2_lt hm.ne').mpr hhigh
    rw [← Nat.le_log2 hm.ne', show Format.binary64.mantissaBits = 53 from rfl]
    omega
  have hexponent : (e + (1023 : Nat) + (52 : Nat)).toNat = k + 1 := by omega
  unfold UnpackedFloat.pack
  dsimp only
  rw [hbias, hexponent, if_neg (show ¬ 2 ^ 11 ≤ k + 1 + 1 by omega)]
  by_cases hlow : 2 ^ 52 ≤ m
  · rw [if_pos (hdigits.mpr hlow), if_pos hlow]
  · rw [if_neg (fun h => hlow (hdigits.mp h)), if_neg hlow]

/-- Packing loses nothing of a double that has 53 digits, or fewer and the smallest exponent. -/
theorem unpack_pack_finite (s : Sign) {m k : Nat} {e : Int} (hm : 0 < m) (hhigh : m < 2 ^ 53)
    (hlow : k = 0 ∨ 2 ^ 52 ≤ m) (hk : k ≤ 2045) (he : e = k - 1074) :
    (Float.Model.pack (.finite s m e hm)).unpack = .finite s m e hm := by
  show UnpackedFloat.unpack .binary64 (UnpackedFloat.pack .binary64 (.finite s m e hm)) = _
  rw [pack_finite s hm hhigh hk he]
  by_cases hnormal : 2 ^ 52 ≤ m
  · have hbits : (BitVec.ofNat 11 (k + 1)).toNat = k + 1 := by
      rw [BitVec.toNat_ofNat]
      exact Nat.mod_eq_of_lt (by omega)
    have hne {x : BitVec 11} (hx : k + 1 ≠ x.toNat) : BitVec.ofNat 11 (k + 1) ≠ x := by
      intro h
      rw [← h, hbits] at hx
      exact hx rfl
    have hones : k + 1 ≠ (-1#11).toNat := by
      simp
      omega
    have hmantissa : (1#1 ++ BitVec.ofNat 52 m).toNat = m := by
      rw [toNat_one_append, BitVec.toNat_ofNat]
      omega
    rw [if_pos hnormal, unpack_packComponents s _ (hne hones) (hne (Nat.succ_ne_zero k)),
      UnpackedFloat.finite.injEq, hbits]
    exact ⟨rfl, hmantissa, by omega⟩
  · have hmantissa : (BitVec.ofNat 52 m).toNat = m := by
      rw [BitVec.toNat_ofNat]
      exact Nat.mod_eq_of_lt (by omega)
    rw [if_neg hnormal, unpack_packComponents_zero s (by omega), UnpackedFloat.finite.injEq]
    exact ⟨rfl, hmantissa, by omega⟩

/-- Packing loses nothing of the double of a whole number. -/
theorem StandsFor.unpack_pack {u : UnpackedFloat} {v : Int} (h : StandsFor u v) :
    (Float.Model.pack u).unpack = u := by
  cases h with
  | zero s => cases s <;> rfl
  | @finite s m k v e hm hlow hhigh hk he hv =>
    exact unpack_pack_finite s hm hhigh (k := k + 1022) (.inr hlow) (by omega) (by omega)

/-! ## The double of a number -/

theorem standsFor_round (s : Sign) {n : Nat} (hn : n ≠ 0) (hbits : n.log2 < 64) :
    StandsFor (.round .binary64 s n 0) (s.apply (roundTo53 n)) := by
  have hshift : (0 - max ((n.log2 : Int) + 0 - 52) (-1074)).toNat = 52 - n.log2 := by omega
  unfold UnpackedFloat.round UnpackedFloat.decreaseExponent
  dsimp only
  rw [targetExponent_eq, hshift, Nat.shiftLeft_eq]
  exact standsFor_roundWithAccuracy s hn (by omega) hbits (by omega) (by omega)

theorem standsFor_ofUInt64 {n : UInt64} (hn : n.toNat ≠ 0) :
    StandsFor n.toFloat.toModel.unpack (roundTo53 n.toNat) := by
  have hbits : n.toNat.log2 < 64 := (Nat.log2_lt hn).mpr n.toNat_lt
  have hround := standsFor_round .positive hn hbits
  have hofNat : UnpackedFloat.ofNat .binary64 n.toNat = .round .binary64 .positive n.toNat 0 := by
    have hpos : compare (n.toNat : Int) 0 = .gt := by
      rw [Int.compare_eq_gt]
      omega
    unfold UnpackedFloat.ofNat UnpackedFloat.ofInt UnpackedFloat.normalize
    rw [hpos]
    rfl
  show StandsFor (Float.Model.pack (UnpackedFloat.ofNat .binary64 n.toNat)).unpack _
  rw [hofNat, hround.unpack_pack]
  exact hround

/-- Nothing changes when a number of at most 53 digits is multiplied by one. -/
theorem StandsFor.mul_one {u : UnpackedFloat} {n : Nat} (h : StandsFor u n) (hn : n ≠ 0)
    (hlt : n < 2 ^ 53) :
    StandsFor (.mul .binary64 u (.finite .positive (2 ^ 52) (-52) (by decide))) n := by
  generalize hz : (n : Int) = z at h
  cases h with
  | zero => omega
  | @finite s m k v e hm hlow hhigh hk he hv =>
    cases s with
    | negative =>
      have hneg : (n : Int) = -v := hz
      omega
    | positive =>
      have hnv : n = v := Int.ofNat_inj.mp hz
      subst hnv
      have hle : k < 53 := by
        have hpow : 2 ^ 52 * 2 ^ k < 2 ^ 52 * 2 ^ 53 := by
          calc 2 ^ 52 * 2 ^ k ≤ m * 2 ^ k := Nat.mul_le_mul_right _ hlow
            _ = n * 2 ^ 52 := hv
            _ < 2 ^ 53 * 2 ^ 52 := Nat.mul_lt_mul_of_pos_right hlt (by decide)
            _ = 2 ^ 52 * 2 ^ 53 := Nat.mul_comm _ _
        exact (Nat.pow_lt_pow_iff_right (by decide)).mp (Nat.lt_of_mul_lt_mul_left hpow)
      have hproduct : m * 2 ^ 52 = n * 2 ^ (104 - k) := by
        refine Nat.eq_of_mul_eq_mul_right (Nat.two_pow_pos k) ?_
        calc m * 2 ^ 52 * 2 ^ k = m * 2 ^ k * 2 ^ 52 := Nat.mul_right_comm _ _ _
          _ = n * 2 ^ (104 - k + k) := by
            rw [hv, Nat.mul_assoc, Nat.sub_add_cancel (by omega)]
            rfl
          _ = n * 2 ^ (104 - k) * 2 ^ k := by rw [pow_add, Nat.mul_assoc]
      have hlog : n.log2 < 53 := (Nat.log2_lt hn).mpr hlt
      have hround := standsFor_roundWithAccuracy .positive (j := 104 - k) (e := e + -52) hn
        (by omega) (by omega) (by omega) (by omega)
      rw [roundTo53_of_log2_le (by omega), ← hproduct] at hround
      exact hround

theorem standsFor_ofScientific {n : Nat} (hn : n ≠ 0) (hbits : n.log2 < 64) :
    StandsFor (.ofScientific .binary64 n 0) (roundTo53 n) := by
  unfold UnpackedFloat.ofScientific
  rw [dif_neg hn, if_neg (by decide), if_neg ?small, if_pos (Int.le_refl 0)]
  case small =>
    refine Int.not_lt.mpr (Int.neg_nonpos_of_nonneg (Int.add_nonneg ?_ (Int.natCast_nonneg _)))
    decide
  unfold UnpackedFloat.mul
  dsimp only
  have hpower : (10 : Nat) ^ Int.toNat 0 = 1 := rfl
  rw [hpower, Nat.mul_one, Nat.shiftLeft_eq]
  exact standsFor_roundWithAccuracy .positive (j := 53) hn (by omega) hbits (by decide) rfl

/-- The double that a number of 64 bits becomes. -/
theorem standsFor_float_ofNat {n : Nat} (h : n < 2 ^ 64) :
    StandsFor (Float.ofNat n).toModel.unpack (roundTo53 n) := by
  by_cases hn : n = 0
  · rw [hn]
    exact .zero .positive
  · show StandsFor (Float.ofScientific n false 0).toModel.unpack _
    have hbits : n.log2 < 64 := (Nat.log2_lt hn).mpr h
    unfold Float.ofScientific
    split
    · next hsmall =>
      have hone : (Float.ofBits 0x3FF0000000000000).toModel.unpack =
          .finite .positive (2 ^ 52) (-52) (by decide) := rfl
      have hword : n.toUInt64.toNat = n := Nat.mod_eq_of_lt h
      have hfloat : StandsFor n.toUInt64.toFloat.toModel.unpack n := by
        have := standsFor_ofUInt64 (n := n.toUInt64) (by rwa [hword])
        rwa [hword, roundTo53_of_le hsmall.1.le] at this
      have hproduct := hfloat.mul_one hn hsmall.1
      rw [← hone] at hproduct
      rw [roundTo53_of_le hsmall.1.le]
      show StandsFor (Float.Model.pack (.mul .binary64 n.toUInt64.toFloat.toModel.unpack
        (Float.ofBits 0x3FF0000000000000).toModel.unpack)).unpack n
      rw [hproduct.unpack_pack]
      exact hproduct
    · have hscientific := standsFor_ofScientific hn hbits
      show StandsFor (Float.Model.pack (.ofScientific .binary64 n 0)).unpack _
      rw [hscientific.unpack_pack]
      exact hscientific

theorem StandsFor.neg {u : UnpackedFloat} {v : Int} (h : StandsFor u v) :
    StandsFor u.neg (-v) := by
  cases h with
  | zero s => exact .zero (-s)
  | @finite s m k v e hm hlow hhigh hk he hv =>
    have hsign : -s.apply v = (-s).apply v := by
      cases s
      · exact Int.neg_neg _
      · rfl
    rw [hsign]
    exact .finite (-s) hm hlow hhigh hk he hv

theorem standsFor_float_ofInt {z : Int} (h : z.natAbs < 2 ^ 64) :
    StandsFor (Float.ofInt z).toModel.unpack (nearestDouble z) := by
  cases z with
  | ofNat n => exact standsFor_float_ofNat h
  | negSucc n =>
    have hneg := (standsFor_float_ofNat (n := n.succ) h).neg
    show StandsFor (Float.Model.pack (Float.ofNat n.succ).toModel.unpack.neg).unpack _
    rw [hneg.unpack_pack]
    exact hneg

theorem StandsFor.isFinite {u : UnpackedFloat} {v : Int} (h : StandsFor u v) : u.isFinite := by
  cases h with
  | zero => rfl
  | finite => rfl

/-- The double nearest to a whole number of 64 bits is finite. -/
theorem isFinite_ofInt {z : Int} (h : z.natAbs < 2 ^ 64) : (Float.ofInt z).isFinite :=
  (standsFor_float_ofInt h).isFinite

/-! ## Comparing -/

theorem two_pow_mul_le {m j k : Nat} (hm : 2 ^ 52 ≤ m) (h : j ≤ k) :
    2 ^ 52 * 2 ^ j ≤ m * 2 ^ k :=
  Nat.mul_le_mul hm (Nat.pow_le_pow_right Nat.two_pos h)

theorem mul_two_pow_lt {m n j k : Nat} (hm : m < 2 ^ 53) (hn : 2 ^ 52 ≤ n) (h : j < k) :
    m * 2 ^ j < n * 2 ^ k := by
  calc m * 2 ^ j < 2 ^ 53 * 2 ^ j := Nat.mul_lt_mul_of_pos_right hm (Nat.two_pow_pos j)
    _ = 2 ^ 52 * 2 ^ (j + 1) := by ring
    _ ≤ n * 2 ^ k := two_pow_mul_le hn h

theorem compare_mul_two_pow (m n k : Nat) : compare (m * 2 ^ k) (n * 2 ^ k) = compare m n := by
  rw [Nat.compare_eq_ite_lt, Nat.compare_eq_ite_lt]
  simp only [Nat.mul_lt_mul_right (Nat.two_pow_pos k)]

/-- The larger exponent decides, and between equal exponents the larger mantissa, if there are 53
digits or the exponent is the smallest one. -/
theorem compare_then_compare {m n j k : Nat} {e f c : Int} (hm : m < 2 ^ 53)
    (hmlow : j = 0 ∨ 2 ^ 52 ≤ m) (he : e = j - c) (hn : n < 2 ^ 53) (hnlow : k = 0 ∨ 2 ^ 52 ≤ n)
    (hf : f = k - c) : (compare e f).then (compare m n) = compare (m * 2 ^ j) (n * 2 ^ k) := by
  rcases Nat.lt_trichotomy j k with hjk | rfl | hkj
  · have hlt := mul_two_pow_lt hm (hnlow.resolve_left (by omega)) hjk
    rw [Int.compare_eq_lt.mpr (show e < f by omega), Nat.compare_eq_lt.mpr hlt]
    rfl
  · rw [Int.compare_eq_eq.mpr (show e = f by omega), compare_mul_two_pow]
    rfl
  · have hlt := mul_two_pow_lt hn (hmlow.resolve_left (by omega)) hkj
    rw [Int.compare_eq_gt.mpr (show f < e by omega), Nat.compare_eq_gt.mpr hlt]
    rfl

theorem compare_natCast (m n : Nat) : compare (m : Int) n = compare m n := by
  rw [Int.compare_eq_ite_lt, Nat.compare_eq_ite_lt]
  simp only [Int.ofNat_lt]

theorem pos_of_mantissa_pos {m k v : Nat} (hm : 0 < m) (hv : m * 2 ^ k = v * 2 ^ 52) : 0 < v := by
  have hpos : 0 < v * 2 ^ 52 := hv ▸ Nat.mul_pos hm (Nat.two_pow_pos k)
  exact Nat.pos_of_mul_pos_right hpos

theorem compare_neg (a b : Int) : compare (-a) (-b) = compare b a := by
  rw [Int.compare_eq_ite_lt, Int.compare_eq_ite_lt]
  simp only [neg_lt_neg_iff]

/-- Doubles of whole numbers are in the order of these numbers. -/
theorem StandsFor.compare_eq {u w : UnpackedFloat} {a b : Int} (hu : StandsFor u a)
    (hw : StandsFor w b) : u.compare w = some (compare a b) := by
  cases hu with
  | zero =>
    cases hw with
    | zero => rfl
    | @finite t m k v e hm _ _ _ _ hv =>
      have hpos := pos_of_mantissa_pos hm hv
      cases t with
      | negative =>
        have hlt : -(v : Int) < 0 := by omega
        exact congrArg some (Int.compare_eq_gt.mpr hlt).symm
      | positive => exact congrArg some (Int.compare_eq_lt.mpr (Int.ofNat_lt.mpr hpos)).symm
  | @finite s m₁ k₁ v₁ e₁ hm₁ hlow₁ hhigh₁ _ he₁ hv₁ =>
    have hpos₁ := pos_of_mantissa_pos hm₁ hv₁
    cases hw with
    | zero =>
      cases s with
      | negative =>
        have hlt : -(v₁ : Int) < 0 := by omega
        exact congrArg some (Int.compare_eq_lt.mpr hlt).symm
      | positive => exact congrArg some (Int.compare_eq_gt.mpr (Int.ofNat_lt.mpr hpos₁)).symm
    | @finite t m₂ k₂ v₂ e₂ hm₂ hlow₂ hhigh₂ _ he₂ hv₂ =>
      have hpos₂ := pos_of_mantissa_pos hm₂ hv₂
      have hcompare : (compare e₁ e₂).then (compare m₁ m₂) = compare (v₁ : Int) v₂ := by
        rw [compare_then_compare hhigh₁ (.inr hlow₁) he₁ hhigh₂ (.inr hlow₂) he₂, hv₁, hv₂,
          compare_mul_two_pow, compare_natCast]
      cases s <;> cases t
      case negative.negative =>
        show some ((compare e₁ e₂).then (compare m₁ m₂)).swap = some (compare (-(v₁ : Int)) (-v₂))
        rw [hcompare, Int.compare_swap, compare_neg]
      case negative.positive =>
        have hlt : -(v₁ : Int) < v₂ := by omega
        exact congrArg some (Int.compare_eq_lt.mpr hlt).symm
      case positive.negative =>
        have hlt : -(v₂ : Int) < v₁ := by omega
        exact congrArg some (Int.compare_eq_gt.mpr hlt).symm
      case positive.positive => exact congrArg some hcompare

end Paywall
