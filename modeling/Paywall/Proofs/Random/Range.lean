import Paywall.Proofs.Value.Units
import Paywall.Random.Source

/-!
# The range of random numbers

What is drawn from words is in the range that was asked for, whatever the words are. A whole number
is the high half of a product, and a double is checked against the end of its range, so what has to
be shown is that it is not negative: the upper bits of a word are the digits behind the point of a
double from 1 to 2, one less is not negative, and neither is a product of such numbers.
-/

namespace Paywall.Random

open Float.Model (UnpackedFloat Format)
open Float.Model.UnpackedFloat (Sign)

/-- The binary digits behind the point of a double from 1 to 2, as a whole number. -/
def fractionDigits (v : UInt64) : Nat := v.toNat / 2 ^ 12

theorem fractionDigits_lt (v : UInt64) : fractionDigits v < 2 ^ 52 :=
  Nat.div_lt_of_lt_mul v.toNat_lt

theorem unitBits_eq (v : UInt64) :
    ((v >>> 12) ||| 0x3ff0000000000000).toBitVec =
      UnpackedFloat.packComponents .binary64 .positive 0x3ff#11 (.ofNat 52 (fractionDigits v)) := by
  have hdigits : (v >>> 12).toNat = fractionDigits v := by
    rw [UInt64.toNat_shiftRight, Nat.shiftRight_eq_div_pow]
    rfl
  have hmantissa : (BitVec.ofNat 52 (fractionDigits v)).toNat = fractionDigits v := by
    rw [BitVec.toNat_ofNat]
    exact Nat.mod_eq_of_lt (fractionDigits_lt v)
  refine BitVec.eq_of_toNat_eq ?_
  show ((v >>> 12) ||| 0x3ff0000000000000).toNat =
    (UnpackedFloat.Sign.positive.toBitVec ++ 0x3ff#11 ++ BitVec.ofNat 52 (fractionDigits v)).toNat
  rw [UInt64.toNat_or, hdigits, BitVec.toNat_append, hmantissa, Nat.or_comm]
  rfl

/-- One less than a double from 1 to 2. -/
theorem sub_one_eq (d : Nat) (h : 0 < 2 ^ 52 + d) :
    UnpackedFloat.sub .binary64 (.finite .positive (2 ^ 52 + d) (-52) h)
        (.finite .positive (2 ^ 52) (-52) (Nat.two_pow_pos 52)) =
      .normalize .binary64 d (-52) .positive := by
  have hdifference : ((2 ^ 52 + d : Nat) : Int) - (2 ^ 52 : Nat) = d := by omega
  unfold UnpackedFloat.sub UnpackedFloat.decreaseExponent
  dsimp only
  rw [Int.min_self, Int.sub_self, Int.toNat_zero, Nat.shiftLeft_zero, Nat.shiftLeft_zero]
  exact congrArg (UnpackedFloat.normalize .binary64 · (-52) .positive) hdifference

theorem unpack_unitBits (v : UInt64) :
    (Float.ofBits ((v >>> 12) ||| 0x3ff0000000000000)).toModel.unpack =
      .finite .positive (2 ^ 52 + fractionDigits v) (-52) (Nat.add_pos_left (by decide) _) := by
  have hlt := fractionDigits_lt v
  have hmantissa : (1#1 ++ BitVec.ofNat 52 (fractionDigits v)).toNat =
      2 ^ 52 + fractionDigits v := by
    rw [toNat_one_append, BitVec.toNat_ofNat, Nat.mod_eq_of_lt hlt]
  have hunpack : UnpackedFloat.unpack .binary64 ((v >>> 12) ||| 0x3ff0000000000000).toBitVec =
      .finite .positive (2 ^ 52 + fractionDigits v) (-52) (Nat.add_pos_left (by decide) _) := by
    rw [unitBits_eq, unpack_packComponents .positive _ (by decide) (by decide),
      UnpackedFloat.finite.injEq]
    exact ⟨rfl, hmantissa, rfl⟩
  show (Float.Model.pack (UnpackedFloat.unpack .binary64
    ((v >>> 12) ||| 0x3ff0000000000000).toBitVec)).unpack = _
  rw [hunpack]
  exact unpack_pack_finite .positive (k := 1022) _ (by omega) (.inr (by omega)) (by decide) rfl

/-- A word gives a double from 0 to 1. -/
theorem hasUnits_unit (v : UInt64) :
    HasUnits (unit v).toModel.unpack (fractionDigits v * 2 ^ 1022) := by
  have hlt : fractionDigits v < 2 ^ 53 := (fractionDigits_lt v).trans (by decide)
  have hone : (1.0 : Float).toModel.unpack =
      .finite .positive (2 ^ 52) (-52) (Nat.two_pow_pos 52) := rfl
  have hround := hasUnits_normalize (fractionDigits v) (a := 1022) (e := -52) rfl .positive
  rw [roundTo53_mul_two_pow hlt,
    Nat.min_eq_left (units_lt_overflow hlt (by decide)).le] at hround
  show HasUnits (Float.Model.pack (.sub .binary64
    (Float.ofBits ((v >>> 12) ||| 0x3ff0000000000000)).toModel.unpack
    (1.0 : Float).toModel.unpack)).unpack _
  rw [unpack_unitBits, hone, sub_one_eq]
  exact hround

variable {γ : Type} [WordSource γ]

/-- A double that is drawn is neither negative nor as large as the end of its range. -/
theorem exists_hasUnits_fractionOf {total : Float} {n : Nat} (h : HasUnits total.toModel.unpack n)
    (hpos : 0 < n) (hfinite : n ≠ overflow) (g : γ) :
    ∃ k < n, HasUnits (fractionOf total g).1.toModel.unpack k := by
  have hzero : HasUnits (0.0 : Float).toModel.unpack 0 := .zero .positive
  unfold fractionOf
  generalize attempts = rounds
  induction rounds generalizing g with
  | zero => exact ⟨0, hpos, hzero⟩
  | succ rounds ih =>
    rw [fractionOf.go]
    rcases WordSource.next g with ⟨v, g'⟩
    dsimp only
    split
    · next hlt =>
      have hunit : fractionDigits v * 2 ^ 1022 ≠ overflow :=
        (units_lt_overflow ((fractionDigits_lt v).trans (by decide)) (by decide)).ne
      obtain ⟨p, hproduct⟩ := (hasUnits_unit v).exists_mul h hunit hfinite
      have hsum := hproduct.add hzero
      exact ⟨_, (hsum.float_lt_iff h).mp hlt, hsum⟩
    · exact ih g'

end Paywall.Random
