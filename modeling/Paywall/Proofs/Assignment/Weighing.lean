import Paywall.Proofs.Assignment.Drawing
import Paywall.Proofs.Value.Units

/-!
# The weights of a draw

A weight that counts has a size, which is a whole number, and weights are compared as their sizes
are. The weights that a draw uses all count, whatever is offered: a weight that is negative or not a
number has been replaced by zero, and a weight that is divided by the largest one is one at most.
Their sum is finite, it is positive if one of the offered weights is, and only a positive weight has
a positive one in its place.
-/

namespace Paywall

/-- Weights that can be measured. What is said of sums and quotients survives a rounding. -/
class SizedWeight (ω : Type) [Weight ω] where
  HasSize : ω → Nat → Prop
  /-- The size of one. -/
  one : Nat
  /-- A size that no sum of weights up to one passes. -/
  bound : Nat
  hasSize_zero : HasSize Weight.zero 0
  hasSize_one : HasSize Weight.one one
  exists_hasSize : ∀ {w : ω}, Weight.isNaN w = false → Weight.lt w Weight.zero = false →
    ∃ n, HasSize w n
  exists_hasSize_of_pos : ∀ {w : ω}, Weight.lt Weight.zero w → ∃ n, HasSize w n
  isNaN_eq_false : ∀ {w : ω} {n : Nat}, HasSize w n → Weight.isNaN w = false
  lt_iff : ∀ {v w : ω} {m n : Nat}, HasSize v m → HasSize w n → (Weight.lt v w ↔ m < n)
  pos_of_isInfinite : ∀ {w : ω} {n : Nat}, HasSize w n → Weight.isInfinite w → 0 < n
  isInfinite_eq_false : ∀ {w : ω} {n : Nat}, HasSize w n → n ≤ bound →
    Weight.isInfinite w = false
  hasSize_add_zero : ∀ {v w : ω} {m : Nat}, HasSize v m → HasSize w 0 →
    HasSize (Weight.add v w) m
  exists_hasSize_add : ∀ {v w : ω} {m n : Nat}, HasSize v m → HasSize w n →
    ∃ k, HasSize (Weight.add v w) k ∧ m ≤ k ∧ n ≤ k ∧ (m ≤ bound → n ≤ one → k ≤ bound)
  exists_hasSize_div : ∀ {v w : ω} {m n : Nat}, HasSize v m → HasSize w n → m ≤ n → 0 < n →
    Weight.isInfinite w = false → ∃ k ≤ one, HasSize (Weight.div v w) k ∧ (0 < k → 0 < m)

/-! ## Doubles -/

section Double

open Float.Model (UnpackedFloat)

theorem float_isNaN_of_pos {x : Float} (h : Weight.lt Weight.zero x) :
    x.toModel.unpack.isNaN = false := by
  rw [float_lt_eq] at h
  generalize x.toModel.unpack = u at h ⊢
  cases u with
  | notANumber => exact absurd h Bool.false_ne_true
  | infinity => rfl
  | zero => rfl
  | finite => rfl

theorem exists_hasUnits_float {x : Float} (hnan : x.toModel.unpack.isNaN = false)
    (hneg : Weight.lt x Weight.zero = false) : ∃ n, HasUnits x.toModel.unpack n := by
  rw [float_lt_eq] at hneg
  exact exists_hasUnits_unpack hnan hneg

theorem hasUnits_float_one : HasUnits (1.0 : Float).toModel.unpack (2 ^ 1074) := by
  have hmantissa : 0 < 2 ^ 52 := by decide
  have hone : (1.0 : Float).toModel.unpack = .finite .positive (2 ^ 52) (-52) hmantissa := rfl
  have hsize : 2 ^ 1074 = 2 ^ 52 * 2 ^ 1022 := by rw [← pow_add]
  rw [hone, hsize]
  exact .finite hmantissa (by decide) (.inr (Nat.le_refl _)) (by decide) rfl

/-- The sums of numbers up to one stay finite. -/
theorem float_bound_lt_overflow : 2 ^ 53 * 2 ^ 1074 < overflow := by
  have hsize : 2 ^ 53 * 2 ^ 1074 = 2 ^ 52 * 2 ^ (1 + 1074) := by
    rw [pow_add 2 1 1074, ← Nat.mul_assoc, ← pow_add 2 52 1]
  rw [hsize]
  exact units_lt_overflow (by decide) (by decide)

instance : SizedWeight Float where
  HasSize x n := HasUnits x.toModel.unpack n
  one := 2 ^ 1074
  bound := 2 ^ 53 * 2 ^ 1074
  hasSize_zero := .zero .positive
  hasSize_one := hasUnits_float_one
  exists_hasSize := exists_hasUnits_float
  exists_hasSize_of_pos h := exists_hasUnits_float (float_isNaN_of_pos h) (float_not_lt_zero (.inr h))
  isNaN_eq_false h := h.isNaN_eq_false
  lt_iff hv hw := by
    rw [float_lt_eq]
    exact hv.lt_iff hw
  pos_of_isInfinite h hinfinite := by
    rw [h.isInf_iff.mp hinfinite]
    exact HasUnits.overflow_pos
  isInfinite_eq_false h hle := by
    refine Bool.eq_false_iff.mpr fun hinfinite => ?_
    have hn := h.isInf_iff.mp hinfinite
    exact absurd (hn ▸ hle) (Nat.not_le.mpr float_bound_lt_overflow)
  hasSize_add_zero hv hw := by
    have hsum := hv.add hw
    rwa [Nat.add_zero, hv.min_roundTo53] at hsum
  exists_hasSize_add hv hw := by
    have hle {n k : Nat} {u : UnpackedFloat} (h : HasUnits u n) (hnk : n ≤ k) :
        n ≤ min (roundTo53 k) overflow :=
      Nat.le_min.mpr ⟨h.roundTo53_eq.symm.le.trans (roundTo53_mono hnk), h.le_overflow⟩
    exact ⟨_, hv.add hw, hle hv (Nat.le_add_right _ _), hle hw (Nat.le_add_left _ _),
      fun hm hn => (Nat.min_le_left _ _).trans (roundTo53_add_le hm hn)⟩
  exists_hasSize_div hv hw hle hpos hfinite := by
    have hoverflow := mt hw.isInf_iff.mpr (Bool.eq_false_iff.mp hfinite)
    exact hv.exists_div hw hpos hoverflow hle

end Double

/-! ## The weights that a draw uses -/

namespace Draw

variable {ω : Type} [Weight ω] [SizedWeight ω]

open SizedWeight (HasSize)

theorem pos_iff {w : ω} {n : Nat} (h : HasSize w n) : Weight.lt Weight.zero w ↔ 0 < n :=
  SizedWeight.lt_iff SizedWeight.hasSize_zero h

theorem hasSize_unique {w : ω} {m n : Nat} (hm : HasSize w m) (hn : HasSize w n) : m = n := by
  have hlt := (SizedWeight.lt_iff hm hn).symm.trans (SizedWeight.lt_iff hn hm)
  omega

theorem not_zero_lt_zero : ¬ Weight.lt Weight.zero (Weight.zero : ω) := by
  rw [pos_iff SizedWeight.hasSize_zero]
  exact Nat.lt_irrefl 0

theorem exists_hasSize_effective (w : ω) : ∃ n, HasSize (effective w) n := by
  rcases effective_cases w with hzero | hpos
  · rw [hzero]
    exact ⟨0, SizedWeight.hasSize_zero⟩
  · exact SizedWeight.exists_hasSize_of_pos hpos

theorem pos_effective_iff (w : ω) :
    Weight.lt Weight.zero (effective w) ↔ Weight.lt Weight.zero w := by
  by_cases hpos : Weight.lt Weight.zero w
  · obtain ⟨n, hn⟩ := SizedWeight.exists_hasSize_of_pos hpos
    rw [effective, SizedWeight.isNaN_eq_false hn, if_neg Bool.false_ne_true, if_pos hpos]
  · rw [effective, if_neg hpos, ite_self]
    exact iff_of_false not_zero_lt_zero hpos

section Sum

variable {ws : List ω} {s : ω} {m : Nat}

/-- A sum is not less than any of its parts. -/
theorem exists_hasSize_foldl (h : ∀ w ∈ ws, ∃ n, HasSize w n) (hs : HasSize s m) :
    ∃ n, HasSize (ws.foldl Weight.add s) n ∧ m ≤ n ∧
      ∀ w ∈ ws, Weight.lt Weight.zero w → 0 < n := by
  induction ws generalizing s m with
  | nil => exact ⟨m, hs, Nat.le_refl m, fun _ hw => absurd hw (List.not_mem_nil)⟩
  | cons w ws ih =>
    obtain ⟨⟨a, ha⟩, hrest⟩ := List.forall_mem_cons.mp h
    obtain ⟨k, hk, hmk, hak, -⟩ := SizedWeight.exists_hasSize_add hs ha
    obtain ⟨n, hn, hkn, hpos⟩ := ih hrest hk
    refine ⟨n, hn, hmk.trans hkn, List.forall_mem_cons.mpr ⟨fun hw => ?_, hpos⟩⟩
    have hapos := (pos_iff ha).mp hw
    omega

theorem exists_hasSize_foldl_le (h : ∀ w ∈ ws, ∃ n ≤ SizedWeight.one ω, HasSize w n)
    (hs : HasSize s m) (hm : m ≤ SizedWeight.bound ω) :
    ∃ n ≤ SizedWeight.bound ω, HasSize (ws.foldl Weight.add s) n := by
  induction ws generalizing s m with
  | nil => exact ⟨m, hm, hs⟩
  | cons w ws ih =>
    obtain ⟨⟨a, hone, ha⟩, hrest⟩ := List.forall_mem_cons.mp h
    obtain ⟨k, hk, -, -, hle⟩ := SizedWeight.exists_hasSize_add hs ha
    exact ih hrest hk (hle hm hone)

theorem isFinite_total (h : ∀ w ∈ ws, ∃ n ≤ SizedWeight.one ω, HasSize w n) :
    isFinite (total ws) := by
  obtain ⟨n, hle, hn⟩ :=
    exists_hasSize_foldl_le h SizedWeight.hasSize_zero (Nat.zero_le (SizedWeight.bound ω))
  rw [isFinite, total, SizedWeight.isNaN_eq_false hn, SizedWeight.isInfinite_eq_false hn hle]
  rfl

theorem pos_total (h : ∀ w ∈ ws, ∃ n, HasSize w n) {w : ω} (hw : w ∈ ws)
    (hpos : Weight.lt Weight.zero w) : Weight.lt Weight.zero (total ws) := by
  obtain ⟨n, hn, -, hlt⟩ := exists_hasSize_foldl h SizedWeight.hasSize_zero
  exact (pos_iff hn).mpr (hlt w hw hpos)

/-- No weight is larger than the largest one. -/
theorem exists_hasSize_largest (h : ∀ w ∈ ws, ∃ n, HasSize w n) (hs : HasSize s m) :
    ∃ n, HasSize (ws.foldl (fun m w => if Weight.lt m w then w else m) s) n ∧ m ≤ n ∧
      ∀ w ∈ ws, ∀ k, HasSize w k → k ≤ n := by
  induction ws generalizing s m with
  | nil => exact ⟨m, hs, Nat.le_refl m, fun _ hw => absurd hw (List.not_mem_nil)⟩
  | cons w ws ih =>
    obtain ⟨⟨a, ha⟩, hrest⟩ := List.forall_mem_cons.mp h
    have hunique : ∀ k, HasSize w k → k = a := fun k hk => hasSize_unique hk ha
    rw [List.foldl_cons]
    by_cases hlt : Weight.lt s w
    · obtain ⟨n, hn, han, hall⟩ := ih hrest ha
      rw [if_pos hlt]
      have hma := (SizedWeight.lt_iff hs ha).mp hlt
      exact ⟨n, hn, by omega, List.forall_mem_cons.mpr ⟨fun k hk => hunique k hk ▸ han, hall⟩⟩
    · obtain ⟨n, hn, hmn, hall⟩ := ih hrest hs
      rw [if_neg hlt]
      have ham := mt (SizedWeight.lt_iff hs ha).mpr hlt
      refine ⟨n, hn, hmn, List.forall_mem_cons.mpr ⟨fun k hk => ?_, hall⟩⟩
      rw [hunique k hk]
      omega

end Sum

/-- Rescaled weights are one at most, and what is positive was so before. -/
theorem exists_rescale_eq_map {ws : List ω} (h : ∀ w ∈ ws, ∃ n, HasSize w n)
    (hpos : ∃ w ∈ ws, Weight.lt Weight.zero w) :
    ∃ f : ω → ω, rescale ws = ws.map f ∧ ∀ w ∈ ws, ∃ k ≤ SizedWeight.one ω, HasSize (f w) k ∧
      (Weight.lt Weight.zero (f w) → Weight.lt Weight.zero w) := by
  unfold rescale
  dsimp only
  split
  · refine ⟨_, rfl, fun w hw => ?_⟩
    obtain ⟨n, hn⟩ := h w hw
    by_cases hinfinite : Weight.isInfinite w
    · rw [if_pos hinfinite, pos_iff hn]
      exact ⟨_, Nat.le_refl _, SizedWeight.hasSize_one,
        fun _ => SizedWeight.pos_of_isInfinite hn hinfinite⟩
    · rw [if_neg hinfinite]
      exact ⟨0, Nat.zero_le _, SizedWeight.hasSize_zero, fun hzero => absurd hzero not_zero_lt_zero⟩
  · next hfinite =>
    refine ⟨_, rfl, fun w hw => ?_⟩
    obtain ⟨n, hn⟩ := h w hw
    obtain ⟨a, ha, -, hall⟩ := exists_hasSize_largest h SizedWeight.hasSize_zero
    have hapos : 0 < a := by
      obtain ⟨v, hv, hvpos⟩ := hpos
      obtain ⟨k, hk⟩ := h v hv
      exact ((pos_iff hk).mp hvpos).trans_le (hall v hv k hk)
    obtain ⟨k, hone, hquotient, hzero⟩ := SizedWeight.exists_hasSize_div hn ha (hall w hw n hn) hapos
      (Bool.eq_false_iff.mpr hfinite)
    exact ⟨k, hone, hquotient, fun hlt => (pos_iff hn).mpr (hzero ((pos_iff hquotient).mp hlt))⟩

theorem exists_hasSize_effectives (ws : List ω) : ∀ v ∈ ws.map effective, ∃ n, HasSize v n := by
  intro v hv
  obtain ⟨w, -, rfl⟩ := List.mem_map.mp hv
  exact exists_hasSize_effective w

variable [LawfulWeight ω]

/-- Each weight has one in its place that counts, and that is positive only if the weight is. -/
theorem exists_weights_eq_map (ws : List ω) :
    ∃ f : ω → ω, weights ws = ws.map f ∧ ∀ w ∈ ws, (∃ n, HasSize (f w) n) ∧
      (Weight.lt Weight.zero (f w) → Weight.lt Weight.zero w) := by
  rcases weights_cases ws with ⟨heq, -⟩ | ⟨heq, hpos⟩
  · exact ⟨effective, heq, fun w _ =>
      ⟨exists_hasSize_effective w, (pos_effective_iff w).mp⟩⟩
  · obtain ⟨f, hf, hall⟩ := exists_rescale_eq_map (exists_hasSize_effectives ws) hpos
    refine ⟨f ∘ effective, ?_, fun w hw => ?_⟩
    · rw [heq, hf, List.map_map]
    · obtain ⟨k, -, hk, hlt⟩ := hall (effective w) (List.mem_map_of_mem hw)
      exact ⟨⟨k, hk⟩, fun h => (pos_effective_iff w).mp (hlt h)⟩

theorem exists_hasSize_weights (ws : List ω) : ∀ v ∈ weights ws, ∃ n, HasSize v n := by
  obtain ⟨f, hf, hall⟩ := exists_weights_eq_map ws
  rw [hf]
  intro v hv
  obtain ⟨w, hw, rfl⟩ := List.mem_map.mp hv
  exact (hall w hw).1

theorem isFinite_total_weights (ws : List ω) : isFinite (total (weights ws)) := by
  rcases weights_cases ws with ⟨heq, hfinite⟩ | ⟨heq, hpos⟩
  · rw [heq]
    exact hfinite
  · obtain ⟨f, hf, hall⟩ := exists_rescale_eq_map (exists_hasSize_effectives ws) hpos
    rw [heq, hf]
    refine isFinite_total fun v hv => ?_
    obtain ⟨w, hw, rfl⟩ := List.mem_map.mp hv
    obtain ⟨k, hone, hk, -⟩ := hall w hw
    exact ⟨k, hone, hk⟩

theorem pos_total_weights {ws : List ω} {w : ω} (hw : w ∈ ws) (hpos : Weight.lt Weight.zero w) :
    Weight.lt Weight.zero (total (weights ws)) := by
  obtain ⟨v, hv, hvpos⟩ : ∃ v ∈ weights ws, Weight.lt Weight.zero v := by
    rcases weights_cases ws with ⟨heq, -⟩ | ⟨heq, v, hv, hvpos⟩
    · rw [heq]
      exact ⟨effective w, List.mem_map_of_mem hw, (pos_effective_iff w).mpr hpos⟩
    · rw [heq]
      exact exists_pos_rescale (effective_mem_cases ws) hv hvpos
  exact pos_total (exists_hasSize_weights ws) hv hvpos

end Draw

end Paywall
