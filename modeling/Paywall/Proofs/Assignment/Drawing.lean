import Paywall.Assignment.Draw

/-!
# Drawing from what is offered

A draw from at least one option gives one of them. What has to be shown is that there is always an
index to draw: if the sum of the weights is positive then so is one of the weights, also after they
have been divided by the largest one, and the last positive one is taken if no running sum exceeds
the point. Of weights and sources only the laws below are used.
-/

namespace Paywall

/-- What a draw relies on in its weights. -/
class LawfulWeight (ω : Type) [Weight ω] : Prop where
  zero_add_zero : Weight.add Weight.zero Weight.zero = (Weight.zero : ω)
  isFinite_zero : Draw.isFinite (Weight.zero : ω)
  zero_lt_one : Weight.lt Weight.zero (Weight.one : ω)
  not_lt_zero : ∀ {w : ω}, (w = Weight.zero ∨ Weight.lt Weight.zero w) →
    Weight.lt w Weight.zero = false
  zero_lt_div_self : ∀ {w : ω}, Weight.lt Weight.zero w → Weight.isInfinite w = false →
    Weight.lt Weight.zero (Weight.div w w)

/-- What a draw relies on in its source. -/
class LawfulSampler (γ ω : Type) [Sampler γ ω] : Prop where
  index_lt : ∀ {n : Nat} (g : γ), 0 < n → (Sampler.index ω n g).1 < n

/-! ## Doubles and words -/

section Double

open Float.Model (UnpackedFloat Format)

theorem float_lt_eq (x y : Float) :
    Weight.lt x y = x.toModel.unpack.lt y.toModel.unpack := by
  change decide (decide (x.toModel.unpack.lt y.toModel.unpack = true) = true) = _
  rw [Bool.decide_eq_true, Bool.decide_eq_true]

/-- The quotient of a mantissa with itself, before it is rounded. -/
theorem divCore_self {m : Nat} (e : Int) (hm : 0 < m) :
    UnpackedFloat.divCore .binary64 m e m e = (Nat.pow 2 53, -53, .exact) := by
  have htarget : min (e - e) (Format.binary64.targetExponent
      (Float.Model.totalExponent m e - Float.Model.totalExponent m e)) = -53 := by
    rw [Int.sub_self, Int.sub_self]
    rfl
  have hshift : (e - e - (-53)).toNat = 53 := by
    rw [Int.sub_self]
    rfl
  unfold UnpackedFloat.divCore
  simp only [htarget, hshift]
  rw [Nat.shiftLeft_eq, Nat.mul_div_cancel_left _ hm, Nat.mul_mod_right]
  rfl

theorem float_zero_lt_div_self {x : Float} (hpos : Weight.lt Weight.zero x)
    (hfinite : Weight.isInfinite x = false) : Weight.lt Weight.zero (Weight.div x x) := by
  have hquotient : (Weight.div x x).toModel =
      .pack (.div .binary64 x.toModel.unpack x.toModel.unpack) := rfl
  have hfinite : x.toModel.unpack.isInf = false := hfinite
  rw [float_lt_eq] at hpos ⊢
  rw [hquotient]
  generalize x.toModel.unpack = u at hpos hfinite ⊢
  cases u with
  | notANumber => exact absurd hpos Bool.false_ne_true
  | infinity s => cases hfinite
  | zero s => cases s <;> exact absurd hpos Bool.false_ne_true
  | finite s m e hm =>
    cases s with
    | negative => exact absurd hpos Bool.false_ne_true
    | positive =>
      have hdiv : UnpackedFloat.div .binary64 (.finite .positive m e hm) (.finite .positive m e hm) =
          .roundWithAccuracy .binary64 .positive (2 ^ 53) (-53) .exact := by
        unfold UnpackedFloat.div
        dsimp only
        rw [divCore_self e hm]
        rfl
      rw [hdiv]
      rfl

theorem float_not_lt_zero {x : Float} (h : x = Weight.zero ∨ Weight.lt Weight.zero x) :
    Weight.lt x Weight.zero = false := by
  rcases h with rfl | h
  · rfl
  · rw [float_lt_eq] at h ⊢
    generalize x.toModel.unpack = u at h ⊢
    cases u with
    | notANumber => rfl
    | infinity s => cases s with
      | negative => exact absurd h Bool.false_ne_true
      | positive => rfl
    | zero s => rfl
    | finite s m e hm => cases s with
      | negative => exact absurd h Bool.false_ne_true
      | positive => rfl

instance : LawfulWeight Float where
  zero_add_zero := by decide
  isFinite_zero := by decide
  zero_lt_one := by decide
  not_lt_zero := float_not_lt_zero
  zero_lt_div_self := float_zero_lt_div_self

end Double

theorem Random.below_lt {γ : Type} [WordSource γ] {n : Nat} (g : γ) (hn : 0 < n) :
    (Random.below n g).1 < n := by
  unfold Random.below
  generalize Random.attempts = rounds
  induction rounds generalizing g with
  | zero => exact hn
  | succ rounds ih =>
    rw [Random.below.go]
    rcases WordSource.next g with ⟨v, g'⟩
    dsimp only
    split
    · have hv : v.toNat < Nat.pow 2 64 := v.toNat_lt
      exact Nat.div_lt_of_lt_mul (Nat.mul_lt_mul_of_pos_right hv hn)
    · exact ih g'

instance {γ : Type} [WordSource γ] : LawfulSampler γ Float := ⟨Random.below_lt⟩

/-! ## The index that is drawn -/

namespace Draw

variable {ω : Type} [Weight ω]

theorem locate_lt {point sum : ω} {ws : List ω} {i : Nat} (h : locate point sum ws = some i) :
    i < ws.length := by
  induction ws generalizing sum i with
  | nil => cases h
  | cons w ws ih =>
    simp only [locate] at h
    rw [List.length_cons]
    split at h
    · cases h
      exact Nat.succ_pos _
    · obtain ⟨j, hj, rfl⟩ := Option.map_eq_some_iff.mp h
      exact Nat.succ_lt_succ (ih hj)

theorem pos_of_lastPositive {ws : List ω} {i : Nat} (h : lastPositive ws = some i) :
    ∃ w, ws[i]? = some w ∧ Weight.lt Weight.zero w := by
  induction ws generalizing i with
  | nil => cases h
  | cons w ws ih =>
    cases hlast : lastPositive ws with
    | some j =>
      simp only [lastPositive, hlast, Option.some.injEq] at h
      subst h
      exact ih hlast
    | none =>
      simp only [lastPositive, hlast] at h
      split at h
      · next hpos =>
        cases h
        exact ⟨w, rfl, hpos⟩
      · cases h

theorem lastPositive_lt {ws : List ω} {i : Nat} (h : lastPositive ws = some i) : i < ws.length := by
  obtain ⟨w, hw, -⟩ := pos_of_lastPositive h
  exact (List.getElem?_eq_some_iff.mp hw).1

theorem isSome_lastPositive {ws : List ω} {w : ω} (hw : w ∈ ws) (hpos : Weight.lt Weight.zero w) :
    (lastPositive ws).isSome := by
  induction ws with
  | nil => cases hw
  | cons v ws ih =>
    simp only [lastPositive]
    cases hlast : lastPositive ws with
    | some j => rfl
    | none =>
      rcases List.mem_cons.mp hw with rfl | hmem
      · rw [hpos]
        rfl
      · have hsome := ih hmem
        rw [hlast] at hsome
        cases hsome

/-! ## A positive sum has a positive part -/

theorem effective_cases (w : ω) : effective w = Weight.zero ∨ Weight.lt Weight.zero (effective w) := by
  unfold effective
  split
  · exact Or.inl rfl
  · split
    · exact Or.inr ‹_›
    · exact Or.inl rfl

theorem effective_mem_cases (ws : List ω) :
    ∀ w ∈ ws.map effective, w = Weight.zero ∨ Weight.lt Weight.zero w := by
  intro w hw
  obtain ⟨v, -, rfl⟩ := List.mem_map.mp hw
  exact effective_cases v

theorem length_weights (ws : List ω) : (weights ws).length = ws.length := by
  unfold weights rescale
  dsimp only
  split
  · exact List.length_map _
  · split <;> simp

variable [LawfulWeight ω]

theorem total_eq_zero {ws : List ω} (h : ∀ w ∈ ws, w = Weight.zero) : total ws = Weight.zero := by
  unfold total
  induction ws with
  | nil => rfl
  | cons w ws ih =>
    obtain ⟨rfl, hrest⟩ := List.forall_mem_cons.mp h
    rw [List.foldl_cons, LawfulWeight.zero_add_zero, ih hrest]

/-- The larger one of two weights that are not negative is positive if the first is. -/
theorem foldl_larger {ws : List ω} (h : ∀ w ∈ ws, w = Weight.zero ∨ Weight.lt Weight.zero w) {m : ω}
    (hm : Weight.lt Weight.zero m) :
    let r := ws.foldl (fun m w => if Weight.lt m w then w else m) m
    r ∈ m :: ws ∧ Weight.lt Weight.zero r := by
  induction ws generalizing m with
  | nil => exact ⟨List.mem_singleton.mpr rfl, hm⟩
  | cons w ws ih =>
    obtain ⟨hw, hrest⟩ := List.forall_mem_cons.mp h
    rw [List.foldl_cons]
    split
    · next hlt =>
      have hpos : Weight.lt Weight.zero w := by
        refine hw.resolve_left fun hzero => ?_
        rw [hzero, LawfulWeight.not_lt_zero (Or.inr hm)] at hlt
        cases hlt
      exact (ih hrest hpos).imp_left (List.mem_cons_of_mem m)
    · refine (ih hrest hm).imp_left fun hmem => ?_
      rcases List.mem_cons.mp hmem with heq | hmem
      · rw [heq]
        exact List.mem_cons_self
      · exact List.mem_cons_of_mem m (List.mem_cons_of_mem w hmem)

theorem largest_of_pos {ws : List ω} (h : ∀ w ∈ ws, w = Weight.zero ∨ Weight.lt Weight.zero w)
    {v : ω} (hv : v ∈ ws) (hpos : Weight.lt Weight.zero v) :
    largest ws ∈ ws ∧ Weight.lt Weight.zero (largest ws) := by
  unfold largest
  induction ws with
  | nil => cases hv
  | cons w ws ih =>
    obtain ⟨hw, hrest⟩ := List.forall_mem_cons.mp h
    rw [List.foldl_cons]
    split
    · next hlt => exact foldl_larger hrest hlt
    · next hlt =>
      refine (ih hrest ?_).imp_left (List.mem_cons_of_mem w)
      rcases List.mem_cons.mp hv with rfl | hmem
      · exact absurd hpos hlt
      · exact hmem

/-- Rescaling leaves the largest weight positive. -/
theorem exists_pos_rescale {ws : List ω} (h : ∀ w ∈ ws, w = Weight.zero ∨ Weight.lt Weight.zero w)
    {v : ω} (hv : v ∈ ws) (hpos : Weight.lt Weight.zero v) :
    ∃ w ∈ rescale ws, Weight.lt Weight.zero w := by
  obtain ⟨hmem, hlargest⟩ := largest_of_pos h hv hpos
  unfold rescale
  dsimp only
  split
  · next hinfinite =>
    refine ⟨Weight.one, List.mem_map.mpr ⟨largest ws, hmem, ?_⟩, LawfulWeight.zero_lt_one⟩
    rw [if_pos hinfinite]
  · next hfinite =>
    refine ⟨_, List.mem_map.mpr ⟨largest ws, hmem, rfl⟩, ?_⟩
    exact LawfulWeight.zero_lt_div_self hlargest (Bool.eq_false_iff.mpr hfinite)

theorem exists_pos_or_total_eq_zero {ws : List ω}
    (h : ∀ w ∈ ws, w = Weight.zero ∨ Weight.lt Weight.zero w) :
    (∃ w ∈ ws, Weight.lt Weight.zero w) ∨ total ws = Weight.zero := by
  by_cases hpos : ∃ w ∈ ws, Weight.lt Weight.zero w
  · exact .inl hpos
  · exact .inr (total_eq_zero fun w hw => (h w hw).resolve_right fun hlt => hpos ⟨w, hw, hlt⟩)

/-- Weights are rescaled only if one of them is positive: otherwise their sum is zero. -/
theorem weights_cases (ws : List ω) :
    weights ws = ws.map effective ∧ isFinite (total (ws.map effective)) ∨
      weights ws = rescale (ws.map effective) ∧
        ∃ w ∈ ws.map effective, Weight.lt Weight.zero w := by
  unfold weights
  dsimp only
  split
  · next hfinite => exact .inl ⟨rfl, hfinite⟩
  · next hinfinite =>
    refine .inr ⟨rfl, (exists_pos_or_total_eq_zero (effective_mem_cases ws)).resolve_right ?_⟩
    intro hzero
    rw [hzero] at hinfinite
    exact hinfinite LawfulWeight.isFinite_zero

theorem exists_pos_weights {ws : List ω} (h : Weight.lt Weight.zero (total (weights ws))) :
    ∃ w ∈ weights ws, Weight.lt Weight.zero w := by
  rcases weights_cases ws with ⟨heq, -⟩ | ⟨heq, w, hw, hpos⟩
  · rw [heq] at h ⊢
    refine (exists_pos_or_total_eq_zero (effective_mem_cases ws)).resolve_right fun hzero => ?_
    rw [hzero, LawfulWeight.not_lt_zero (.inl rfl)] at h
    cases h
  · rw [heq]
    exact exists_pos_rescale (effective_mem_cases ws) hw hpos

variable {γ : Type} [Sampler γ ω] [LawfulSampler γ ω]

theorem exists_index {ws : List ω} (h : ws ≠ []) (g : γ) :
    ∃ i g', index ws g = (.ok i, g') ∧ i < ws.length := by
  unfold index
  split
  · exact absurd rfl h
  · exact ⟨0, g, rfl, Nat.one_pos⟩
  · dsimp only
    split
    · next hsum =>
      obtain ⟨w, hw, hpos⟩ := exists_pos_weights hsum
      have hsome := isSome_lastPositive hw hpos
      rcases Sampler.point (total (weights ws)) g with ⟨point, g'⟩
      have hlen := length_weights ws
      cases hlocate : locate point Weight.zero (weights ws) with
      | some i => exact ⟨i, g', rfl, hlen ▸ locate_lt hlocate⟩
      | none =>
        obtain ⟨i, hlast⟩ := Option.isSome_iff_exists.mp hsome
        rw [hlast]
        exact ⟨i, g', rfl, hlen ▸ lastPositive_lt hlast⟩
    · exact ⟨_, _, rfl, LawfulSampler.index_lt g (List.length_pos_iff.mpr h)⟩

end Draw

/-! ## The variant that is drawn -/

section Variant

variable {γ : Type} [WordSource γ] {options : List VariantOption}

theorem exists_chooseVariant (h : options ≠ []) (g : γ) :
    ∃ o ∈ options, ∃ g', chooseVariant options g = (.ok o.toVariant, g') := by
  have hweights : options.map (·.weight) ≠ [] := fun hnil => h (List.map_eq_nil_iff.mp hnil)
  obtain ⟨i, g', hindex, hlt⟩ := Draw.exists_index hweights g
  rw [List.length_map] at hlt
  refine ⟨options[i], List.getElem_mem hlt, g', ?_⟩
  unfold chooseVariant
  rw [hindex]
  simp only [List.getElem?_eq_getElem hlt]

/-- Where nothing is offered the source is not asked. -/
theorem chooseVariant_nil (g : γ) : chooseVariant [] g = (.error .noVariants, g) := rfl

end Variant

end Paywall
