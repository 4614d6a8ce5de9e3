import Paywall.Proofs.Assignment.Weighing
import Paywall.Proofs.Random.Range

/-!
# What a draw asks for and takes

The range that a draw asks its source for is never empty and always has an end. The running sum that
first exceeds the point is one that its last weight has raised, so that weight is positive; if none
exceeds the point the last positive weight is taken. So with a source that keeps to the ranges a
variant of positive weight is drawn wherever there is one. Each source of words keeps to them.
-/

namespace Paywall

namespace Draw

/-! ## Requests -/

/-- What a source is asked for. -/
inductive Request (ω : Type) where
  /-- An index below a number. -/
  | index (n : Nat)
  /-- A point between zero and a weight. -/
  | point (w : ω)

section

variable {ω : Type} [Weight ω]

/-- Whether the range is not empty and has an end. -/
def Request.IsProper : Request ω → Prop
  | .index n => 0 < n
  | .point w => Weight.lt Weight.zero w ∧ isFinite w

/-- Whether a source keeps to the ranges that it is asked for. -/
structure InRange (ω : Type) [Weight ω] {γ : Type} [Sampler γ ω] (g : γ) : Prop where
  index_lt : ∀ {n : Nat}, 0 < n → (Sampler.index ω n g).1 < n
  isNaN_point : ∀ {w : ω}, Weight.lt Weight.zero w → isFinite w →
    Weight.isNaN (Sampler.point w g).1 = false
  not_neg_point : ∀ {w : ω}, Weight.lt Weight.zero w → isFinite w →
    Weight.lt (Sampler.point w g).1 Weight.zero = false
  point_lt : ∀ {w : ω}, Weight.lt Weight.zero w → isFinite w → Weight.lt (Sampler.point w g).1 w

end

/-- A source with all that it has been asked for, the latest first. -/
structure Watched (γ ω : Type) where
  source : γ
  asked : List (Request ω)

instance {γ ω : Type} [Sampler γ ω] : Sampler (Watched γ ω) ω where
  index n g := ((Sampler.index ω n g.source).1,
    ⟨(Sampler.index ω n g.source).2, .index n :: g.asked⟩)
  point w g := ((Sampler.point w g.source).1, ⟨(Sampler.point w g.source).2, .point w :: g.asked⟩)

theorem point_watched {γ ω : Type} [Sampler γ ω] (w : ω) (g : γ) (asked : List (Request ω)) :
    Sampler.point w (⟨g, asked⟩ : Watched γ ω) =
      ((Sampler.point w g).1, ⟨(Sampler.point w g).2, .point w :: asked⟩) := rfl

/-! ## The weight that is drawn -/

variable {ω : Type} [Weight ω] [SizedWeight ω]

open SizedWeight (HasSize)

/-- A running sum that a weight lifts over the point is one to which it adds something. -/
theorem pos_of_locate {ws : List ω} {point sum : ω} {p s i : Nat}
    (h : ∀ w ∈ ws, ∃ n, HasSize w n) (hpoint : HasSize point p) (hsum : HasSize sum s)
    (hle : s ≤ p) (hi : locate point sum ws = some i) :
    ∃ w, ws[i]? = some w ∧ Weight.lt Weight.zero w := by
  induction ws generalizing sum s i with
  | nil => cases hi
  | cons w ws ih =>
    obtain ⟨⟨n, hn⟩, hrest⟩ := List.forall_mem_cons.mp h
    obtain ⟨k, hk, -⟩ := SizedWeight.exists_hasSize_add hsum hn
    simp only [locate] at hi
    split at hi
    · next hexceeds =>
      cases hi
      refine ⟨w, rfl, (pos_iff hn).mpr (Nat.pos_of_ne_zero ?_)⟩
      rintro rfl
      have hsame := hasSize_unique hk (SizedWeight.hasSize_add_zero hsum hn)
      have hlt := (SizedWeight.lt_iff hpoint hk).mp hexceeds
      omega
    · next hnot =>
      obtain ⟨j, hj, rfl⟩ := Option.map_eq_some_iff.mp hi
      exact ih hrest hk (Nat.not_lt.mp (mt (SizedWeight.lt_iff hpoint hk).mpr hnot)) hj

variable [LawfulWeight ω]

/-- If the sum is positive then so is the weight that a point belongs to. -/
theorem exists_pos_of_point {ws : List ω} (hsum : Weight.lt Weight.zero (total (weights ws)))
    {point : ω} (hnan : Weight.isNaN point = false)
    (hneg : Weight.lt point Weight.zero = false) :
    ∃ i w, (locate point Weight.zero (weights ws) <|> lastPositive (weights ws)) = some i ∧
      ws[i]? = some w ∧ Weight.lt Weight.zero w := by
  obtain ⟨f, hf, hall⟩ := exists_weights_eq_map ws
  obtain ⟨p, hp⟩ := SizedWeight.exists_hasSize hnan hneg
  have hback : ∀ (i : Nat) (v : ω), (weights ws)[i]? = some v → Weight.lt Weight.zero v →
      ∃ w, ws[i]? = some w ∧ Weight.lt Weight.zero w := by
    intro i v hv hpos
    rw [hf, List.getElem?_map] at hv
    obtain ⟨w, hw, rfl⟩ := Option.map_eq_some_iff.mp hv
    exact ⟨w, hw, (hall w (List.mem_of_getElem? hw)).2 hpos⟩
  cases hlocate : locate point Weight.zero (weights ws) with
  | some i =>
    obtain ⟨v, hv, hpos⟩ :=
      pos_of_locate (exists_hasSize_weights ws) hp SizedWeight.hasSize_zero (Nat.zero_le p) hlocate
    obtain ⟨w, hw, hwpos⟩ := hback i v hv hpos
    exact ⟨i, w, rfl, hw, hwpos⟩
  | none =>
    obtain ⟨u, hu, hupos⟩ := exists_pos_weights hsum
    obtain ⟨i, hlast⟩ := Option.isSome_iff_exists.mp (isSome_lastPositive hu hupos)
    obtain ⟨v, hv, hpos⟩ := pos_of_lastPositive hlast
    obtain ⟨w, hw, hwpos⟩ := hback i v hv hpos
    exact ⟨i, w, hlast, hw, hwpos⟩

variable {γ : Type} [Sampler γ ω]

/-- Where one of the weights is positive so is the one that is drawn. -/
theorem exists_index_pos {ws : List ω} (hne : ws ≠ []) {g : γ} (hg : InRange ω g) :
    ∃ i w, (index ws g).1 = .ok i ∧ ws[i]? = some w ∧
      ∀ v ∈ ws, Weight.lt Weight.zero v → Weight.lt Weight.zero w := by
  unfold index
  split
  · exact absurd rfl hne
  · next w =>
    refine ⟨0, w, rfl, rfl, fun v hv hpos => ?_⟩
    rwa [← List.mem_singleton.mp hv]
  · dsimp only
    split
    · next hsum =>
      have hfinite := isFinite_total_weights ws
      obtain ⟨i, w, hi, hw, hpos⟩ := exists_pos_of_point hsum (hg.isNaN_point hsum hfinite)
        (hg.not_neg_point hsum hfinite)
      rw [hi]
      exact ⟨i, w, rfl, hw, fun _ _ _ => hpos⟩
    · next hsum =>
      have hlt := hg.index_lt (List.length_pos_iff.mpr hne)
      exact ⟨_, _, rfl, List.getElem?_eq_getElem hlt,
        fun v hv hpos => absurd (pos_total_weights hv hpos) hsum⟩

/-- A source that is watched gives the same numbers, and it is asked for proper ranges only. -/
theorem exists_index_watched (ws : List ω) (g : γ) :
    ∃ asked, index ws (⟨g, []⟩ : Watched γ ω) = ((index ws g).1, ⟨(index ws g).2, asked⟩) ∧
      ∀ r ∈ asked, r.IsProper := by
  unfold index
  split
  · exact ⟨[], rfl, fun _ hr => absurd hr List.not_mem_nil⟩
  · exact ⟨[], rfl, fun _ hr => absurd hr List.not_mem_nil⟩
  · next hnil _ =>
    dsimp only
    split
    · next hsum =>
      refine ⟨[.point (total (weights ws))], ?_, List.forall_mem_singleton.mpr ?_⟩
      · rw [point_watched]
        rcases Sampler.point (total (weights ws)) g with ⟨point, g'⟩
        dsimp only
        cases locate point Weight.zero (weights ws) <|> lastPositive (weights ws) with
        | some i => rfl
        | none => rfl
      · exact ⟨hsum, isFinite_total_weights ws⟩
    · next hsum =>
      refine ⟨[.index ws.length], rfl, List.forall_mem_singleton.mpr ?_⟩
      exact List.length_pos_iff.mpr hnil

end Draw

/-! ## Sources of words -/

/-- Sources of words keep to the ranges. -/
theorem Random.inRange {γ : Type} [WordSource γ] (g : γ) : Draw.InRange Float g := by
  have hpoint : ∀ {w : Float}, Weight.lt Weight.zero w → Draw.isFinite w →
      ∃ n k, HasUnits w.toModel.unpack n ∧
        HasUnits (fractionOf w g).1.toModel.unpack k ∧ k < n := by
    intro w hpos hfinite
    obtain ⟨n, hn⟩ := SizedWeight.exists_hasSize_of_pos hpos
    have hoverflow : n ≠ overflow := by
      rintro rfl
      have hinfinite : Weight.isInfinite w = true := hn.isInf_iff.mpr rfl
      rw [Draw.isFinite, hinfinite, Bool.not_true, Bool.and_false] at hfinite
      cases hfinite
    obtain ⟨k, hlt, hk⟩ :=
      exists_hasUnits_fractionOf hn ((Draw.pos_iff hn).mp hpos) hoverflow g
    exact ⟨n, k, hn, hk, hlt⟩
  refine ⟨below_lt g, fun hpos hfinite => ?_, fun hpos hfinite => ?_, fun hpos hfinite => ?_⟩
  · obtain ⟨n, k, -, hk, -⟩ := hpoint hpos hfinite
    exact hk.isNaN_eq_false
  · obtain ⟨n, k, -, hk, -⟩ := hpoint hpos hfinite
    exact Bool.eq_false_iff.mpr (mt (SizedWeight.lt_iff hk SizedWeight.hasSize_zero).mp
      (Nat.not_lt_zero k))
  · obtain ⟨n, k, hn, hk, hlt⟩ := hpoint hpos hfinite
    exact (SizedWeight.lt_iff hk hn).mpr hlt

/-! ## The variant that is drawn -/

section Variant

variable {γ : Type} [Sampler γ Float]

theorem float_pos_iff {x : Float} : Weight.lt Weight.zero x ↔ 0.0 < x := decide_eq_true_iff

theorem exists_chooseVariant_pos {options : List VariantOption} (hne : options ≠ []) {g : γ}
    (hg : Draw.InRange Float g) :
    ∃ o ∈ options, (chooseVariant options g).1 = .ok o.toVariant ∧
      ∀ p ∈ options, 0.0 < p.weight → 0.0 < o.weight := by
  have hweights : options.map (·.weight) ≠ [] := fun hnil => hne (List.map_eq_nil_iff.mp hnil)
  obtain ⟨i, w, hindex, hw, hpos⟩ := Draw.exists_index_pos hweights hg
  rw [List.getElem?_map] at hw
  obtain ⟨o, ho, rfl⟩ := Option.map_eq_some_iff.mp hw
  refine ⟨o, List.mem_of_getElem? ho, ?_, fun p hp hlt => ?_⟩
  · unfold chooseVariant
    generalize Draw.index (options.map (·.weight)) g = drawn at hindex ⊢
    obtain ⟨_, g'⟩ := drawn
    cases hindex
    simp only [ho]
  · exact float_pos_iff.mp (hpos p.weight (List.mem_map_of_mem hp) (float_pos_iff.mpr hlt))

theorem chooseVariant_watched (options : List VariantOption) (g : γ) :
    ∃ asked, chooseVariant options (⟨g, []⟩ : Draw.Watched γ Float) =
        ((chooseVariant options g).1, ⟨(chooseVariant options g).2, asked⟩) ∧
      ∀ r ∈ asked, r.IsProper := by
  obtain ⟨asked, hindex, hproper⟩ := Draw.exists_index_watched (options.map (·.weight)) g
  refine ⟨asked, ?_, hproper⟩
  unfold chooseVariant
  rw [hindex]
  generalize Draw.index (options.map (·.weight)) g = drawn
  obtain ⟨r, g'⟩ := drawn
  cases r with
  | error e => rfl
  | ok i =>
    dsimp only
    cases options[i]? with
    | none => rfl
    | some o => rfl

/-- Whatever the weights are, nothing is drawn only if nothing is offered, what is drawn has a
positive weight if anything has, and the source is asked for proper ranges only. -/
theorem chooseVariant_safe (options : List VariantOption) {g : γ} (hg : Draw.InRange Float g) :
    ((chooseVariant options g).1 = .error .noVariants ↔ options = []) ∧
      (chooseVariant options g).1 ≠ .error .invalidState ∧
      (options ≠ [] → ∃ o ∈ options, (chooseVariant options g).1 = .ok o.toVariant ∧
        ((∃ p ∈ options, 0.0 < p.weight) → 0.0 < o.weight)) ∧
      ∃ asked, chooseVariant options (⟨g, []⟩ : Draw.Watched γ Float) =
          ((chooseVariant options g).1, ⟨(chooseVariant options g).2, asked⟩) ∧
        ∀ r ∈ asked, r.IsProper := by
  have hwatched := chooseVariant_watched options g
  by_cases hnil : options = []
  · subst hnil
    exact ⟨iff_of_true rfl rfl, fun h => DrawError.noConfusion (Except.error.inj h),
      fun h => absurd rfl h, hwatched⟩
  · obtain ⟨o, ho, hdraw, hpos⟩ := exists_chooseVariant_pos hnil hg
    have hok : ∀ e, (chooseVariant options g).1 ≠ .error e := by
      intro e herror
      rw [hdraw] at herror
      cases herror
    refine ⟨iff_of_false (hok _) hnil, hok _, fun _ => ⟨o, ho, hdraw, ?_⟩, hwatched⟩
    rintro ⟨p, hp, hlt⟩
    exact hpos p hp hlt

/-- Two weights whose sum overflows, one that is no number and one that is negative. -/
theorem chooseVariant_safe_overflow :
    let options : List VariantOption :=
      [⟨"a", 1e308, .treatment, none⟩, ⟨"b", 1e308, .holdout, none⟩,
        ⟨"c", 0.0 / 0.0, .treatment, none⟩, ⟨"d", -1.0, .treatment, none⟩]
    let g : WordList := ⟨[0xffffffffffffffff, 7], 0⟩
    Draw.InRange Float g ∧
      ∃ o ∈ options, (chooseVariant options g).1 = .ok o.toVariant ∧ 0.0 < o.weight := by
  intro options g
  have hne : options ≠ [] := List.cons_ne_nil _ _
  have hpos : ∃ p ∈ options, 0.0 < p.weight := ⟨_, List.mem_cons_self, by decide +kernel⟩
  obtain ⟨-, -, hdraw, -⟩ := chooseVariant_safe options (Random.inRange g)
  obtain ⟨o, ho, hresult, hlt⟩ := hdraw hne
  exact ⟨Random.inRange g, o, ho, hresult, hlt hpos⟩

end Variant

end Paywall
