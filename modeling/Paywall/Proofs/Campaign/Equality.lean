import Paywall.Campaign

/-!
# Equality of paywalls

Paywalls are compared field by field, and their payloads as JSON values are, down to the doubles, of
which `0.0` equals `-0.0` and what is not a number equals nothing. So equal paywalls need not be the
same, but equality is symmetric and transitive, and every payload that JSON can hold equals itself.
-/

namespace Paywall

open Float.Model (UnpackedFloat)

/-! ## Doubles -/

/-- What a double counts for in comparisons. -/
inductive Comparand where
  | zero
  | infinity (sign : UnpackedFloat.Sign)
  | finite (sign : UnpackedFloat.Sign) (mantissa : Nat) (exponent : Int)

/-- Zeros lose their sign, and what is not a number counts for nothing. -/
def comparand? : UnpackedFloat → Option Comparand
  | .notANumber => none
  | .zero _ => some .zero
  | .infinity s => some (.infinity s)
  | .finite s m e _ => some (.finite s m e)

@[simp] theorem compare_sign_self (s : UnpackedFloat.Sign) : compare s s = .eq := by
  cases s <;> rfl

theorem compare_eq_iff (x y : UnpackedFloat) :
    x.compare y = some .eq ↔ comparand? x = comparand? y ∧ (comparand? x).isSome := by
  rcases x with (_ | _) | _ | _ | ⟨_ | _, m, e, hm⟩ <;>
    rcases y with (_ | _) | _ | _ | ⟨_ | _, n, k, hn⟩ <;>
    dsimp only [comparand?, UnpackedFloat.compare] <;>
    simp [Ordering.then_eq_eq, and_comm]

theorem isSome_comparand? {x : UnpackedFloat} (h : x.isFinite) : (comparand? x).isSome := by
  cases x with
  | notANumber => cases h
  | infinity s => cases h
  | zero s => rfl
  | finite s m e hm => rfl

theorem float_beq_iff (a b : Float) :
    a == b ↔ comparand? a.toModel.unpack = comparand? b.toModel.unpack ∧
      (comparand? a.toModel.unpack).isSome := by
  rw [← compare_eq_iff]
  exact beq_iff_eq (α := Option Ordering)

instance Float.instPartialEquivBEq : PartialEquivBEq Float where
  symm {a b} h := by
    obtain ⟨heq, hsome⟩ := (float_beq_iff a b).mp h
    exact (float_beq_iff b a).mpr ⟨heq.symm, heq ▸ hsome⟩
  trans {a b c} h h' := by
    obtain ⟨hab, hsome⟩ := (float_beq_iff a b).mp h
    obtain ⟨hbc, -⟩ := (float_beq_iff b c).mp h'
    exact (float_beq_iff a c).mpr ⟨hab.trans hbc, hsome⟩

/-- A finite double is equal to itself. -/
theorem float_beq_self {x : Float} (h : x.isFinite) : x == x := by
  exact (float_beq_iff x x).mpr ⟨rfl, isSome_comparand? h⟩

/-! ## JSON values -/

namespace Json

mutual

/-- Whether a value is one that JSON can hold: every part has a meaning, and doubles are finite. -/
def isProper : Json → Bool
  | .float x => x.isFinite
  | .array items => areProper items
  | .object members => haveProper members
  | .unreadable => false
  | _ => true

/-- `isProper` for the items of an array. -/
def areProper : List Json → Bool
  | [] => true
  | j :: rest => isProper j && areProper rest

/-- `isProper` for the members of an object. -/
def haveProper : List (String × Json) → Bool
  | [] => true
  | (_, j) :: rest => isProper j && haveProper rest

end

mutual

theorem beq_self : ∀ {j : Json}, j.isProper → beq j j
  | .null, _ | .bool _, _ | .int _, _ | .string _, _ => by simp [beq]
  | .float _, h => float_beq_self h
  | .array items, h => beqItems_self h
  | .object members, h => beqMembers_self h

theorem beqItems_self : ∀ {items : List Json}, areProper items → beqItems items items
  | [], _ => rfl
  | j :: rest, h => by
    obtain ⟨hj, hrest⟩ := Bool.and_eq_true_iff.mp h
    exact Bool.and_eq_true_iff.mpr ⟨beq_self hj, beqItems_self hrest⟩

theorem beqMembers_self : ∀ {members : List (String × Json)}, haveProper members →
    beqMembers members members
  | [], _ => rfl
  | (k, j) :: rest, h => by
    obtain ⟨hj, hrest⟩ := Bool.and_eq_true_iff.mp h
    simp [beqMembers, beq_self hj, beqMembers_self hrest]

end

mutual

theorem beq_symm : ∀ {a b : Json}, beq a b → beq b a
  | .null, .null, _ => rfl
  | .bool _, .bool _, h | .int _, .int _, h | .string _, .string _, h => BEq.symm h
  | .float _, .float _, h => BEq.symm (α := Float) h
  | .array _, .array _, h => beqItems_symm h
  | .object _, .object _, h => beqMembers_symm h

theorem beqItems_symm : ∀ {as bs : List Json}, beqItems as bs → beqItems bs as
  | [], [], _ => rfl
  | a :: as, b :: bs, h => by
    obtain ⟨hhead, hrest⟩ := Bool.and_eq_true_iff.mp h
    exact Bool.and_eq_true_iff.mpr ⟨beq_symm hhead, beqItems_symm hrest⟩

theorem beqMembers_symm : ∀ {as bs : List (String × Json)}, beqMembers as bs → beqMembers bs as
  | [], [], _ => rfl
  | (k, a) :: as, (l, b) :: bs, h => by
    simp only [beqMembers, Bool.and_eq_true] at h ⊢
    exact ⟨⟨BEq.symm h.1.1, beq_symm h.1.2⟩, beqMembers_symm h.2⟩

end

mutual

theorem beq_trans : ∀ {a b c : Json}, beq a b → beq b c → beq a c
  | .null, .null, .null, _, _ => rfl
  | .bool _, .bool _, .bool _, h, h' | .int _, .int _, .int _, h, h'
  | .string _, .string _, .string _, h, h' => BEq.trans h h'
  | .float _, .float _, .float _, h, h' => BEq.trans (α := Float) h h'
  | .array _, .array _, .array _, h, h' => beqItems_trans h h'
  | .object _, .object _, .object _, h, h' => beqMembers_trans h h'

theorem beqItems_trans : ∀ {as bs cs : List Json}, beqItems as bs → beqItems bs cs → beqItems as cs
  | [], [], [], _, _ => rfl
  | a :: as, b :: bs, c :: cs, h, h' => by
    simp only [beqItems, Bool.and_eq_true] at h h' ⊢
    exact ⟨beq_trans h.1 h'.1, beqItems_trans h.2 h'.2⟩

theorem beqMembers_trans : ∀ {as bs cs : List (String × Json)},
    beqMembers as bs → beqMembers bs cs → beqMembers as cs
  | [], [], [], _, _ => rfl
  | (k, a) :: as, (l, b) :: bs, (m, c) :: cs, h, h' => by
    simp only [beqMembers, Bool.and_eq_true] at h h' ⊢
    exact ⟨⟨BEq.trans h.1.1 h'.1.1, beq_trans h.1.2 h'.1.2⟩, beqMembers_trans h.2 h'.2⟩

end

instance : PartialEquivBEq Json := ⟨beq_symm, beq_trans⟩

end Json

/-! ## Paywalls -/

namespace Resource

theorem beq_iff {p q : Resource} :
    p == q ↔ p.identifier = q.identifier ∧ p.products = q.products ∧ p.condition = q.condition ∧
      p.isFreeTrialAvailable = q.isFreeTrialAvailable ∧ (p.payload == q.payload) ∧
      p.experiment = q.experiment := by
  change instBEqResource.beq p q ↔ _
  simp [instBEqResource.beq]

instance : PartialEquivBEq Resource where
  symm h := by
    simp only [beq_iff] at h ⊢
    obtain ⟨hi, hp, hc, hf, hj, he⟩ := h
    exact ⟨hi.symm, hp.symm, hc.symm, hf.symm, BEq.symm hj, he.symm⟩
  trans h h' := by
    simp only [beq_iff] at h h' ⊢
    obtain ⟨hi, hp, hc, hf, hj, he⟩ := h
    obtain ⟨hi', hp', hc', hf', hj', he'⟩ := h'
    exact ⟨hi.trans hi', hp.trans hp', hc.trans hc', hf.trans hf', BEq.trans hj hj', he.trans he'⟩

theorem beq_self {p : Resource} (h : p.payload.isProper) : p == p :=
  beq_iff.mpr ⟨rfl, rfl, rfl, rfl, Json.beq_self h, rfl⟩

/-- Equality, whatever the payload: a paywall is the same as itself and as those it equals. -/
def Same (p q : Resource) : Prop := p = q ∨ p == q

namespace Same

variable {p q r : Resource}

theorem refl (p : Resource) : Same p p := Or.inl rfl

theorem trans (h : Same p q) (h' : Same q r) : Same p r := by
  rcases h with h | h
  · exact h ▸ h'
  · rcases h' with h' | h'
    · exact Or.inr (h' ▸ h)
    · exact Or.inr (BEq.trans h h')

/-- What is compared may be replaced by the same. -/
theorem beq_congr {p' q' : Resource} (hp : Same p p') (hq : Same q q') (h : q == p) : q' == p' := by
  rcases hp with rfl | hp
  · rcases hq with rfl | hq
    · exact h
    · exact BEq.trans (BEq.symm hq) h
  · have hqp : q == p' := BEq.trans h hp
    rcases hq with rfl | hq
    · exact hqp
    · exact BEq.trans (BEq.symm hq) hqp

/-- For payloads that JSON can hold this is equality. -/
theorem beq (h : Same p q) (hq : q.payload.isProper) : p == q := by
  rcases h with h | h
  · subst h
    exact beq_self hq
  · exact h

theorem condition_eq (h : Same p q) : p.condition = q.condition := by
  rcases h with h | h
  · rw [h]
  · exact (beq_iff.mp h).2.2.1

theorem isFreeTrialAvailable_eq (h : Same p q) :
    p.isFreeTrialAvailable = q.isFreeTrialAvailable := by
  rcases h with h | h
  · rw [h]
  · exact (beq_iff.mp h).2.2.2.1

theorem experiment_eq (h : Same p q) : p.experiment = q.experiment := by
  rcases h with h | h
  · rw [h]
  · exact (beq_iff.mp h).2.2.2.2.2

/-- Filling in the experiment and the free trial keeps paywalls the same. -/
theorem finalize (h : Same p q) (experiment : Option AssignedExperiment) (purchased : List String)
    (forced : Option Bool) :
    Same (p.finalize experiment purchased forced) (q.finalize experiment purchased forced) := by
  rcases h with h | h
  · rw [h]
    exact refl _
  · obtain ⟨hi, hp, hc, -, hj, -⟩ := beq_iff.mp h
    have htrial : p.freeTrialAvailable purchased forced = q.freeTrialAvailable purchased forced := by
      unfold freeTrialAvailable
      rw [hp]
    exact Or.inr (beq_iff.mpr ⟨hi, hp, hc, htrial, hj, rfl⟩)

end Same

end Resource

end Paywall
