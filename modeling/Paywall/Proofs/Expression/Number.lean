import Paywall.Proofs.Expression.Comparison
import Paywall.Proofs.Text.Numeral
import Paywall.Proofs.Value.Double

/-!
# Comparing whole numbers

Numbers of all types are compared as doubles. For whole numbers of 64 bits that is the comparison of
the doubles nearest to them, so it is the comparison of the numbers themselves, unless two different
numbers have the same nearest double.
-/

namespace Paywall

open Float.Model (UnpackedFloat)

/-! ## The order of numbers -/

theorem lt_iff_compare {x y : Float} :
    x < y ↔ x.toModel.unpack.compare y.toModel.unpack = some .lt := by
  show decide (x.toModel < y.toModel) = true ↔ _
  rw [decide_eq_true_iff]
  show (x.toModel.unpack.compare y.toModel.unpack == some .lt) = true ↔ _
  exact beq_iff_eq

theorem beq_iff_compare {x y : Float} :
    (x == y) = true ↔ x.toModel.unpack.compare y.toModel.unpack = some .eq := by
  show (x.toModel.unpack.compare y.toModel.unpack == some .eq) = true ↔ _
  exact beq_iff_eq

/-- The whole number that a value holds. -/
def Value.integer? : Value → Option Int
  | .int n | .timestamp n => some n.toInt
  | .uint n => some n.toNat
  | _ => none

theorem Value.number?_of_integer? {v : Value} {n : Int} (h : v.integer? = some n) :
    n.natAbs < 2 ^ 64 ∧ v.number? = some (Float.ofInt n) := by
  have hword (m : Int64) : m.toInt.natAbs < 2 ^ 64 := by
    have hlow := m.le_toInt
    have hhigh := m.toInt_lt
    omega
  cases v with
  | int m =>
    obtain rfl := Option.some.inj h
    exact ⟨hword m, rfl⟩
  | timestamp m =>
    obtain rfl := Option.some.inj h
    exact ⟨hword m, rfl⟩
  | uint m =>
    obtain rfl := Option.some.inj h
    exact ⟨m.toNat_lt, rfl⟩
  | _ => cases h

namespace Expression

theorem order?_of_standsFor {x y : Float} {a b : Int} (hx : StandsFor x.toModel.unpack a)
    (hy : StandsFor y.toModel.unpack b) : order? x y = some (compare a b) := by
  have hxy := hx.compare_eq hy
  have hyx := hy.compare_eq hx
  have hlt : x < y ↔ a < b := by
    rw [lt_iff_compare, hxy, Option.some_inj, Int.compare_eq_lt]
  have heq : (x == y) = true ↔ a = b := by
    rw [beq_iff_compare, hxy, Option.some_inj, Int.compare_eq_eq]
  have hgt : y < x ↔ b < a := by
    rw [lt_iff_compare, hyx, Option.some_inj, Int.compare_eq_lt]
  unfold order?
  rcases Int.lt_trichotomy a b with h | h | h
  · rw [if_pos (hlt.mpr h), Int.compare_eq_lt.mpr h]
  · rw [if_neg (mt hlt.mp (by omega)), if_pos (heq.mpr h), Int.compare_eq_eq.mpr h]
  · rw [if_neg (mt hlt.mp (by omega)), if_neg (mt heq.mp (by omega)), if_pos (hgt.mpr h),
      Int.compare_eq_gt.mpr h]

/-- Whole numbers are compared by the doubles nearest to them. -/
theorem numericOrder?_of_integer? {v w : Value} {a b : Int} (hv : v.integer? = some a)
    (hw : w.integer? = some b) :
    numericOrder? v w = some (compare (nearestDouble a) (nearestDouble b)) := by
  obtain ⟨ha, hva⟩ := Value.number?_of_integer? hv
  obtain ⟨hb, hwb⟩ := Value.number?_of_integer? hw
  unfold numericOrder?
  rw [hva, hwb]
  exact order?_of_standsFor (standsFor_float_ofInt ha) (standsFor_float_ofInt hb)

/-- The relation between whole numbers that an operator is written for. -/
def Comparison.Relates : Comparison → Int → Int → Prop
  | .eq, a, b => a = b
  | .notEq, a, b => a ≠ b
  | .atLeast, a, b => b ≤ a
  | .atMost, a, b => a ≤ b
  | .greater, a, b => b < a
  | .less, a, b => a < b

instance (op : Comparison) (a b : Int) : Decidable (op.Relates a b) :=
  match op with
  | .eq => inferInstanceAs (Decidable (a = b))
  | .notEq => inferInstanceAs (Decidable (a ≠ b))
  | .atLeast => inferInstanceAs (Decidable (b ≤ a))
  | .atMost => inferInstanceAs (Decidable (a ≤ b))
  | .greater => inferInstanceAs (Decidable (b < a))
  | .less => inferInstanceAs (Decidable (a < b))

/-- Of two values in a known order an operator holds if it relates them. -/
theorem Comparison.holds_eq {v w : Value} {a b : Int}
    (h : numericOrder? v w = some (compare a b)) (op : Comparison) :
    op.holds v w = decide (op.Relates a b) := by
  rw [Bool.eq_iff_iff, decide_eq_true_iff]
  unfold Comparison.holds Comparison.Relates
  rw [h]
  cases op with
  | eq => simp
  | notEq => simp
  | atLeast => simp [Int.compare_eq_gt]; omega
  | atMost => simp [Int.compare_eq_lt]; omega
  | greater => simp [Int.compare_eq_gt]
  | less => simp [Int.compare_eq_lt]

/-! ## Literals -/

theorem quoted?_eq_none {q : Char} {cs : List Char} (h : q ∉ cs) : quoted? q cs = none := by
  cases cs with
  | nil => rfl
  | cons c cs =>
    have hc : c ≠ q := fun heq => h (heq ▸ List.mem_cons_self ..)
    rw [quoted?, if_neg fun hquoted => hc hquoted.1]

section

variable {cs : List Char} {m : Int64} (h : Text.Denotes cs m.toInt)

include h

/-- A whole number is no word. -/
theorem ofList_ne_of_denotes {word : String} (hword : Text.readInt64? word.toList = none) :
    String.ofList cs ≠ word := by
  rintro rfl
  rw [String.toList_ofList, h.readInt64?_eq] at hword
  cases hword

theorem literal?_of_denotes : literal? cs = some (.int m) := by
  have hquote : '"' ∉ cs ∧ '\'' ∉ cs :=
    ⟨fun hmem => absurd (h.isDigit_or_sign _ hmem) (by decide),
      fun hmem => absurd (h.isDigit_or_sign _ hmem) (by decide)⟩
  unfold literal?
  split
  · next hword => exact absurd hword (ofList_ne_of_denotes h (by decide +kernel))
  · next hword => exact absurd hword (ofList_ne_of_denotes h (by decide +kernel))
  · next hword => exact absurd hword (ofList_ne_of_denotes h (by decide +kernel))
  · rw [quoted?_eq_none hquote.1, quoted?_eq_none hquote.2, h.readInt64?_eq]
    rfl

end

/-- Digits, signs and blanks are read as nothing else. -/
theorem not_mem_reservedMarks_of_denotes {literal : List Char} {n : Int}
    (h : Text.Denotes (Text.trim literal) n) : ∀ c ∈ literal, c ∉ reservedMarks := by
  intro c hc hreserved
  rcases Text.mem_trim_or_isBlank hc with hmem | hblank
  · have hmarks : ∀ d ∈ reservedMarks, ¬ (d.isDigit ∨ d = '+' ∨ d = '-') := by
      simp [reservedMarks, Char.isDigit]
    exact hmarks c hreserved (h.isDigit_or_sign c hmem)
  · have hmarks : reservedMarks.any Text.isBlank = false := by decide +kernel
    exact absurd hblank (List.any_eq_false.mp hmarks c hreserved)

/-! ## Comparing with a whole number -/

/-- A variable that holds a whole number and a literal in the range of `Int64` are compared as the
doubles nearest to them. That is how they compare themselves, unless they are different and have the
same nearest double; up to `2 ^ 53` they have not. -/
theorem evaluate_integer {path literal : String} {scope : Scope} {v : Value} {n : Int} {m : Int64}
    (op : Comparison) (hpath : ∃ c ∈ path.toList, Text.isBlank c = false)
    (hplain : ∀ c ∈ path.toList, c ∉ reservedMarks)
    (hlookup : scope.lookup? (String.ofList (Text.trim path.toList)) = some v)
    (hn : v.integer? = some n) (hm : Text.Denotes (Text.trim literal.toList) m.toInt) :
    let answer := evaluate (path ++ op.token ++ literal) scope
    answer = .ok (decide (op.Relates (nearestDouble n) (nearestDouble m.toInt))) ∧
      ((nearestDouble n = nearestDouble m.toInt → n = m.toInt) →
        answer = .ok (decide (op.Relates n m.toInt))) ∧
      (n.natAbs ≤ 2 ^ 53 → m.toInt.natAbs ≤ 2 ^ 53 →
        answer = .ok (decide (op.Relates n m.toInt))) := by
  intro answer
  have hreserved := not_mem_reservedMarks_of_denotes hm
  have hhead : literal.toList.head? ≠ some '=' := by
    intro h
    exact hreserved '=' (List.mem_of_head? h) (by decide)
  have hparse : parse (path ++ op.token ++ literal).toList =
      .ok [[.compare (String.ofList (Text.trim path.toList)) op (.int m)]] := by
    rw [String.toList_append, String.toList_append]
    exact parse_compare op hpath hplain (enclosed_of_not_mem_reservedMarks hreserved) hhead
      (literal?_of_denotes hm)
  have hanswer {a b : Int} (horder : numericOrder? v (.int m) = some (compare a b)) :
      answer = .ok (decide (op.Relates a b)) := by
    rw [← op.holds_eq horder]
    refine (evaluate_of_parse hparse scope).trans ?_
    rw [Clause.holds, hlookup]
    rfl
  have horder : numericOrder? v (.int m) =
      some (compare (nearestDouble n) (nearestDouble m.toInt)) := numericOrder?_of_integer? hn rfl
  have hexact (h : nearestDouble n = nearestDouble m.toInt → n = m.toInt) :
      answer = .ok (decide (op.Relates n m.toInt)) :=
    hanswer (horder.trans (congrArg some (compare_nearestDouble h)))
  refine ⟨hanswer horder, hexact, fun hle hle' => hexact fun h => ?_⟩
  rwa [nearestDouble_of_le hle, nearestDouble_of_le hle'] at h

/-- At the limit a timestamp is still told from the number next to it. -/
theorem evaluate_integer_limit :
    let path := " user.at\t"
    let literal := " -9007199254740991 "
    let v : Value := .timestamp (-9007199254740992)
    let scope : Scope := ⟨Table.empty.insert "at" v, ∅, ∅⟩
    (∃ c ∈ path.toList, Text.isBlank c = false) ∧ (∀ c ∈ path.toList, c ∉ reservedMarks) ∧
      scope.lookup? (String.ofList (Text.trim path.toList)) = some v ∧
      v.integer? = some (-9007199254740992) ∧
      Text.Denotes (Text.trim literal.toList) (-9007199254740991 : Int64).toInt ∧
      evaluate (path ++ Comparison.less.token ++ literal) scope = .ok true := by
  intro path literal v scope
  have hpath : ∃ c ∈ path.toList, Text.isBlank c = false := ⟨'u', by decide +kernel, rfl⟩
  have hall : path.toList.all (fun c => decide (c ∉ reservedMarks)) = true := by decide +kernel
  have hplain : ∀ c ∈ path.toList, c ∉ reservedMarks := fun c hc =>
    of_decide_eq_true (List.all_eq_true.mp hall c hc)
  have htrimmed : String.ofList (Text.trim path.toList) = "user.at" := by decide +kernel
  have hlookup : scope.lookup? (String.ofList (Text.trim path.toList)) = some v := by
    rw [htrimmed]
    rfl
  have hm : Text.Denotes (Text.trim literal.toList) (-9007199254740991 : Int64).toInt := by
    have hliteral : Text.trim literal.toList = '-' :: "9007199254740991".toList := by
      decide +kernel
    have hdigits : "9007199254740991".toList.all Char.isDigit = true := by decide +kernel
    rw [hliteral]
    exact .minus (by decide +kernel) (List.all_eq_true.mp hdigits)
  have hanswer := (evaluate_integer .less hpath hplain hlookup rfl hm).2.2 (by decide) (by decide)
  exact ⟨hpath, hplain, hlookup, rfl, hm, hanswer⟩

/-- Beyond it the next number may count as the same. -/
theorem evaluate_integer_inexact :
    let scope : Scope := ⟨Table.empty.insert "n" (.int 9007199254740993), ∅, ∅⟩
    scope.lookup? "user.n" = some (.int 9007199254740993) ∧
      ¬ Comparison.eq.Relates 9007199254740993 9007199254740992 ∧
      evaluate "user.n == 9007199254740992" scope = .ok true := by
  intro scope
  exact ⟨rfl, by decide, rfl⟩

end Expression

end Paywall
