import Paywall.Proofs.Expression.Evaluation
import Paywall.Proofs.Text.Blank

/-!
# Reading a comparison

A path, an operator and a literal are read as the comparison of these, with or without blanks
between them, when the path has none of the characters that are read as something else.
-/

namespace Paywall.Expression

/-! ## Finding the operator -/

/-- The characters that operators begin with. -/
def operatorMarks : List Char := ['=', '!', '<', '>']

theorem splitComparison?_cons {c : Char} (hc : c ∉ operatorMarks) (rest : List Char) :
    splitComparison? (c :: rest) =
      (splitComparison? rest).map fun (a, op, b) => (c :: a, op, b) := by
  simp only [operatorMarks, List.mem_cons, List.not_mem_nil, or_false, not_or] at hc
  rw [splitComparison?]
  all_goals simp [hc]

/-- Behind a text without such characters an operator is found. -/
theorem splitComparison?_append {front rest behind : List Char} {op : Comparison}
    (hfront : ∀ c ∈ front, c ∉ operatorMarks)
    (hrest : splitComparison? rest = some ([], op, behind)) :
    splitComparison? (front ++ rest) = some (front, op, behind) := by
  induction front with
  | nil => exact hrest
  | cons c front ih =>
    obtain ⟨hc, hfront⟩ := List.forall_mem_cons.mp hfront
    rw [List.cons_append, splitComparison?_cons hc, ih hfront]
    rfl

/-- An operator as it is written. -/
def Comparison.token : Comparison → String
  | .eq => "=="
  | .notEq => "!="
  | .atLeast => ">="
  | .atMost => "<="
  | .greater => ">"
  | .less => "<"

/-- An operator is read as itself, if no character behind it makes it another one. -/
theorem splitComparison?_token (op : Comparison) {rest : List Char} (h : rest.head? ≠ some '=') :
    splitComparison? (op.token.toList ++ rest) = some ([], op, rest) := by
  cases rest with
  | nil => cases op <;> rfl
  | cons c rest =>
    have hc : c ≠ '=' := by simpa using h
    cases op <;> simp [Comparison.token, splitComparison?, hc]

/-! ## Reading the parts -/

/-- None of the words that are read apart has an operator. -/
theorem ne_of_splitComparison? {cs : List Char} {word : String}
    {parts : List Char × Comparison × List Char} (h : splitComparison? cs = some parts)
    (hword : splitComparison? word.toList = none) : String.ofList cs ≠ word := by
  rintro rfl
  rw [String.toList_ofList, h] at hword
  cases hword

theorem exists_not_isBlank_of_literal? {cs : List Char} {value : Value}
    (h : literal? (Text.trim cs) = some value) : ∃ c ∈ cs, Text.isBlank c = false := by
  by_contra hall
  simp only [not_exists, not_and, Bool.not_eq_false] at hall
  have hnone : literal? [] = none := by decide +kernel
  rw [Text.trim_eq_nil_iff.mpr hall, hnone] at h
  cases h

section

variable {cs path literal : List Char} {op : Comparison} {value : Value}

theorem Clause.parseTrimmed_of_split (hsplit : splitComparison? cs = some (path, op, literal))
    (hpath : Text.trim path ≠ []) (hvalue : literal? (Text.trim literal) = some value) :
    parseTrimmed cs = .ok (.compare (String.ofList (Text.trim path)) op value) := by
  have hne : cs ≠ [] := by
    rintro rfl
    cases hsplit
  have hliteral := Text.trim_ne_nil (exists_not_isBlank_of_literal? hvalue)
  unfold parseTrimmed
  rw [if_neg hne]
  split
  · next h => exact absurd h (ne_of_splitComparison? hsplit (by decide +kernel))
  · next h => exact absurd h (ne_of_splitComparison? hsplit (by decide +kernel))
  · simp only [hsplit, hpath, hliteral, hvalue, or_self, if_false]

/-- Blanks at the ends of the path and of the literal are left out. -/
theorem Clause.parse_compare (op : Comparison) (hpath : ∃ c ∈ path, Text.isBlank c = false)
    (hplain : ∀ c ∈ path, c ∉ operatorMarks) (hhead : literal.head? ≠ some '=')
    (hvalue : literal? (Text.trim literal) = some value) :
    parse (path ++ op.token.toList ++ literal) =
      .ok (.compare (String.ofList (Text.trim path)) op value) := by
  have hfront := Text.trimStart_ne_nil hpath
  obtain ⟨front, last, back, rfl, hlast, hback⟩ :=
    Text.exists_last_not_isBlank (exists_not_isBlank_of_literal? hvalue)
  have hliteral : Text.trim (front ++ last :: back) = Text.trim (front ++ [last]) := by
    rw [List.append_cons, Text.trim_append_of_isBlank hback]
  have hclause : Text.trim (path ++ op.token.toList ++ (front ++ last :: back)) =
      Text.trimStart path ++ (op.token.toList ++ (front ++ [last])) := by
    have htrim := Text.trim_append_concat hfront hlast (op.token.toList ++ front)
    rw [List.append_assoc op.token.toList] at htrim
    rw [← htrim, ← Text.trim_append_of_isBlank hback (path ++ _)]
    simp only [List.append_assoc, List.singleton_append]
  have hoperator : ∀ c ∈ Text.trimStart path, c ∉ operatorMarks := fun c hc =>
    hplain c ((List.dropWhile_sublist _).subset hc)
  have hbehind : (front ++ [last]).head? ≠ some '=' := by
    cases front <;> exact hhead
  have hsplit := splitComparison?_append hoperator (splitComparison?_token op hbehind)
  rw [hliteral] at hvalue
  rw [parse, hclause, ← Text.trim_trimStart path]
  refine parseTrimmed_of_split hsplit ?_ hvalue
  rw [Text.trim_trimStart]
  exact Text.trim_ne_nil hpath

end

/-- The characters that a path must not have: it would not be read as one. -/
def reservedMarks : List Char := ['"', '\'', '&', '|', '=', '!', '<', '>']

theorem plain_of_not_mem_reservedMarks {c : Char} (hc : c ∉ reservedMarks) :
    isQuote c = false ∧ c ∉ connectiveMarks ∧ c ∉ operatorMarks := by
  simp only [reservedMarks, List.mem_cons, List.not_mem_nil, or_false, not_or] at hc
  simp [isQuote, connectiveMarks, operatorMarks, hc]

theorem enclosed_of_not_mem_reservedMarks {cs : List Char} (h : ∀ c ∈ cs, c ∉ reservedMarks) :
    Enclosed connectiveMarks cs :=
  .of_forall fun c hc =>
    have hplain := plain_of_not_mem_reservedMarks (h c hc)
    ⟨hplain.1, hplain.2.1⟩

/-- A text without reserved characters, an operator and a literal that keeps connectives inside of
quotes are one clause. -/
theorem parse_compare {path literal : List Char} {value : Value} (op : Comparison)
    (hpath : ∃ c ∈ path, Text.isBlank c = false) (hplain : ∀ c ∈ path, c ∉ reservedMarks)
    (henclosed : Enclosed connectiveMarks literal) (hhead : literal.head? ≠ some '=')
    (hvalue : literal? (Text.trim literal) = some value) :
    parse (path ++ op.token.toList ++ literal) =
      .ok [[.compare (String.ofList (Text.trim path)) op value]] := by
  have hfront := enclosed_of_not_mem_reservedMarks hplain
  have htoken : Enclosed connectiveMarks op.token.toList := by
    cases op <;> decide +kernel
  have hoperator : ∀ c ∈ path, c ∉ operatorMarks := fun c hc =>
    (plain_of_not_mem_reservedMarks (hplain c hc)).2.2
  rw [parse_of_enclosed ((hfront.append htoken).append henclosed),
    Clause.parse_compare op hpath hoperator hhead hvalue]
  rfl

end Paywall.Expression
