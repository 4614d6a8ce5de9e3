import Paywall.Proofs.Expression.Comparison

/-!
# Quoted text is opaque

A comparison of a variable with a quoted text is read as such, whatever stands between the quotes:
operators, connectives and the other quote are text there. It holds exactly if the variable has that
text as its value.
-/

namespace Paywall.Expression

/-! ## Quoted texts -/

section

variable {cs : List Char} {q : Char}

theorem eq_or_eq_of_isQuote (hq : isQuote q = true) : q = '"' ∨ q = '\'' := by
  simpa [isQuote] using hq

theorem isBlank_of_isQuote (hq : isQuote q = true) : Text.isBlank q = false := by
  rcases eq_or_eq_of_isQuote hq with rfl | rfl <;> rfl

theorem ofList_ne_of_mem {c : Char} {word : String} (hmem : c ∈ cs) (hword : c ∉ word.toList) :
    String.ofList cs ≠ word := by
  rintro rfl
  rw [String.toList_ofList] at hword
  exact hword hmem

/-- A text with a quote in it is none of the words that are read apart. -/
theorem not_word_of_quote_mem (hq : isQuote q = true) (hmem : q ∈ cs) :
    String.ofList cs ≠ "true" ∧ String.ofList cs ≠ "false" ∧ String.ofList cs ≠ "null" := by
  have hword : q ∉ "true".toList ∧ q ∉ "false".toList ∧ q ∉ "null".toList := by
    rcases eq_or_eq_of_isQuote hq with rfl | rfl <;> decide +kernel
  obtain ⟨htrue, hfalse, hnull⟩ := hword
  exact ⟨ofList_ne_of_mem hmem htrue, ofList_ne_of_mem hmem hfalse, ofList_ne_of_mem hmem hnull⟩

theorem quoted?_concat (q : Char) (text : List Char) :
    quoted? q (q :: (text ++ [q])) = some text := by
  simp [quoted?]

/-- Between its quotes a text is read as it stands. -/
theorem literal?_quoted (hq : isQuote q = true) (text : List Char) :
    literal? (q :: (text ++ [q])) = some (.string (String.ofList text)) := by
  obtain ⟨htrue, hfalse, hnull⟩ := not_word_of_quote_mem hq (List.mem_cons_self ..)
  unfold literal?
  split
  · next h => exact absurd h htrue
  · next h => exact absurd h hfalse
  · next h => exact absurd h hnull
  · rcases eq_or_eq_of_isQuote hq with rfl | rfl
    · rw [quoted?_concat]
      rfl
    · have hother : quoted? '"' ('\'' :: (text ++ ['\''])) = none := rfl
      rw [hother, quoted?_concat]
      rfl

/-- Blanks inside of quotes stay. -/
theorem trim_quoted (hq : isQuote q = true) (text : List Char) :
    Text.trim (' ' :: q :: (text ++ [q])) = q :: (text ++ [q]) := by
  have hblank := isBlank_of_isQuote hq
  exact (Text.trim_concat hblank (' ' :: q :: text)).trans
    (congrArg (· ++ [q]) (Text.trimStart_cons_of_not_isBlank hblank text))

end

/-! ## Comparisons with a quoted text -/

/-- A text in quotes. -/
def inQuotes (q : Char) (text : String) : String :=
  String.singleton q ++ text ++ String.singleton q

/-- The content of the quotes is part of the value and of nothing else. -/
theorem parse_comparison {path middle text : String} {q : Char} (op : Comparison)
    (hpath : ∃ c ∈ path.toList, Text.isBlank c = false)
    (hplain : ∀ c ∈ path.toList, c ∉ reservedMarks)
    (hmiddle : middle.toList = ' ' :: (op.token.toList ++ [' '])) (hq : isQuote q = true)
    (htext : q ∉ text.toList) :
    parse (path ++ middle ++ inQuotes q text).toList =
      .ok [[.compare (String.ofList (Text.trim path.toList)) op (.string text)]] := by
  have hquoted : Enclosed connectiveMarks (' ' :: q :: (text.toList ++ [q])) :=
    .plain rfl (by decide) (.quoted hq htext .nil)
  have hvalue : literal? (Text.trim (' ' :: q :: (text.toList ++ [q]))) = some (.string text) := by
    rw [trim_quoted hq, literal?_quoted hq, String.ofList_toList]
  have hchars : (path ++ middle ++ inQuotes q text).toList =
      (path.toList ++ [' ']) ++ op.token.toList ++ (' ' :: q :: (text.toList ++ [q])) := by
    simp [inQuotes, hmiddle]
  have hblank : ∃ c ∈ path.toList ++ [' '], Text.isBlank c = false := by
    obtain ⟨c, hc, hblank⟩ := hpath
    exact ⟨c, List.mem_append_left _ hc, hblank⟩
  have hreserved : ∀ c ∈ path.toList ++ [' '], c ∉ reservedMarks :=
    List.forall_mem_append.mpr ⟨hplain, List.forall_mem_singleton.mpr (by decide)⟩
  rw [hchars, parse_compare op hblank hreserved hquoted (by simp) hvalue,
    Text.trim_concat_of_isBlank rfl]

/-! ## Comparing with a text -/

theorem beq_string_iff {v : Value} {s : String} : (v == .string s) = true ↔ v = .string s := by
  cases v <;> simp [BEq.beq, Value.beq]

/-- A text is not compared as a number. -/
theorem numericOrder?_string (v : Value) (s : String) : numericOrder? v (.string s) = none := by
  cases v <;> rfl

theorem holds_eq_string_iff {v : Option Value} {s : String} :
    Comparison.eq.holds (v.getD .null) (.string s) = true ↔ v = some (.string s) := by
  simp only [Comparison.holds, numericOrder?_string]
  rw [beq_string_iff]
  cases v <;> simp

theorem holds_notEq_string (v : Value) (s : String) :
    Comparison.notEq.holds v (.string s) = !Comparison.eq.holds v (.string s) := by
  simp only [Comparison.holds, numericOrder?_string]

/-- Between quotes any text may stand that does not have the quote itself. Comparisons of a variable
with it are read with that text as their value; the one for equality holds exactly if the variable
has this value, and the other one if not. -/
theorem evaluate_inQuotes {path text : String} {q : Char}
    (hpath : ∃ c ∈ path.toList, Text.isBlank c = false)
    (hplain : ∀ c ∈ path.toList, c ∉ reservedMarks) (hq : q = '"' ∨ q = '\'')
    (htext : q ∉ text.toList) (scope : Scope) :
    let trimmed := String.ofList (Text.trim path.toList)
    parse (path ++ " == " ++ inQuotes q text).toList =
        .ok [[.compare trimmed .eq (.string text)]] ∧
      parse (path ++ " != " ++ inQuotes q text).toList =
        .ok [[.compare trimmed .notEq (.string text)]] ∧
      ∃ b, (b = true ↔ scope.lookup? trimmed = some (.string text)) ∧
        evaluate (path ++ " == " ++ inQuotes q text) scope = .ok b ∧
        evaluate (path ++ " != " ++ inQuotes q text) scope = .ok !b := by
  intro trimmed
  have hquote : isQuote q = true := by
    rcases hq with rfl | rfl <;> rfl
  have heq : parse (path ++ " == " ++ inQuotes q text).toList =
      .ok [[.compare trimmed .eq (.string text)]] :=
    parse_comparison .eq hpath hplain rfl hquote htext
  have hne : parse (path ++ " != " ++ inQuotes q text).toList =
      .ok [[.compare trimmed .notEq (.string text)]] :=
    parse_comparison .notEq hpath hplain rfl hquote htext
  refine ⟨heq, hne, _, holds_eq_string_iff, evaluate_of_parse heq scope, ?_⟩
  rw [evaluate_of_parse hne, Clause.holds, holds_notEq_string]

/-- Connectives, an operator, blanks and the other quote in quotes, compared with the same text. -/
theorem evaluate_inQuotes_marks :
    let path := " user.plan\t"
    let text := "  a && \"b || c\" == <naïve, "
    let scope : Scope := ⟨Table.empty.insert "plan" (.string text), ∅, ∅⟩
    let trimmed := String.ofList (Text.trim path.toList)
    (∃ c ∈ path.toList, Text.isBlank c = false) ∧ (∀ c ∈ path.toList, c ∉ reservedMarks) ∧
      ('\'' = '"' ∨ '\'' = '\'') ∧ '\'' ∉ text.toList ∧
      scope.lookup? trimmed = some (.string text) ∧
      parse (path ++ " == " ++ inQuotes '\'' text).toList =
        .ok [[.compare trimmed .eq (.string text)]] ∧
      parse (path ++ " != " ++ inQuotes '\'' text).toList =
        .ok [[.compare trimmed .notEq (.string text)]] ∧
      ∃ b, (b = true ↔ scope.lookup? trimmed = some (.string text)) ∧
        evaluate (path ++ " == " ++ inQuotes '\'' text) scope = .ok b ∧
        evaluate (path ++ " != " ++ inQuotes '\'' text) scope = .ok !b := by
  intro path text scope trimmed
  have hpath : ∃ c ∈ path.toList, Text.isBlank c = false := ⟨'u', by decide +kernel, rfl⟩
  have hall : path.toList.all (fun c => decide (c ∉ reservedMarks)) = true := by decide +kernel
  have hplain : ∀ c ∈ path.toList, c ∉ reservedMarks := fun c hc =>
    of_decide_eq_true (List.all_eq_true.mp hall c hc)
  have htext : '\'' ∉ text.toList := by decide +kernel
  have htrimmed : trimmed = "user.plan" := by decide +kernel
  have hlookup : scope.lookup? trimmed = some (.string text) := by
    rw [htrimmed]
    rfl
  exact ⟨hpath, hplain, .inr rfl, htext, hlookup,
    evaluate_inQuotes hpath hplain (.inr rfl) htext scope⟩

end Paywall.Expression
