import Paywall.Expression.Connective

/-!
# Texts that close their quotes

A text is enclosed if it closes its quotes and has certain characters only inside them. One pass over
the text, which keeps the quote that is open, decides this.
-/

namespace Paywall.Expression

/-- Texts that close their quotes and have certain characters only inside them. -/
inductive Enclosed (marks : List Char) : List Char → Prop
  | nil : Enclosed marks []
  | plain {c : Char} {cs : List Char} :
      isQuote c = false → c ∉ marks → Enclosed marks cs → Enclosed marks (c :: cs)
  | quoted {q : Char} {text cs : List Char} :
      isQuote q = true → q ∉ text → Enclosed marks cs → Enclosed marks (q :: (text ++ q :: cs))

namespace Enclosed

variable {marks cs ds : List Char}

theorem append (hcs : Enclosed marks cs) (hds : Enclosed marks ds) :
    Enclosed marks (cs ++ ds) := by
  induction hcs with
  | nil => exact hds
  | plain hquote hmark _ ih => exact plain hquote hmark ih
  | quoted hquote htext _ ih =>
    rw [List.cons_append, List.append_assoc, List.cons_append]
    exact quoted hquote htext ih

/-- Fewer characters are easier to keep inside quotes. -/
theorem of_subset {fewer : List Char} (hcs : Enclosed marks cs) (h : fewer ⊆ marks) :
    Enclosed fewer cs := by
  induction hcs with
  | nil => exact nil
  | plain hquote hmark _ ih => exact plain hquote (fun hc => hmark (h hc)) ih
  | quoted hquote htext _ ih => exact quoted hquote htext ih

theorem of_forall (h : ∀ c ∈ cs, isQuote c = false ∧ c ∉ marks) : Enclosed marks cs := by
  induction cs with
  | nil => exact nil
  | cons c cs ih =>
    obtain ⟨⟨hquote, hmark⟩, hcs⟩ := List.forall_mem_cons.mp h
    exact plain hquote hmark (ih hcs)

theorem intercalate {sep : List Char} {parts : List (List Char)} (hsep : Enclosed marks sep)
    (hparts : ∀ part ∈ parts, Enclosed marks part) : Enclosed marks (sep.intercalate parts) := by
  induction parts with
  | nil => exact nil
  | cons part rest ih =>
    obtain ⟨hpart, hrest⟩ := List.forall_mem_cons.mp hparts
    cases rest with
    | nil =>
      rw [List.intercalate_singleton]
      exact hpart
    | cons next rest =>
      rw [List.intercalate_cons_cons]
      exact (hpart.append hsep).append (ih hrest)

end Enclosed

/-- Texts that close an open quote first. -/
def Closes (marks : List Char) (q : Char) (cs : List Char) : Prop :=
  ∃ text rest, cs = text ++ q :: rest ∧ q ∉ text ∧ Enclosed marks rest

section

variable {marks cs : List Char} {c q : Char}

theorem enclosed_cons_of_quote (hquote : isQuote c = true) :
    Enclosed marks (c :: cs) ↔ Closes marks c cs := by
  constructor
  · intro h
    cases h with
    | plain hplain => rw [hquote] at hplain; cases hplain
    | quoted _ htext hrest => exact ⟨_, _, rfl, htext, hrest⟩
  · rintro ⟨text, rest, rfl, htext, hrest⟩
    exact .quoted hquote htext hrest

theorem enclosed_cons_of_plain (hplain : isQuote c = false) :
    Enclosed marks (c :: cs) ↔ c ∉ marks ∧ Enclosed marks cs := by
  constructor
  · intro h
    cases h with
    | plain _ hmark hcs => exact ⟨hmark, hcs⟩
    | quoted hquote => rw [hplain] at hquote; cases hquote
  · rintro ⟨hmark, hcs⟩
    exact .plain hplain hmark hcs

theorem closes_cons_self : Closes marks q (q :: cs) ↔ Enclosed marks cs := by
  constructor
  · rintro ⟨text, rest, hsplit, htext, hrest⟩
    cases text with
    | nil =>
      obtain ⟨-, rfl⟩ := List.cons.inj hsplit
      exact hrest
    | cons d text =>
      obtain ⟨rfl, -⟩ := List.cons.inj hsplit
      exact absurd (List.mem_cons_self ..) htext
  · exact fun hcs => ⟨[], cs, rfl, List.not_mem_nil, hcs⟩

theorem closes_cons_of_ne (hc : c ≠ q) : Closes marks q (c :: cs) ↔ Closes marks q cs := by
  constructor
  · rintro ⟨text, rest, hsplit, htext, hrest⟩
    cases text with
    | nil => exact absurd (List.cons.inj hsplit).1 hc
    | cons d text =>
      obtain ⟨-, rfl⟩ := List.cons.inj hsplit
      exact ⟨text, rest, rfl, fun h => htext (List.mem_cons_of_mem _ h), hrest⟩
  · rintro ⟨text, rest, rfl, htext, hrest⟩
    exact ⟨c :: text, rest, rfl, List.not_mem_cons_of_ne_of_not_mem (Ne.symm hc) htext, hrest⟩

end

/-- Whether a text is enclosed, where `quote` is the quote that is open in front. -/
def isEnclosedFrom (marks : List Char) (quote : Option Char) : List Char → Bool
  | [] => quote.isNone
  | c :: cs =>
    (quote.isSome || isQuote c || !marks.contains c) && isEnclosedFrom marks (nextQuote quote c) cs

theorem isEnclosedFrom_iff {marks cs : List Char} {quote : Option Char} :
    isEnclosedFrom marks quote cs = true ↔
      match quote with
      | none => Enclosed marks cs
      | some q => Closes marks q cs := by
  induction cs generalizing quote with
  | nil =>
    cases quote with
    | none => simp [isEnclosedFrom, Enclosed.nil]
    | some q => simp [isEnclosedFrom, Closes]
  | cons c cs ih =>
    rw [isEnclosedFrom, Bool.and_eq_true, ih]
    cases quote with
    | none =>
      by_cases hquote : isQuote c = true
      · simp [nextQuote, hquote, enclosed_cons_of_quote]
      · rw [Bool.not_eq_true] at hquote
        simp [nextQuote, hquote, enclosed_cons_of_plain]
    | some q =>
      by_cases hc : c = q
      · subst hc
        simp [nextQuote, closes_cons_self]
      · simp [nextQuote, hc, closes_cons_of_ne]

/-- If no characters are to be kept inside quotes, only the quotes count. -/
theorem isEnclosedFrom_cons_of_no_marks {c : Char} {cs : List Char} {quote : Option Char} :
    isEnclosedFrom [] quote (c :: cs) = isEnclosedFrom [] (nextQuote quote c) cs := by
  simp [isEnclosedFrom]

theorem enclosed_iff {marks cs : List Char} :
    Enclosed marks cs ↔ isEnclosedFrom marks none cs = true := by
  rw [isEnclosedFrom_iff]

instance (marks : List Char) : DecidablePred (Enclosed marks) := fun cs =>
  decidable_of_iff (isEnclosedFrom marks none cs = true) isEnclosedFrom_iff

end Paywall.Expression
