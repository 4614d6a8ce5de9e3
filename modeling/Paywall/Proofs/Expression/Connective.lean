import Paywall.Proofs.Expression.Enclosed

/-!
# Where a text is cut

A text is cut at its first connective outside quotes, and what stands behind it is cut in the same
way, until no connective is left. So nothing is lost, no part has a connective outside quotes, and a
quote that is never closed is in the last part. Texts that have the connective only inside quotes are
not cut, so they are found again when a connective has joined them.
-/

namespace Paywall.Expression

/-! ## Connectives outside quotes -/

/-- A text has the connective outside quotes. -/
def Connective.Occurs (k : Connective) (cs : List Char) : Prop :=
  ∃ front rest, cs = front ++ k.mark :: k.mark :: rest ∧ Enclosed [] front

/-- Whether a text has a character twice in a row outside quotes, where `quote` is the quote that is
open in front. -/
def occursFrom (mark : Char) (quote : Option Char) : List Char → Bool
  | [] => false
  | c :: cs =>
    decide (quote = none ∧ c = mark ∧ cs.head? = some mark) ||
      occursFrom mark (nextQuote quote c) cs

section

variable {mark c : Char} {quote : Option Char} {cs front rest : List Char}

theorem occursFrom_cons_eq_false :
    occursFrom mark quote (c :: cs) = false ↔
      ¬ (quote = none ∧ c = mark ∧ cs.head? = some mark) ∧
        occursFrom mark (nextQuote quote c) cs = false := by
  rw [occursFrom, Bool.or_eq_false_iff, decide_eq_false_iff_not]

theorem occursFrom_append (hfront : isEnclosedFrom [] quote front = true) :
    occursFrom mark quote (front ++ mark :: mark :: rest) = true := by
  induction front generalizing quote with
  | nil =>
    have hquote : quote = none := Option.isNone_iff_eq_none.mp hfront
    simp [occursFrom, hquote]
  | cons c front ih =>
    rw [isEnclosedFrom_cons_of_no_marks] at hfront
    rw [List.cons_append, occursFrom, ih hfront, Bool.or_true]

theorem head?_append_marks (mark : Char) (front rest : List Char) :
    (front ++ mark :: mark :: rest).head? = (front ++ [mark]).head? := by
  cases front <;> rfl

/-- There is a first place where the character stands twice: the text in front of it has none, not even
with the first of the two characters. -/
theorem exists_first_of_occursFrom (h : occursFrom mark quote cs = true) :
    ∃ front rest, cs = front ++ mark :: mark :: rest ∧ isEnclosedFrom [] quote front = true ∧
      occursFrom mark quote (front ++ [mark]) = false := by
  induction cs generalizing quote with
  | nil => cases h
  | cons c cs ih =>
    by_cases hcut : quote = none ∧ c = mark ∧ cs.head? = some mark
    · obtain ⟨rfl, rfl, hhead⟩ := hcut
      obtain ⟨rest, rfl⟩ := List.head?_eq_some_iff.mp hhead
      exact ⟨[], rest, rfl, rfl, by simp [occursFrom]⟩
    · rw [occursFrom, decide_eq_false hcut, Bool.false_or] at h
      obtain ⟨front, rest, rfl, hfront, hfirst⟩ := ih h
      refine ⟨c :: front, rest, rfl, ?_, ?_⟩
      · rw [isEnclosedFrom_cons_of_no_marks]
        exact hfront
      · rw [head?_append_marks] at hcut
        rw [List.cons_append, occursFrom_cons_eq_false]
        exact ⟨hcut, hfirst⟩

/-- A text that has the character only inside quotes does not have it twice in a row outside them, not
even with the character behind it. -/
theorem occursFrom_concat_of_isEnclosedFrom {marks : List Char} (hmark : mark ∈ marks)
    (hplain : isQuote mark = false) (h : isEnclosedFrom marks quote cs = true) :
    occursFrom mark quote (cs ++ [mark]) = false := by
  induction cs generalizing quote with
  | nil => simp [occursFrom]
  | cons c cs ih =>
    rw [isEnclosedFrom, Bool.and_eq_true] at h
    obtain ⟨hc, hcs⟩ := h
    rw [List.cons_append, occursFrom_cons_eq_false]
    refine ⟨?_, ih hcs⟩
    rintro ⟨rfl, rfl, -⟩
    simp [hplain, hmark] at hc

end

namespace Connective

variable {k : Connective} {cs front : List Char}

theorem occurs_iff : k.Occurs cs ↔ occursFrom k.mark none cs = true := by
  constructor
  · rintro ⟨front, rest, rfl, hfront⟩
    exact occursFrom_append (enclosed_iff.mp hfront)
  · intro h
    obtain ⟨front, rest, hcs, hfront, -⟩ := exists_first_of_occursFrom h
    exact ⟨front, rest, hcs, enclosed_iff.mpr hfront⟩

theorem not_occurs_iff : ¬ k.Occurs cs ↔ occursFrom k.mark none cs = false := by
  rw [occurs_iff, Bool.not_eq_true]

theorem Occurs.append (h : k.Occurs front) (rest : List Char) : k.Occurs (front ++ rest) := by
  obtain ⟨before, behind, rfl, hbefore⟩ := h
  exact ⟨before, behind ++ rest, by simp, hbefore⟩

theorem Occurs.exists_first (h : k.Occurs cs) :
    ∃ front rest, cs = front ++ k.mark :: k.mark :: rest ∧ Enclosed [] front ∧
      ¬ k.Occurs (front ++ [k.mark]) := by
  obtain ⟨front, rest, hcs, hfront, hfirst⟩ := exists_first_of_occursFrom (occurs_iff.mp h)
  exact ⟨front, rest, hcs, enclosed_iff.mpr hfront, not_occurs_iff.mpr hfirst⟩

theorem isQuote_mark (k : Connective) : isQuote k.mark = false := by
  cases k <;> rfl

theorem not_occurs_concat_of_enclosed {marks : List Char} (hmark : k.mark ∈ marks)
    (hcs : Enclosed marks cs) : ¬ k.Occurs (cs ++ [k.mark]) :=
  not_occurs_iff.mpr
    (occursFrom_concat_of_isEnclosedFrom hmark k.isQuote_mark (enclosed_iff.mp hcs))

end Connective

/-! ## The first cut -/

section

variable {mark : Char} {quote : Option Char} {cs front : List Char}

theorem splitFrom_ne_nil (mark : Char) (quote : Option Char) (cs : List Char) :
    splitFrom mark quote cs ≠ [] := by
  fun_cases splitFrom mark quote cs with
  | case1 | case2 | case3 => simp
  | case4 =>
    unfold consFirst
    split <;> simp

/-- A character that does not begin a connective goes to the first part. -/
theorem splitFrom_cons {c : Char} {rest : List Char}
    (h : ¬ (quote = none ∧ c = mark ∧ rest.head? = some mark)) :
    splitFrom mark quote (c :: rest) =
      (splitFrom mark (nextQuote quote c) rest).modifyHead (c :: ·) := by
  cases rest with
  | nil => rfl
  | cons d rest =>
    rw [List.head?_cons, Option.some_inj] at h
    obtain ⟨part, parts, hparts⟩ :=
      List.exists_cons_of_ne_nil (splitFrom_ne_nil mark (nextQuote quote c) (d :: rest))
    rw [splitFrom, if_neg h, hparts]
    rfl

theorem splitFrom_of_not_occurs (h : occursFrom mark quote cs = false) :
    splitFrom mark quote cs = [cs] := by
  induction cs generalizing quote with
  | nil => rfl
  | cons c cs ih =>
    obtain ⟨huncut, hrest⟩ := occursFrom_cons_eq_false.mp h
    rw [splitFrom_cons huncut, ih hrest]
    rfl

theorem splitFrom_of_first (hfront : isEnclosedFrom [] quote front = true)
    (hfirst : occursFrom mark quote (front ++ [mark]) = false) (rest : List Char) :
    splitFrom mark quote (front ++ mark :: mark :: rest) = front :: splitFrom mark none rest := by
  induction front generalizing quote with
  | nil =>
    have hquote : quote = none := Option.isNone_iff_eq_none.mp hfront
    rw [List.nil_append, splitFrom, if_pos ⟨hquote, rfl, rfl⟩]
  | cons c front ih =>
    rw [isEnclosedFrom_cons_of_no_marks] at hfront
    rw [List.cons_append, occursFrom_cons_eq_false] at hfirst
    obtain ⟨huncut, hfirst⟩ := hfirst
    rw [← head?_append_marks mark front rest] at huncut
    rw [List.cons_append, splitFrom_cons huncut, ih hfront hfirst]
    rfl

end

namespace Connective

variable {k : Connective} {cs : List Char} {parts : List (List Char)}

/-- A text and its parts. The text is cut where its first connective outside quotes stands. -/
inductive Cuts (k : Connective) : List Char → List (List Char) → Prop
  | uncut {cs : List Char} : ¬ k.Occurs cs → Cuts k cs [cs]
  | cut {front rest : List Char} {parts : List (List Char)} :
      Enclosed [] front → ¬ k.Occurs (front ++ [k.mark]) → Cuts k rest parts →
      Cuts k (front ++ k.mark :: k.mark :: rest) (front :: parts)

theorem split_of_not_occurs (h : ¬ k.Occurs cs) : k.split cs = [cs] :=
  splitFrom_of_not_occurs (not_occurs_iff.mp h)

theorem split_of_first {front : List Char} (hfront : Enclosed [] front)
    (hfirst : ¬ k.Occurs (front ++ [k.mark])) (rest : List Char) :
    k.split (front ++ k.mark :: k.mark :: rest) = front :: k.split rest :=
  splitFrom_of_first (enclosed_iff.mp hfront) (not_occurs_iff.mp hfirst) rest

theorem cuts_split (k : Connective) (cs : List Char) : k.Cuts cs (k.split cs) := by
  induction hn : cs.length using Nat.strongRecOn generalizing cs with
  | ind n ih =>
    by_cases hoccurs : k.Occurs cs
    · obtain ⟨front, rest, rfl, hfront, hfirst⟩ := hoccurs.exists_first
      have hlength : rest.length < n := by
        rw [← hn, List.length_append, List.length_cons, List.length_cons]
        omega
      rw [split_of_first hfront hfirst]
      exact .cut hfront hfirst (ih rest.length hlength rest rfl)
    · rw [split_of_not_occurs hoccurs]
      exact .uncut hoccurs

/-- The parts are determined. -/
theorem split_eq_iff_cuts : k.split cs = parts ↔ k.Cuts cs parts := by
  constructor
  · rintro rfl
    exact cuts_split k cs
  · intro h
    induction h with
    | uncut hcs => exact split_of_not_occurs hcs
    | cut hfront hfirst _ ih => rw [split_of_first hfront hfirst, ih]

/-! ## Enclosed texts -/

/-- An enclosed text is not cut. -/
theorem split_of_enclosed {marks : List Char} (hmark : k.mark ∈ marks) (hcs : Enclosed marks cs) :
    k.split cs = [cs] := by
  apply split_of_not_occurs
  intro hoccurs
  exact not_occurs_concat_of_enclosed hmark hcs (hoccurs.append [k.mark])

/-- Cutting at a connective gives back the texts that it has joined, if they are enclosed. -/
theorem split_intercalate {marks : List Char} (hmark : k.mark ∈ marks) (hne : parts ≠ [])
    (hparts : ∀ part ∈ parts, Enclosed marks part) :
    k.split ([k.mark, k.mark].intercalate parts) = parts := by
  rw [split_eq_iff_cuts]
  induction parts with
  | nil => exact absurd rfl hne
  | cons part rest ih =>
    obtain ⟨hpart, hrest⟩ := List.forall_mem_cons.mp hparts
    have hfirst := not_occurs_concat_of_enclosed hmark hpart
    cases rest with
    | nil =>
      rw [List.intercalate_singleton]
      exact .uncut fun hoccurs => hfirst (hoccurs.append [k.mark])
    | cons next rest =>
      rw [List.intercalate_cons_cons, List.append_assoc]
      exact .cut (hpart.of_subset (List.nil_subset marks)) hfirst
        (ih (List.cons_ne_nil next rest) hrest)

/-! ## The parts -/

namespace Cuts

theorem ne_nil (h : k.Cuts cs parts) : parts ≠ [] := by
  cases h <;> exact List.cons_ne_nil _ _

theorem intercalate_eq (h : k.Cuts cs parts) : [k.mark, k.mark].intercalate parts = cs := by
  induction h with
  | uncut _ => exact List.intercalate_singleton
  | @cut front rest parts _ _ hrest ih =>
    obtain ⟨next, others, rfl⟩ := List.exists_cons_of_ne_nil hrest.ne_nil
    rw [List.intercalate_cons_cons, ih]
    simp

theorem not_occurs (h : k.Cuts cs parts) : ∀ part ∈ parts, ¬ k.Occurs part := by
  induction h with
  | uncut hcs => exact List.forall_mem_singleton.mpr hcs
  | cut _ hfirst _ ih =>
    exact List.forall_mem_cons.mpr ⟨fun hfront => hfirst (hfront.append [k.mark]), ih⟩

theorem enclosed (h : k.Cuts cs parts) : ∀ part ∈ parts.dropLast, Enclosed [] part := by
  induction h with
  | uncut _ => exact List.forall_mem_nil _
  | cut hfront _ hrest ih =>
    rw [List.dropLast_cons_of_ne_nil hrest.ne_nil]
    exact List.forall_mem_cons.mpr ⟨hfront, ih⟩

end Cuts

/-- Joined again, the parts are the text. None of them has the connective outside quotes, so none is
cut a second time, and each but the last closes the quotes that it opens. -/
theorem split_into_uncut_parts (k : Connective) (cs : List Char) :
    [k.mark, k.mark].intercalate (k.split cs) = cs ∧
      (∀ part ∈ k.split cs, k.split part = [part] ∧ ¬ k.Occurs part) ∧
      ∀ part ∈ (k.split cs).dropLast, Enclosed [] part := by
  have hcuts := cuts_split k cs
  refine ⟨hcuts.intercalate_eq, ?_, hcuts.enclosed⟩
  intro part hpart
  have huncut := hcuts.not_occurs part hpart
  exact ⟨split_of_not_occurs huncut, huncut⟩

/-- Of three bars the first two are the connective, a bar or a letter beside them stays, and an open
quote keeps the bars behind it. -/
theorem split_into_uncut_parts_bars :
    let cs := "||é|||'||'ß||\"a||'".toList
    Connective.or.split cs =
        [[], "é".toList, "|'||'ß".toList, "\"a||'".toList] ∧
      "||".toList.intercalate [[], "é".toList, "|'||'ß".toList, "\"a||'".toList] = cs ∧
      ("|'||'ß".toList ∈ Connective.or.split cs ∧
        Connective.or.split "|'||'ß".toList = ["|'||'ß".toList] ∧
        ¬ Connective.or.Occurs "|'||'ß".toList) ∧
      "|'||'ß".toList ∈ (Connective.or.split cs).dropLast ∧ Enclosed [] "|'||'ß".toList := by
  intro cs
  have hsplit : Connective.or.split cs =
      [[], "é".toList, "|'||'ß".toList, "\"a||'".toList] := by
    decide +kernel
  obtain ⟨hjoined, huncut, hclosed⟩ := split_into_uncut_parts .or cs
  have hmem : "|'||'ß".toList ∈ Connective.or.split cs := by
    rw [hsplit]
    simp
  have hfront : "|'||'ß".toList ∈ (Connective.or.split cs).dropLast := by
    rw [hsplit]
    simp
  rw [hsplit] at hjoined
  exact ⟨hsplit, hjoined, ⟨hmem, huncut _ hmem⟩, hfront, hclosed _ hfront⟩

end Connective

end Paywall.Expression
