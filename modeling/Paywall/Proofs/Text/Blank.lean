import Mathlib.Data.List.DropRight
import Mathlib.Data.List.TakeWhile
import Paywall.Text.Blank

/-!
# Trimming

Blanks at the ends of a text do not change what trimming leaves of it, and in front of a character
that is no blank nothing is trimmed from behind.
-/

namespace Paywall.Text

variable {cs : List Char} {c : Char}

theorem trimStart_eq_nil_iff : trimStart cs = [] ↔ ∀ d ∈ cs, isBlank d = true :=
  List.dropWhile_eq_nil_iff

theorem trimStart_ne_nil (h : ∃ d ∈ cs, isBlank d = false) : trimStart cs ≠ [] := by
  obtain ⟨d, hd, hblank⟩ := h
  intro hnil
  rw [trimStart_eq_nil_iff.mp hnil d hd] at hblank
  cases hblank

theorem trimStart_cons_of_not_isBlank (hc : isBlank c = false) (cs : List Char) :
    trimStart (c :: cs) = c :: cs :=
  List.dropWhile_cons_of_neg (by simp [hc])

theorem trimStart_append (h : trimStart cs ≠ []) (rest : List Char) :
    trimStart (cs ++ rest) = trimStart cs ++ rest := by
  unfold trimStart at *
  rw [List.dropWhile_append, if_neg (by simpa using h)]

/-- The end of a text stays if it is no blank. -/
theorem trimStart_concat (hc : isBlank c = false) (cs : List Char) :
    trimStart (cs ++ [c]) = trimStart cs ++ [c] := by
  by_cases h : trimStart cs = []
  · have hcs : trimStart (cs ++ [c]) = trimStart [c] :=
      List.dropWhile_append_of_pos (trimStart_eq_nil_iff.mp h)
    rw [hcs, trimStart_cons_of_not_isBlank hc, h, List.nil_append]
  · exact trimStart_append h [c]

theorem trimStart_trimStart (cs : List Char) : trimStart (trimStart cs) = trimStart cs :=
  List.dropWhile_idempotent ..

/-- Trimming is trimming in front and then behind. -/
theorem trim_eq (cs : List Char) : trim cs = (trimStart cs).rdropWhile isBlank := rfl

theorem trim_eq_nil_iff : trim cs = [] ↔ ∀ d ∈ cs, isBlank d = true := by
  rw [trim_eq, List.rdropWhile_eq_nil_iff, ← trimStart_eq_nil_iff, trimStart_trimStart,
    trimStart_eq_nil_iff]

theorem trim_ne_nil (h : ∃ d ∈ cs, isBlank d = false) : trim cs ≠ [] := by
  rw [Ne, trim_eq_nil_iff, ← trimStart_eq_nil_iff]
  exact trimStart_ne_nil h

theorem trim_concat (hc : isBlank c = false) (cs : List Char) :
    trim (cs ++ [c]) = trimStart cs ++ [c] := by
  rw [trim_eq, trimStart_concat hc]
  exact List.rdropWhile_concat_neg _ _ _ (by simp [hc])

/-- Nothing is trimmed between two characters that are no blanks. -/
theorem trim_append_concat (hcs : trimStart cs ≠ []) (hc : isBlank c = false) (rest : List Char) :
    trim (cs ++ (rest ++ [c])) = trimStart cs ++ (rest ++ [c]) := by
  rw [← List.append_assoc, trim_concat hc, trimStart_append hcs, List.append_assoc]

theorem trim_trimStart (cs : List Char) : trim (trimStart cs) = trim cs := by
  rw [trim_eq, trimStart_trimStart, trim_eq]

/-- Blanks behind a text are not part of what is left of it. -/
theorem trim_concat_of_isBlank (hc : isBlank c = true) (cs : List Char) :
    trim (cs ++ [c]) = trim cs := by
  by_cases h : trimStart cs = []
  · have hcs := trimStart_eq_nil_iff.mp h
    have hall : trim (cs ++ [c]) = [] :=
      trim_eq_nil_iff.mpr (List.forall_mem_append.mpr ⟨hcs, List.forall_mem_singleton.mpr hc⟩)
    rw [hall, trim_eq_nil_iff.mpr hcs]
  · rw [trim_eq, trimStart_append h, trim_eq]
    exact List.rdropWhile_concat_pos _ _ _ hc

theorem trim_append_of_isBlank {back : List Char} (h : ∀ d ∈ back, isBlank d = true)
    (cs : List Char) : trim (cs ++ back) = trim cs := by
  induction back generalizing cs with
  | nil => rw [List.append_nil]
  | cons c back ih =>
    obtain ⟨hc, hback⟩ := List.forall_mem_cons.mp h
    rw [List.append_cons, ih hback, trim_concat_of_isBlank hc]

/-- Trimming removes nothing but blanks. -/
theorem mem_trim_or_isBlank (h : c ∈ cs) : c ∈ trim cs ∨ isBlank c = true := by
  rw [← List.takeWhile_append_dropWhile (p := isBlank) (l := cs)] at h
  rcases List.mem_append.mp h with hfront | hrest
  · exact .inr (List.mem_takeWhile_imp hfront)
  · rw [← List.rdropWhile_append_rtakeWhile (p := isBlank) (l := cs.dropWhile isBlank)] at hrest
    rcases List.mem_append.mp hrest with hmiddle | hback
    · exact .inl hmiddle
    · exact .inr (List.mem_rtakeWhile_imp hback)

/-- The last character that is no blank. -/
theorem exists_last_not_isBlank (h : ∃ d ∈ cs, isBlank d = false) :
    ∃ front d back, cs = front ++ d :: back ∧ isBlank d = false ∧
      ∀ e ∈ back, isBlank e = true := by
  induction cs with
  | nil => simp at h
  | cons c cs ih =>
    by_cases hcs : ∃ d ∈ cs, isBlank d = false
    · obtain ⟨front, d, back, rfl, hd, hback⟩ := ih hcs
      exact ⟨c :: front, d, back, rfl, hd, hback⟩
    · simp only [not_exists, not_and, Bool.not_eq_false] at hcs
      have hc : isBlank c = false := by
        obtain ⟨d, hd, hblank⟩ := h
        rcases List.mem_cons.mp hd with rfl | hd
        · exact hblank
        · rw [hcs d hd] at hblank
          cases hblank
      exact ⟨[], c, cs, rfl, hc, hcs⟩

end Paywall.Text
