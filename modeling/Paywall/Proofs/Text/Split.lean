import Paywall.Text.Split

/-!
# Cutting at the first separator

A text without the separator is one part. Otherwise the first part ends at the first separator, and
the others are those of what stands behind it. So keys without points can be joined by points and are
found again.
-/

namespace Paywall.Text

variable {sep : Char} {front : List Char}

theorem split_of_not_mem (h : sep ∉ front) : split sep front = [front] := by
  induction front with
  | nil => rfl
  | cons c cs ih =>
    rw [List.mem_cons, not_or] at h
    obtain ⟨hc, hcs⟩ := h
    rw [split, if_neg (Ne.symm hc), ih hcs]

theorem split_append_cons (h : sep ∉ front) (rest : List Char) :
    split sep (front ++ sep :: rest) = front :: split sep rest := by
  induction front with
  | nil => rw [List.nil_append, split, if_pos rfl]
  | cons c cs ih =>
    rw [List.mem_cons, not_or] at h
    obtain ⟨hc, hcs⟩ := h
    rw [List.cons_append, split, if_neg (Ne.symm hc), ih hcs]

theorem splitOnce?_of_not_mem (h : sep ∉ front) : splitOnce? sep front = none := by
  induction front with
  | nil => rfl
  | cons c cs ih =>
    rw [List.mem_cons, not_or] at h
    obtain ⟨hc, hcs⟩ := h
    rw [splitOnce?, if_neg (Ne.symm hc), ih hcs]
    rfl

theorem splitOnce?_append_cons (h : sep ∉ front) (rest : List Char) :
    splitOnce? sep (front ++ sep :: rest) = some (front, rest) := by
  induction front with
  | nil => rw [List.nil_append, splitOnce?, if_pos rfl]
  | cons c cs ih =>
    rw [List.mem_cons, not_or] at h
    obtain ⟨hc, hcs⟩ := h
    rw [List.cons_append, splitOnce?, if_neg (Ne.symm hc), ih hcs]
    rfl

/-! ## Dotted paths -/

theorem segments_of_not_mem {key : String} (h : '.' ∉ key.toList) : segments key = [key] := by
  rw [segments, split_of_not_mem h, List.map_singleton, String.ofList_toList]

theorem segments_append {key : String} (h : '.' ∉ key.toList) (rest : String) :
    segments (key ++ "." ++ rest) = key :: segments rest := by
  have hchars : (key ++ "." ++ rest).toList = key.toList ++ '.' :: rest.toList := by simp
  rw [segments, hchars, split_append_cons h, List.map_cons, String.ofList_toList]
  rfl

theorem segments_intercalate {keys : List String} (hne : keys ≠ [])
    (h : ∀ key ∈ keys, '.' ∉ key.toList) : segments (".".intercalate keys) = keys := by
  induction keys with
  | nil => exact absurd rfl hne
  | cons key rest ih =>
    obtain ⟨hkey, hrest⟩ := List.forall_mem_cons.mp h
    cases rest with
    | nil => rw [String.intercalate_singleton, segments_of_not_mem hkey]
    | cons next rest =>
      rw [String.intercalate_cons_cons, segments_append hkey, ih (List.cons_ne_nil _ _) hrest]

end Paywall.Text
