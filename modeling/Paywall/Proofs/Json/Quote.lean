import Paywall.Json.Token
import Paywall.Json.Writer

/-!
# Quoted texts

A text in quotes is read back character by character, whatever stands in it: quotes, backslashes and
control characters are escaped, and no character is half a surrogate pair.
-/

namespace Paywall.Json

open Text (hexDigit?)

theorem hexDigit?_hexDigit {n : Nat} (h : n < 16) : hexDigit? (hexDigit n) = some n := by
  have hall : ∀ i : Fin 16, hexDigit? (hexDigit i) = some i.val := by decide
  exact hall ⟨n, h⟩

/-! ## Code points -/

section

variable (rest : List Char)

/-- A letter after a backslash stands for one character. -/
theorem scanUnits?_escaped {e c : Char} (hu : e ≠ 'u') (he : escaped? e = some c) :
    scanUnits? ('\\' :: e :: rest) =
      (scanUnits? rest).map fun scanned => (c.toNat :: scanned.1, scanned.2) := by
  rw [scanUnits?]
  · rw [he]
    cases scanUnits? rest <;> rfl
  · intro _ _ _ _ _ h
    exact absurd h hu

/-- Four hexadecimal digits, of which the first two are zeros. -/
theorem scanUnits?_numbered {n : Nat} (h : n < 256) :
    scanUnits? ('\\' :: 'u' :: '0' :: '0' :: hexDigit (n / 16) :: hexDigit (n % 16) :: rest) =
      (scanUnits? rest).map fun scanned => (n :: scanned.1, scanned.2) := by
  have hhigh := hexDigit?_hexDigit (n := n / 16) (by omega)
  have hlow := hexDigit?_hexDigit (n := n % 16) (by omega)
  have hzero : hexDigit? '0' = some 0 := by decide
  have hvalue : ((0 * 16 + 0) * 16 + n / 16) * 16 + n % 16 = n := by omega
  rw [scanUnits?, hzero, hhigh, hlow]
  cases scanUnits? rest with
  | none => rfl
  | some scanned =>
    simp only [Option.bind_eq_bind, Option.bind_some, Option.map_some]
    rw [hvalue]

theorem scanUnits?_plain {c : Char} (hquote : c ≠ '"') (hslash : c ≠ '\\') (hc : ¬ c.toNat < 0x20) :
    scanUnits? (c :: rest) =
      (scanUnits? rest).map fun scanned => (c.toNat :: scanned.1, scanned.2) := by
  have hplain : ¬ (c.toNat < 0x20 ∨ c = '\\') := by
    rintro (h | h)
    · exact hc h
    · exact hslash h
  rw [scanUnits?]
  · rw [if_neg hplain]
    cases scanUnits? rest <;> rfl
  · exact hquote
  · intro _ _ _ _ _ h _
    exact absurd h hslash
  · intro _ _ h _
    exact absurd h hslash

/-- One character is read back as it was escaped. -/
theorem scanUnits?_escapeChar (c : Char) :
    scanUnits? (escapeChar c ++ rest) =
      (scanUnits? rest).map fun scanned => (c.toNat :: scanned.1, scanned.2) := by
  unfold escapeChar
  split
  case h_8 c hquote hslash _ _ _ _ _ =>
    split
    · next hcontrol => exact scanUnits?_numbered rest (Nat.lt_trans hcontrol (by decide))
    · next hcontrol => exact scanUnits?_plain rest hquote hslash hcontrol
  all_goals exact scanUnits?_escaped rest (by decide) rfl

theorem scanUnits?_flatMap (cs : List Char) :
    scanUnits? (cs.flatMap escapeChar ++ '"' :: rest) = some (cs.map Char.toNat, rest) := by
  induction cs with
  | nil => rw [List.flatMap_nil, List.nil_append, scanUnits?, List.map_nil]
  | cons c cs ih =>
    rw [List.flatMap_cons, List.append_assoc, scanUnits?_escapeChar, ih, Option.map_some,
      List.map_cons]

end

/-! ## Characters -/

theorem not_surrogate (c : Char) : ¬ (0xD800 ≤ c.toNat ∧ c.toNat ≤ 0xDFFF) := by
  rcases c.valid with hlow | ⟨hhigh, -⟩
  · exact fun h => absurd (Nat.lt_of_lt_of_le hlow h.1) (Nat.lt_irrefl _)
  · exact fun h => absurd (Nat.lt_of_lt_of_le hhigh h.2) (Nat.lt_irrefl _)

/-- The code points of characters are joined to the same characters. -/
theorem joinSurrogates?_map (cs : List Char) : joinSurrogates? (cs.map Char.toNat) = some cs := by
  induction cs with
  | nil => rfl
  | cons c cs ih =>
    have hc := not_surrogate c
    have hfirst : ¬ (0xD800 ≤ c.toNat ∧ c.toNat ≤ 0xDBFF) := fun h => hc ⟨h.1, by omega⟩
    have hsecond : ¬ (0xDC00 ≤ c.toNat ∧ c.toNat ≤ 0xDFFF) := fun h => hc ⟨by omega, h.2⟩
    cases cs with
    | nil => rw [List.map_cons, List.map_nil, joinSurrogates?, if_neg hc, Char.ofNat_toNat]
    | cons d ds =>
      rw [List.map_cons] at ih
      rw [List.map_cons, List.map_cons, joinSurrogates?, if_neg hfirst, if_neg hsecond, ih,
        Option.map_some, Char.ofNat_toNat]

/-- A text in quotes is one token. -/
theorem next?_quote (s : String) (rest : List Char) :
    Token.next? (quote s ++ rest) = some (.string (some s), rest) := by
  have hunits := scanUnits?_flatMap rest s.toList
  have hcons : quote s ++ rest = '"' :: (s.toList.flatMap escapeChar ++ '"' :: rest) := by
    simp [quote]
  rw [hcons, Token.next?, hunits, Option.map_some]
  simp only [joinSurrogates?_map, Option.map_some, String.ofList_toList]

end Paywall.Json
