import Paywall.Text.Blank
import Paywall.Text.Numeral

/-!
# Digits

Digits are read as the number they stand for, in front of which zeros do not count, and with a sign
in front as a whole number.
-/

namespace Paywall.Text

theorem digit?_of_isDigit {c : Char} (h : c.isDigit) : digit? c = some (c.toNat - 48) := by
  have hrange : '0' ≤ c ∧ c ≤ '9' := by
    simpa [Char.isDigit, Char.le_def] using h
  rw [digit?, if_pos hrange]

theorem isDigit_of_isDigit {c : Char} (h : c.isDigit) : isDigit c := by
  rw [isDigit, digit?_of_isDigit h]
  rfl

/-- A digit is no blank, so nothing is trimmed in front of it. -/
theorem not_isBlank_of_isDigit {c : Char} (h : c.isDigit) : ¬ isBlank c := by
  have hrange : 48 ≤ c.toNat ∧ c.toNat ≤ 57 := by
    simpa [Char.isDigit, UInt32.le_iff_toNat_le] using h
  simp only [isBlank, Bool.or_eq_true, Bool.and_eq_true, decide_eq_true_eq, beq_iff_eq]
  omega

section

variable {cs : List Char} (hcs : ∀ c ∈ cs, c.isDigit)

include hcs

theorem digitsValue_eq_ofDigitChars (acc : Nat) :
    digitsValue acc cs = Nat.ofDigitChars 10 cs acc := by
  induction cs generalizing acc with
  | nil => exact Nat.ofDigitChars_nil.symm
  | cons c cs ih =>
    rw [digitsValue, digit?_of_isDigit (hcs c (.head _)), Nat.ofDigitChars_cons, Nat.mul_comm 10]
    exact ih (fun d hd => hcs d (.tail _ hd)) _

theorem trimStart_digits (hne : cs ≠ []) (rest : List Char) :
    trimStart (cs ++ rest) = cs ++ rest := by
  cases cs with
  | nil => exact absurd rfl hne
  | cons c cs => exact List.dropWhile_cons_of_neg (not_isBlank_of_isDigit (hcs c (.head _)))

theorem readNat?_digits (hne : cs ≠ []) : readNat? cs = some (Nat.ofDigitChars 10 cs 0) := by
  have hall : cs.all isDigit = true :=
    List.all_eq_true.mpr fun c hc => isDigit_of_isDigit (hcs c hc)
  rw [readNat?, if_pos ⟨hne, hall⟩, digitsValue_eq_ofDigitChars hcs]

/-- Digits have no sign in front. -/
theorem splitSign_digits : splitSign cs = (false, cs) := by
  unfold splitSign
  split
  · exact absurd (hcs '-' (.head _)) (by decide)
  · exact absurd (hcs '+' (.head _)) (by decide)
  · rfl

end

/-! ## Whole numbers -/

/-- Digits with an optional sign, and the whole number that they denote. -/
inductive Denotes : List Char → Int → Prop
  | unsigned {cs : List Char} :
      cs ≠ [] → (∀ c ∈ cs, c.isDigit) → Denotes cs (Nat.ofDigitChars 10 cs 0)
  | plus {cs : List Char} :
      cs ≠ [] → (∀ c ∈ cs, c.isDigit) → Denotes ('+' :: cs) (Nat.ofDigitChars 10 cs 0)
  | minus {cs : List Char} :
      cs ≠ [] → (∀ c ∈ cs, c.isDigit) → Denotes ('-' :: cs) (-(Nat.ofDigitChars 10 cs 0 : Int))

namespace Denotes

variable {cs : List Char}

theorem readInt?_eq {z : Int} (h : Denotes cs z) : readInt? cs = some z := by
  cases h with
  | unsigned hne hdigits =>
    rw [readInt?, splitSign_digits hdigits]
    simp only [readNat?_digits hdigits hne]
    rfl
  | plus hne hdigits =>
    simp only [readInt?, splitSign, readNat?_digits hdigits hne]
    rfl
  | minus hne hdigits =>
    simp only [readInt?, splitSign, readNat?_digits hdigits hne]
    rfl

theorem readInt64?_eq {n : Int64} (h : Denotes cs n.toInt) : readInt64? cs = some n := by
  have hfits : fitsInt64 n.toInt = true := by
    have hlow := n.le_toInt
    have hhigh := n.toInt_lt
    simp only [fitsInt64, Bool.and_eq_true, decide_eq_true_eq]
    omega
  rw [readInt64?, h.readInt?_eq]
  show (if fitsInt64 n.toInt then some (Int64.ofInt n.toInt) else none) = some n
  rw [if_pos hfits, Int64.ofInt_toInt]

/-- All characters are digits or signs. -/
theorem isDigit_or_sign {z : Int} (h : Denotes cs z) :
    ∀ c ∈ cs, c.isDigit ∨ c = '+' ∨ c = '-' := by
  cases h with
  | unsigned _ hdigits => exact fun c hc => .inl (hdigits c hc)
  | plus _ hdigits =>
    exact List.forall_mem_cons.mpr ⟨.inr (.inl rfl), fun c hc => .inl (hdigits c hc)⟩
  | minus _ hdigits =>
    exact List.forall_mem_cons.mpr ⟨.inr (.inr rfl), fun c hc => .inl (hdigits c hc)⟩

end Denotes

end Paywall.Text
