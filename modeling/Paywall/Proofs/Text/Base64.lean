import Paywall.Text.Base64

/-!
# Reading base 64 back

What has been written for a sequence of bytes is read as that sequence, whatever its length.
-/

namespace Paywall.Text.Base64

theorem decodeSextet?_encodeSextet {n : Nat} (h : n < 64) :
    decodeSextet? (encodeSextet n) = some n := by
  have hall : ∀ i : Fin 64, decodeSextet? (encodeSextet i) = some i.val := by decide
  exact hall ⟨n, h⟩

/-- No character of the alphabet is taken for padding. -/
theorem encodeSextet_ne_padding {n : Nat} (h : n < 64) : encodeSextet n ≠ '=' := by
  have hall : ∀ i : Fin 64, encodeSextet i ≠ '=' := by decide
  exact hall ⟨n, h⟩

/-! ## One group of characters -/

section Group

variable {p q r s : Nat} (hp : p < 64) (hq : q < 64)

include hp hq

theorem decodeChars?_one (hspare : q % 16 = 0) :
    decodeChars? [encodeSextet p, encodeSextet q, '=', '='] =
      some [UInt8.ofNat (p * 4 + q / 16)] := by
  simp [decodeChars?, decodeSextet?_encodeSextet, hp, hq, hspare]

theorem decodeChars?_two (hr : r < 64) (hspare : r % 4 = 0) :
    decodeChars? [encodeSextet p, encodeSextet q, encodeSextet r, '='] =
      some [UInt8.ofNat (p * 4 + q / 16), UInt8.ofNat (q % 16 * 16 + r / 4)] := by
  have hnot : encodeSextet r ≠ '=' := encodeSextet_ne_padding hr
  rw [decodeChars?]
  · simp [decodeSextet?_encodeSextet, hp, hq, hr, hspare]
  · intro h
    exact hnot h

theorem decodeChars?_three (hr : r < 64) (hs : s < 64) (rest : List Char) :
    decodeChars? (encodeSextet p :: encodeSextet q :: encodeSextet r :: encodeSextet s :: rest) =
      (decodeChars? rest).map fun bytes =>
        UInt8.ofNat (p * 4 + q / 16) :: UInt8.ofNat (q % 16 * 16 + r / 4) ::
          UInt8.ofNat (r % 4 * 64 + s) :: bytes := by
  have hnot : encodeSextet s ≠ '=' := encodeSextet_ne_padding hs
  rw [decodeChars?]
  · simp only [decodeSextet?_encodeSextet, hp, hq, hr, hs]
    cases decodeChars? rest <;> rfl
  · intro _ h _
    exact hnot h
  · intro h _
    exact hnot h

end Group

/-! ## The whole text -/

theorem ofNat_eq_of_toNat {n : Nat} {a : UInt8} (h : n = a.toNat) : UInt8.ofNat n = a := by
  rw [h, UInt8.ofNat_toNat]

theorem decodeChars?_encodeChars (bytes : List UInt8) :
    decodeChars? (encodeChars bytes) = some bytes := by
  fun_induction encodeChars bytes with
  | case1 => rfl
  | case2 a =>
    have ha := a.toNat_lt
    rw [decodeChars?_one (by omega) (by omega) (by omega)]
    have hfirst : UInt8.ofNat (a.toNat / 4 * 4 + a.toNat % 4 * 16 / 16) = a :=
      ofNat_eq_of_toNat (by omega)
    rw [hfirst]
  | case3 a b =>
    have ha := a.toNat_lt
    have hb := b.toNat_lt
    rw [decodeChars?_two (by omega) (by omega) (by omega) (by omega)]
    congr 2
    · exact ofNat_eq_of_toNat (by omega)
    · congr 1
      exact ofNat_eq_of_toNat (by omega)
  | case4 a b c rest ih =>
    have ha := a.toNat_lt
    have hb := b.toNat_lt
    have hc := c.toNat_lt
    rw [decodeChars?_three (by omega) (by omega) (by omega) (by omega), ih, Option.map_some]
    congr 2
    · exact ofNat_eq_of_toNat (by omega)
    · congr 1
      · exact ofNat_eq_of_toNat (by omega)
      · congr 1
        exact ofNat_eq_of_toNat (by omega)

/-- Bytes are read back as they were written. -/
theorem decode?_encode (bytes : List UInt8) : decode? (encode bytes) = some bytes := by
  rw [decode?, encode, String.toList_ofList, decodeChars?_encodeChars]

end Paywall.Text.Base64
