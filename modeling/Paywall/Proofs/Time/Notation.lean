import Mathlib.Data.List.TakeDrop
import Paywall.Proofs.Text.Numeral
import Paywall.Proofs.Time.Calendar
import Paywall.Time.Notation

/-!
# Reading timestamps back

An instant of the years 0 to 9999 outside of leap seconds is read back from its notation to the
nanosecond. Every field is written with as many digits as reading takes at most, so it is read up to
the mark behind it.
-/

namespace Paywall.Instant

open Text (digitsValue isDigit isBlank trimStart)

/-! ## Numbers -/

section Padded

variable (width n : Nat)

theorem isDigit_of_mem_padded : ∀ c ∈ padded width n, c.isDigit := by
  intro c hc
  rcases List.mem_append.mp hc with hzero | hdigit
  · rw [List.eq_of_mem_replicate hzero]
    rfl
  · exact Nat.isDigit_of_mem_toDigits (by decide) (by decide) hdigit

theorem padded_ne_nil : padded width n ≠ [] := by
  intro h
  exact Nat.toDigits_ne_nil (List.append_eq_nil_iff.mp h).2

theorem digitsValue_padded : digitsValue 0 (padded width n) = n := by
  rw [Text.digitsValue_eq_ofDigitChars (isDigit_of_mem_padded width n), padded,
    Nat.ofDigitChars_append, Nat.ofDigitChars_replicate_zero, Nat.mul_zero,
    Nat.ofDigitChars_ten_toDigits]

variable {width n}

theorem length_padded (hwidth : 0 < width) (hn : n < Nat.pow 10 width) :
    (padded width n).length = width := by
  have hlength : (Nat.toDigits 10 n).length ≤ width :=
    (Nat.length_toDigits_le_iff (by decide) hwidth).mpr hn
  rw [padded, List.length_append, List.length_replicate]
  omega

theorem readNumber?_padded (hwidth : 0 < width) (hn : n < Nat.pow 10 width) (rest : List Char) :
    readNumber? width (padded width n ++ rest) = some (n, rest) := by
  have hlength := length_padded hwidth hn
  have hall : (padded width n ++ []).takeWhile isDigit = padded width n ++ [] :=
    List.takeWhile_append_of_pos fun c hc =>
      Text.isDigit_of_isDigit (isDigit_of_mem_padded width n c hc)
  have htake : ((padded width n ++ rest).take width).takeWhile isDigit = padded width n := by
    rw [List.take_left' hlength]
    rwa [List.append_nil] at hall
  simp only [readNumber?, htake]
  rw [if_neg (padded_ne_nil width n), digitsValue_padded, hlength, List.drop_left' hlength]

end Padded

/-! ## Fields -/

section

variable (rest : List Char)

theorem readField?_padded {n : Nat} (hn : n < 100) :
    readField? (padded 2 n ++ rest) = some (n, rest) := by
  rw [readField?, Text.trimStart_digits (isDigit_of_mem_padded 2 n) (padded_ne_nil 2 n)]
  exact readNumber?_padded (by decide) hn rest

theorem readMark?_cons {c : Char} (hc : ¬ isBlank c) : readMark? c (c :: rest) = some rest := by
  have htrim : trimStart (c :: rest) = c :: rest := List.dropWhile_cons_of_neg hc
  rw [readMark?, htrim, expect?, if_pos rfl]

/-- A year without a sign has four digits. -/
theorem readYear?_yearText {year : Int} (hyear : 0 ≤ year ∧ year ≤ 9999) :
    readYear? (yearText year ++ rest) = some (year, rest) := by
  have hsmall : year.toNat < 10000 := by omega
  have hcast : (year.toNat : Int) = year := Int.toNat_of_nonneg hyear.1
  have hdigits := isDigit_of_mem_padded 4 year.toNat
  have hfirst : ∀ {c : Char} {cs : List Char},
      padded 4 year.toNat ++ rest = c :: cs → c.isDigit := by
    intro c cs h
    obtain ⟨d, ds, hds⟩ := List.exists_cons_of_ne_nil (padded_ne_nil 4 year.toNat)
    rw [hds] at h hdigits
    exact (List.cons.inj h).1 ▸ hdigits d (.head _)
  rw [yearText, if_pos hyear, readYear?, Text.trimStart_digits hdigits (padded_ne_nil 4 _)]
  split
  · next hsign => exact absurd (hfirst hsign) (by decide)
  · next hsign => exact absurd (hfirst hsign) (by decide)
  · rw [readNumber?_padded (by decide) hsmall, Option.map_some]
    simp only [hcast]

theorem hasYear_of_plain {year : Int} (hyear : 0 ≤ year ∧ year ≤ 9999) : hasYear year := by
  refine Bool.and_eq_true_iff.mpr ⟨decide_eq_true ?_, decide_eq_true ?_⟩
  · exact Int.le_trans (by decide) hyear.1
  · exact Int.le_trans hyear.2 (by decide)

/-- A date of these years, if it exists. -/
theorem readDate?_text {d : Date} (hyear : 0 ≤ d.year ∧ d.year ≤ 9999) (hvalid : d.isValid) :
    readDate? (yearText d.year ++ '-' :: (padded 2 d.month ++ '-' :: (padded 2 d.day ++ rest))) =
      some (d, rest) := by
  obtain ⟨hmonth, hday⟩ := Date.bounds_of_isValid hvalid
  have hyears := hasYear_of_plain hyear
  have hdash : ¬ isBlank '-' := by decide
  simp only [readDate?, readYear?_yearText _ hyear, readMark?_cons _ hdash,
    readField?_padded _ (show d.month < 100 by omega),
    readField?_padded _ (show d.day < 100 by omega), Option.bind_eq_bind, Option.bind_some, hyears,
    hvalid, Bool.and_self, if_true]

/-- A time of day outside of leap seconds, from its seconds. -/
theorem readClock?_text {second : Nat} (hsecond : second < 86400) :
    readClock? (padded 2 (second / 3600) ++ ':' :: (padded 2 (second / 60 % 60) ++
      ':' :: (padded 2 (second % 60) ++ rest))) = some (second, 0, rest) := by
  have hcolon : ¬ isBlank ':' := by decide
  have hclock : second / 3600 < 24 ∧ second / 60 % 60 < 60 ∧ second % 60 ≤ 60 := by omega
  have hleap : ¬ second % 60 = 60 := by omega
  have hsum : second / 3600 * 3600 + second / 60 % 60 * 60 + (second % 60 - 0) = second := by omega
  simp only [readClock?, readMark?_cons _ hcolon,
    readField?_padded _ (show second / 3600 < 100 by omega),
    readField?_padded _ (show second / 60 % 60 < 100 by omega),
    readField?_padded _ (show second % 60 < 100 by omega), Option.bind_eq_bind, Option.bind_some]
  rw [if_pos hclock, if_neg hleap, hsum, Nat.zero_mul]

end

/-! ## The fraction -/

/-- The digits behind the point, with as many zeros behind them as there are missing to nine. -/
theorem readFraction?_point (width n : Nat) (hwidth : 0 < width ∧ width ≤ 9)
    (hn : n < Nat.pow 10 width) :
    readFraction? ('.' :: (padded width n ++ ['Z'])) = some (n * Nat.pow 10 (9 - width), ['Z']) := by
  have hlength := length_padded hwidth.1 hn
  have hspan : (padded width n ++ ['Z']).span isDigit = (padded width n, ['Z']) := by
    have hall : ∀ c ∈ padded width n, isDigit c := fun c hc =>
      Text.isDigit_of_isDigit (isDigit_of_mem_padded width n c hc)
    rw [List.span_eq_takeWhile_dropWhile, List.takeWhile_append_of_pos hall,
      List.dropWhile_append_of_pos hall, List.takeWhile_cons_of_neg (by decide), List.append_nil,
      List.dropWhile_cons_of_neg (by decide)]
  have htake : (padded width n).take 9 = padded width n :=
    List.take_of_length_le (by omega)
  have hdigits : ∀ c ∈ padded width n ++ List.replicate (9 - width) '0', c.isDigit := by
    intro c hc
    rcases List.mem_append.mp hc with hdigit | hzero
    · exact isDigit_of_mem_padded width n c hdigit
    · rw [List.eq_of_mem_replicate hzero]
      rfl
  have hvalue : fractionNanos (padded width n) = n * Nat.pow 10 (9 - width) := by
    simp only [fractionNanos, htake, hlength]
    rw [Text.digitsValue_eq_ofDigitChars hdigits, Nat.ofDigitChars_append,
      ← Text.digitsValue_eq_ofDigitChars (isDigit_of_mem_padded width n), digitsValue_padded,
      Nat.ofDigitChars_replicate_zero, Nat.mul_comm]
    rfl
  simp only [readFraction?, hspan]
  rw [if_neg (padded_ne_nil width n), hvalue]

theorem readFraction?_text {nanos : Nat} (hnanos : nanos < nanosPerSecond) :
    readFraction? (fractionText nanos ++ ['Z']) = some (nanos, ['Z']) := by
  have hbound : nanos < 1000000000 := hnanos
  unfold fractionText
  split
  · next hzero =>
    rw [hzero]
    rfl
  · split
    · next hmillis =>
      have hvalue : nanos / 1000000 * 1000000 = nanos := by omega
      have hread := readFraction?_point 3 (nanos / 1000000) (by decide)
        (show nanos / 1000000 < 1000 by omega)
      rwa [show nanos / 1000000 * Nat.pow 10 (9 - 3) = nanos from hvalue] at hread
    · split
      · next hmicros =>
        have hvalue : nanos / 1000 * 1000 = nanos := by omega
        have hread := readFraction?_point 6 (nanos / 1000) (by decide)
          (show nanos / 1000 < 1000000 by omega)
        rwa [show nanos / 1000 * Nat.pow 10 (9 - 6) = nanos from hvalue] at hread
      · have hread := readFraction?_point 9 nanos (by decide) hbound
        rwa [show nanos * Nat.pow 10 (9 - 9) = nanos from Nat.mul_one nanos] at hread

/-! ## The whole notation -/

/-- Whether an instant has a notation without a sign: a year of four digits, and no leap second. -/
structure Plain (t : Instant) : Prop where
  year : 0 ≤ t.date.year ∧ t.date.year ≤ 9999
  nanos : t.nanos < nanosPerSecond

theorem render_eq {t : Instant} (h : t.nanos < nanosPerSecond) :
    t.render.toList = yearText t.date.year ++ '-' :: (padded 2 t.date.month ++
      '-' :: (padded 2 t.date.day ++ 'T' :: (padded 2 (t.secondOfDay.toNat / 3600) ++
        ':' :: (padded 2 (t.secondOfDay.toNat / 60 % 60) ++
          ':' :: (padded 2 (t.secondOfDay.toNat % 60) ++ (fractionText t.nanos ++ ['Z'])))))) := by
  have hleap : t.inLeapSecond = false := decide_eq_false (Nat.not_le.mpr h)
  simp [render, hleap]

/-- An instant is read back from its notation. -/
theorem parse?_render {t : Instant} (h : t.Plain) : parse? t.render = some t := by
  obtain ⟨hnumber, hvalid⟩ := Date.ofDayNumber_spec t.dayNumber
  have hsecond : t.secondOfDay.toNat < 86400 := by
    unfold secondOfDay secondsPerDay
    omega
  have hseconds : t.date.dayNumber * secondsPerDay + t.secondOfDay.toNat - 0 = t.seconds := by
    have hdate : t.date.dayNumber = t.seconds / secondsPerDay := hnumber
    rw [hdate]
    unfold secondOfDay secondsPerDay
    omega
  have hzone : readZone? (trimStart ['Z']) = some (0, []) := rfl
  have hinstant : (⟨t.date.dayNumber * secondsPerDay + t.secondOfDay.toNat - 0, t.nanos + 0⟩ :
      Instant) = t := by
    rw [hseconds]
    rfl
  have hyears := hasYear_of_plain h.year
  rw [parse?, render_eq h.nanos]
  simp only [readDate?_text _ h.year hvalid, readClock?_text _ hsecond, readFraction?_text h.nanos,
    hzone, hinstant, hyears, Option.bind_eq_bind, Option.bind_some]
  rfl

end Paywall.Instant
