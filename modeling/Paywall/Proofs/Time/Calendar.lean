import Paywall.Time.Date

/-!
# Dates and their numbers

Every number of a day belongs to a date that exists, and the date has that number. The year is found
between the starts of two years, the month between the starts of two months.
-/

namespace Paywall.Date

/-! ## Years -/

/-- Days of a year. -/
def yearLength (year : Int) : Nat := if isLeap year then 366 else 365

theorem isLeap_iff {year : Int} :
    isLeap year ↔ year % 4 = 0 ∧ (year % 100 ≠ 0 ∨ year % 400 = 0) := by
  simp [isLeap]

theorem yearStart_succ (year : Int) : yearStart (year + 1) = yearStart year + yearLength year := by
  unfold yearLength yearStart
  by_cases hleap : isLeap year
  · rw [if_pos hleap]
    rw [isLeap_iff] at hleap
    dsimp only
    omega
  · rw [if_neg hleap]
    rw [isLeap_iff] at hleap
    dsimp only
    omega

/-- The guess at the year is at most one off, and is put right. -/
theorem yearStart_yearOf (n : Int) : yearStart (yearOf n) ≤ n ∧ n < yearStart (yearOf n + 1) := by
  have hlow : yearStart ((n + 719162) * 400 / 146097 + 1 - 1) ≤ n := by
    unfold yearStart
    dsimp only
    omega
  have hhigh : n < yearStart ((n + 719162) * 400 / 146097 + 1 + 1 + 1) := by
    unfold yearStart
    dsimp only
    omega
  unfold yearOf
  dsimp only
  generalize (n + 719162) * 400 / 146097 + 1 = guess at hlow hhigh ⊢
  split
  · next hbefore =>
    rw [Int.sub_add_cancel]
    exact ⟨hlow, hbefore⟩
  · next hfrom =>
    split
    · next hnext => exact ⟨hnext, hhigh⟩
    · next hend => exact ⟨Int.not_lt.mp hfrom, Int.not_le.mp hend⟩

/-! ## Months -/

theorem foldl_add (k : Nat) (lengths : List Nat) :
    lengths.foldl (· + ·) k = k + lengths.foldl (· + ·) 0 := by
  have hassoc : lengths.foldl (· + ·) (k + 0) = k + lengths.foldl (· + ·) 0 := List.foldl_assoc
  rwa [Nat.add_zero] at hassoc

/-- A day within the months falls in one of them, behind all the days of the months in front. -/
theorem findMonth_eq {lengths : List Nat} {n : Nat} (first : Nat)
    (hn : n < lengths.foldl (· + ·) 0) :
    ∃ i d, findMonth first lengths n = (first + i, d + 1) ∧ d < lengths.getD i 0 ∧
      (lengths.take i).foldl (· + ·) 0 + d = n := by
  induction lengths generalizing first n with
  | nil => exact absurd hn (Nat.not_lt_zero n)
  | cons length rest ih =>
    rw [findMonth]
    split
    · next hhere => exact ⟨0, n, rfl, hhere, Nat.zero_add n⟩
    · next hlater =>
      rw [List.foldl_cons, Nat.zero_add, foldl_add] at hn
      obtain ⟨i, d, hfind, hd, hsum⟩ := ih (first + 1) (n := n - length) (by omega)
      refine ⟨i + 1, d, ?_, hd, ?_⟩
      · rw [hfind, Nat.add_assoc, Nat.add_comm 1]
      · rw [List.take_succ_cons, List.foldl_cons, Nat.zero_add, foldl_add]
        omega

theorem foldl_monthLengths (year : Int) :
    (monthLengths (isLeap year)).foldl (· + ·) 0 = yearLength year := by
  unfold yearLength
  cases isLeap year <;> rfl

/-- The date with a number exists and has that number. -/
theorem ofDayNumber_spec (n : Int) : (ofDayNumber n).dayNumber = n ∧ (ofDayNumber n).isValid := by
  obtain ⟨hfrom, hto⟩ := yearStart_yearOf n
  rw [yearStart_succ] at hto
  have hday : (n - yearStart (yearOf n)).toNat <
      (monthLengths (isLeap (yearOf n))).foldl (· + ·) 0 := by
    rw [foldl_monthLengths]
    omega
  obtain ⟨i, d, hfind, hd, hsum⟩ := findMonth_eq 1 hday
  have hdate : ofDayNumber n = ⟨yearOf n, 1 + i, d + 1⟩ := by
    unfold ofDayNumber
    simp only [hfind]
  rw [hdate]
  constructor
  · simp only [dayNumber, daysBefore, Nat.add_sub_cancel_left]
    omega
  · have hlength : monthLength (yearOf n) (1 + i) = (monthLengths (isLeap (yearOf n))).getD i 0 := by
      unfold monthLength
      rw [if_neg (by omega), Nat.add_sub_cancel_left]
    simp only [isValid, hlength, Bool.and_eq_true, decide_eq_true_eq]
    omega

theorem monthLength_le (year : Int) (month : Nat) : monthLength year month ≤ 31 := by
  have hall : ∀ length ∈ monthLengths (isLeap year), length ≤ 31 := by
    cases isLeap year <;> decide
  unfold monthLength
  split
  · exact Nat.zero_le _
  · rw [List.getD_eq_getElem?_getD]
    cases hfound : (monthLengths (isLeap year))[month - 1]? with
    | none => exact Nat.zero_le _
    | some length => exact hall length (List.mem_of_getElem? hfound)

theorem isValid_iff {d : Date} : d.isValid ↔ 1 ≤ d.day ∧ d.day ≤ monthLength d.year d.month := by
  simp [isValid]

/-- A date that exists has a day and a month of at most two digits. -/
theorem bounds_of_isValid {d : Date} (h : d.isValid) : d.month ≤ 12 ∧ d.day ≤ 31 := by
  obtain ⟨hpos, hday⟩ := isValid_iff.mp h
  refine ⟨?_, Nat.le_trans hday (monthLength_le _ _)⟩
  refine Nat.not_lt.mp fun hmonth => ?_
  have hnone : monthLength d.year d.month = 0 := by
    have hlength : (monthLengths (isLeap d.year)).length = 12 := rfl
    unfold monthLength
    rw [if_neg (by omega), List.getD_eq_getElem?_getD, List.getElem?_eq_none (by omega)]
    rfl
  omega

/-! ## Order -/

/-- The months up to that of a date, counted from the beginning of the year 0. -/
def monthNumber (d : Date) : Int := 12 * d.year + d.month

theorem month_pos_of_isValid {d : Date} (h : d.isValid) : 1 ≤ d.month := by
  obtain ⟨hpos, hday⟩ := isValid_iff.mp h
  refine Nat.pos_of_ne_zero fun hmonth => ?_
  rw [hmonth] at hday
  exact absurd (Nat.le_trans hpos hday) (Nat.not_succ_le_zero 0)

theorem daysBefore_succ (year : Int) {month : Nat} (h : 1 ≤ month) :
    daysBefore year (month + 1) = daysBefore year month + monthLength year month := by
  obtain ⟨i, rfl⟩ : ∃ i, month = i + 1 := ⟨month - 1, by omega⟩
  unfold daysBefore monthLength
  rw [if_neg (Nat.succ_ne_zero i), Nat.add_sub_cancel, Nat.add_sub_cancel, List.take_add_one,
    List.foldl_append, List.getD_eq_getElem?_getD]
  cases (monthLengths (isLeap year))[i]? with
  | none => rfl
  | some length => rfl

theorem daysBefore_mono (year : Int) {month later : Nat} (hmonth : 1 ≤ month)
    (h : month ≤ later) : daysBefore year month ≤ daysBefore year later := by
  induction h with
  | refl => exact Nat.le_refl _
  | step hle ih =>
    rw [daysBefore_succ year (Nat.le_trans hmonth hle)]
    exact Nat.le_trans ih (Nat.le_add_right _ _)

/-- The year ends behind its twelfth month. -/
theorem daysBefore_end (year : Int) : daysBefore year 13 = yearLength year :=
  foldl_monthLengths year

theorem yearStart_mono {year later : Int} (h : year ≤ later) : yearStart year ≤ yearStart later := by
  unfold yearStart
  dsimp only
  omega

/-- The days of a month lie in front of the first of the next one. -/
theorem dayNumber_lt_monthEnd {d : Date} (h : d.isValid) :
    d.dayNumber < yearStart d.year + daysBefore d.year (d.month + 1) := by
  have hday := (isValid_iff.mp h).2
  rw [daysBefore_succ _ (month_pos_of_isValid h)]
  unfold dayNumber
  omega

/-- The days of a month do not lie in front of its own first. -/
theorem monthStart_le_dayNumber {d : Date} (h : d.isValid) :
    yearStart d.year + daysBefore d.year d.month ≤ d.dayNumber := by
  have hday := (isValid_iff.mp h).1
  unfold dayNumber
  omega

theorem dayNumber_lt_of_monthNumber_lt {a b : Date} (ha : a.isValid) (hb : b.isValid)
    (h : a.monthNumber < b.monthNumber) : a.dayNumber < b.dayNumber := by
  have hmonth := (bounds_of_isValid ha).1
  have hmonth' := (bounds_of_isValid hb).1
  have hpos := month_pos_of_isValid hb
  have hend := dayNumber_lt_monthEnd ha
  have hstart := monthStart_le_dayNumber hb
  unfold monthNumber at h
  rcases Int.lt_trichotomy a.year b.year with hyear | hyear | hyear
  · have hyears := yearStart_mono (show a.year + 1 ≤ b.year from hyear)
    have hrest : daysBefore a.year (a.month + 1) ≤ daysBefore a.year 13 :=
      daysBefore_mono a.year (Nat.le_add_left 1 a.month) (by omega)
    rw [yearStart_succ] at hyears
    rw [daysBefore_end] at hrest
    omega
  · have hmonths : daysBefore a.year (a.month + 1) ≤ daysBefore a.year b.month :=
      daysBefore_mono a.year (Nat.le_add_left 1 a.month) (by omega)
    rw [← hyear] at hstart
    omega
  · omega

theorem year_month_of_monthNumber_eq {a b : Date} (ha : a.isValid) (hb : b.isValid)
    (h : a.monthNumber = b.monthNumber) : a.year = b.year ∧ a.month = b.month := by
  have hmonth := (bounds_of_isValid ha).1
  have hmonth' := (bounds_of_isValid hb).1
  have hpos := month_pos_of_isValid ha
  have hpos' := month_pos_of_isValid hb
  unfold monthNumber at h
  omega

/-- A later day is one of a later month, or a later one of the same month. -/
theorem monthNumber_of_dayNumber_lt {a b : Date} (ha : a.isValid) (hb : b.isValid)
    (h : a.dayNumber < b.dayNumber) :
    a.monthNumber < b.monthNumber ∨ a.monthNumber = b.monthNumber ∧ a.day < b.day := by
  rcases Int.lt_trichotomy a.monthNumber b.monthNumber with hmonth | hmonth | hmonth
  · exact .inl hmonth
  · obtain ⟨hyear, hmonth'⟩ := year_month_of_monthNumber_eq ha hb hmonth
    unfold dayNumber at h
    rw [hyear, hmonth'] at h
    exact .inr ⟨hmonth, by omega⟩
  · have hlt := dayNumber_lt_of_monthNumber_lt hb ha hmonth
    omega

end Paywall.Date
