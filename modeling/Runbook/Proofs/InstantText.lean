import Mathlib.Algebra.Group.Nat.Defs
import Runbook.Instant
import Runbook.Proofs.Text

/-!
# Instants, their dates and their texts

Days become dates and dates days by counting in eras of 400 years. An era falls into four
centuries, a century into 25 cycles of four years, a cycle into four years that begin in March; all
of them have one length but the last, which may have a day more. In these parts the two
computations are plain, and so is that they undo each other.

An instant whose year has dates is written as a text from which it is read back. The parts of the
text stand one after another, so each part of the reader has a lemma that says what it takes off
the front and that it leaves the rest alone.
-/

set_option autoImplicit false

namespace Runbook

namespace Instant

/-! ## 1. An era -/

/-- A day of an era: its century, its cycle, its year in the cycle, and the day of that year. -/
structure EraDay (doe : Int) where
  century : Int
  cycle : Int
  year : Int
  day : Int
  sum : doe = 36524 * century + 1461 * cycle + 365 * year + day
  century_nonneg : 0 ≤ century
  century_le : century ≤ 3
  cycle_nonneg : 0 ≤ cycle
  cycle_le : cycle ≤ 24
  year_nonneg : 0 ≤ year
  year_le : year ≤ 3
  day_nonneg : 0 ≤ day
  /-- The leap day is the last day of a cycle, but of the last cycle only in the last century. -/
  day_le : day ≤ 364 ∨ day = 365 ∧ year = 3 ∧ (cycle ≠ 24 ∨ century = 3)

theorem eraDay_exists {doe : Int} (h0 : 0 ≤ doe) (h1 : doe ≤ 146096) : Nonempty (EraDay doe) := by
  have centuries : ∃ c r, doe = 36524 * c + r ∧ 0 ≤ c ∧ c ≤ 3 ∧ 0 ≤ r ∧
      (r ≤ 36523 ∨ r = 36524 ∧ c = 3) := by
    by_cases last : doe = 146096
    · exact ⟨3, 36524, by omega, by omega, by omega, by omega, by omega⟩
    · exact ⟨doe / 36524, doe % 36524, by omega, by omega, by omega, by omega, by omega⟩
  obtain ⟨c, r, hdoe, hc0, hc3, hr0, hr⟩ := centuries
  have cycles : ∃ q t, r = 1461 * q + t ∧ 0 ≤ q ∧ q ≤ 24 ∧ 0 ≤ t ∧ t ≤ 1460 ∧
      (t = 1460 → q ≠ 24 ∨ c = 3) :=
    ⟨r / 1461, r % 1461, by omega, by omega, by omega, by omega, by omega, by omega⟩
  obtain ⟨q, t, hr', hq0, hq24, ht0, ht, leap⟩ := cycles
  -- the leap day is the 366th day of the fourth year
  by_cases last : t = 1460
  · exact ⟨⟨c, q, 3, 365, by omega, hc0, hc3, hq0, hq24, by omega, by omega, by omega,
      .inr ⟨rfl, rfl, leap last⟩⟩⟩
  · exact ⟨⟨c, q, t / 365, t % 365, by omega, hc0, hc3, hq0, hq24, by omega, by omega, by omega,
      by omega⟩⟩

namespace EraDay

variable {doe : Int}

/-- The year of the era. -/
def yearOfEra (e : EraDay doe) : Int := 100 * e.century + 4 * e.cycle + e.year

theorem yearOfEra_eq (e : EraDay doe) :
    (doe - doe / 1460 + doe / 36524 - doe / 146096) / 365 = e.yearOfEra := by
  obtain ⟨c, q, y, d, hsum, _, _, _, _, _, _, _, hd⟩ := e
  show _ = 100 * c + 4 * q + y
  by_cases last : doe = 146096
  · omega
  have h1 : doe / 146096 = 0 := by omega
  have h2 : doe / 36524 = c := by omega
  omega

theorem yearOfEra_bounds (e : EraDay doe) : 0 ≤ e.yearOfEra ∧ e.yearOfEra ≤ 399 := by
  obtain ⟨c, q, y, d, _, _, _, _, _, _, _, _, _⟩ := e
  show 0 ≤ 100 * c + 4 * q + y ∧ 100 * c + 4 * q + y ≤ 399
  omega

/-- The days of the era before its year, and the day of the year. -/
theorem day_eq (e : EraDay doe) :
    doe = 365 * e.yearOfEra + e.yearOfEra / 4 - e.yearOfEra / 100 + e.day := by
  obtain ⟨c, q, y, d, _, _, _, _, _, _, _, _, _⟩ := e
  show doe = 365 * (100 * c + 4 * q + y) + (100 * c + 4 * q + y) / 4 -
    (100 * c + 4 * q + y) / 100 + d
  omega

/-- A year with a 366th day ends in the February of a leap year. -/
theorem leap (e : EraDay doe) (h : e.day = 365) (era : Int) :
    isLeap (e.yearOfEra + era * 400 + 1) = true := by
  obtain ⟨c, q, y, d, _, _, _, _, _, _, _, _, hd⟩ := e
  obtain rfl : d = 365 := h
  show isLeap (100 * c + 4 * q + y + era * 400 + 1) = true
  simp only [isLeap, Bool.and_eq_true, Bool.or_eq_true, beq_iff_eq, bne_iff_ne]
  omega

end EraDay

/-! ## 2. Dates -/

/-- The month and the day that a day of a March year is, and the other way round. -/
theorem month_cases {d : Int} (h0 : 0 ≤ d) (h1 : d ≤ 365) :
    ∃ mp : Int, (5 * d + 2) / 153 = mp ∧ 0 ≤ mp ∧ mp ≤ 11 ∧
      1 ≤ d - (153 * mp + 2) / 5 + 1 ∧
      ((mp = 1 ∨ mp = 3 ∨ mp = 6 ∨ mp = 8) → d - (153 * mp + 2) / 5 + 1 ≤ 30) ∧
      (mp = 11 → d - (153 * mp + 2) / 5 + 1 ≤ 29 ∧ (d ≠ 365 → d - (153 * mp + 2) / 5 + 1 ≤ 28)) ∧
      d - (153 * mp + 2) / 5 + 1 ≤ 31 := by
  refine ⟨_, rfl, ?_⟩
  omega

/-- A date of the calendar. -/
structure IsDate (year : Int) (month day : Nat) : Prop where
  month_pos : 1 ≤ month
  month_le : month ≤ 12
  day_pos : 1 ≤ day
  day_le : day ≤ daysInMonth year month

/-- The date of a day, from its place in an era. -/
theorem dateOfDays_eq (days era : Int) {doe : Int} (e : EraDay doe)
    (h : days + 719468 = era * 146097 + doe) (h0 : 0 ≤ doe) (h1 : doe ≤ 146096) :
    dateOfDays days =
      let mp := (5 * e.day + 2) / 153
      let month := if mp < 10 then mp + 3 else mp - 9
      (if month ≤ 2 then e.yearOfEra + era * 400 + 1 else e.yearOfEra + era * 400,
        month.toNat, (e.day - (153 * mp + 2) / 5 + 1).toNat) := by
  have hera : (days + 719468) / 146097 = era := by omega
  have hdoe : days + 719468 - era * 146097 = doe := by omega
  have hday : doe - (365 * e.yearOfEra + e.yearOfEra / 4 - e.yearOfEra / 100) = e.day := by
    have := e.day_eq
    omega
  simp only [dateOfDays, Int.fdiv_eq_ediv_of_nonneg _ (show (0 : Int) ≤ 146097 by decide),
    Int.fdiv_eq_ediv_of_nonneg _ (show (0 : Int) ≤ 1460 by decide),
    Int.fdiv_eq_ediv_of_nonneg _ (show (0 : Int) ≤ 36524 by decide),
    Int.fdiv_eq_ediv_of_nonneg _ (show (0 : Int) ≤ 146096 by decide),
    Int.fdiv_eq_ediv_of_nonneg _ (show (0 : Int) ≤ 365 by decide),
    Int.fdiv_eq_ediv_of_nonneg _ (show (0 : Int) ≤ 4 by decide),
    Int.fdiv_eq_ediv_of_nonneg _ (show (0 : Int) ≤ 100 by decide),
    Int.fdiv_eq_ediv_of_nonneg _ (show (0 : Int) ≤ 153 by decide),
    Int.fdiv_eq_ediv_of_nonneg _ (show (0 : Int) ≤ 5 by decide), hera, hdoe, e.yearOfEra_eq, hday]

/-- The months that begin a March year, and the two that end it. -/
theorem month_of_marchMonth {mp : Int} (h0 : 0 ≤ mp) (h11 : mp ≤ 11) :
    (mp < 10 ∧ 2 < (mp + 3).toNat ∧ (mp + 3).toNat ≤ 12 ∧
      ((((mp + 3).toNat + 9) % 12 : Nat) : Int) = mp) ∨
    (¬ mp < 10 ∧ 1 ≤ (mp - 9).toNat ∧ (mp - 9).toNat ≤ 2 ∧
      ((((mp - 9).toNat + 9) % 12 : Nat) : Int) = mp) := by
  omega

/-- The day of a date, from the place of its March year in an era. -/
theorem daysOfDate_eq {year era yoe mp : Int} {month : Nat} (day : Nat)
    (hy : (if month ≤ 2 then year - 1 else year) = yoe + era * 400) (h0 : 0 ≤ yoe) (h1 : yoe ≤ 399)
    (hmp : (((month + 9) % 12 : Nat) : Int) = mp) :
    daysOfDate year month day =
      era * 146097 + (yoe * 365 + yoe / 4 - yoe / 100 + ((153 * mp + 2) / 5 + day - 1)) -
        719468 := by
  have hera : (yoe + era * 400) / 400 = era := by omega
  have hyoe : yoe + era * 400 - era * 400 = yoe := by omega
  simp only [daysOfDate, Int.fdiv_eq_ediv_of_nonneg _ (show (0 : Int) ≤ 400 by decide),
    Int.fdiv_eq_ediv_of_nonneg _ (show (0 : Int) ≤ 4 by decide),
    Int.fdiv_eq_ediv_of_nonneg _ (show (0 : Int) ≤ 100 by decide),
    Int.fdiv_eq_ediv_of_nonneg _ (show (0 : Int) ≤ 5 by decide), hy, hmp, hera, hyoe]

/-- **Every day has a date, and is the day of that date.** -/
theorem dateOfDays_spec (days : Int) :
    ∃ year month day, dateOfDays days = (year, month, day) ∧ IsDate year month day ∧
      daysOfDate year month day = days := by
  obtain ⟨era, doe, h, h0, h1⟩ : ∃ era doe : Int, days + 719468 = era * 146097 + doe ∧ 0 ≤ doe ∧
      doe ≤ 146096 :=
    ⟨(days + 719468) / 146097, (days + 719468) % 146097, by omega, by omega, by omega⟩
  obtain ⟨e⟩ := eraDay_exists h0 h1
  obtain ⟨mp, hmp, hmp0, hmp11, day1, day30, dayFeb, day31⟩ :=
    month_cases e.day_nonneg (by have := e.day_le; omega)
  obtain ⟨yoe0, yoe1⟩ := e.yearOfEra_bounds
  have whole := e.day_eq
  have date := dateOfDays_eq days era e h h0 h1
  simp only [hmp] at date
  rcases month_of_marchMonth hmp0 hmp11 with ⟨early, gt2, le12, back⟩ | ⟨late, ge1, le2, back⟩
  · -- from March to December the two years have one number
    rw [if_pos early, if_neg (by omega)] at date
    refine ⟨_, _, _, date, ⟨by omega, le12, by omega, ?_⟩, ?_⟩
    · simp only [daysInMonth, if_neg (show ¬ (mp + 3).toNat = 2 by omega), Bool.or_eq_true,
        decide_eq_true_eq]
      split <;> omega
    · rw [daysOfDate_eq _ (if_neg (by omega)) yoe0 yoe1 back]
      omega
  · -- January and February belong to the March year before
    rw [if_neg late, if_pos (by omega)] at date
    refine ⟨_, _, _, date, ⟨ge1, by omega, by omega, ?_⟩, ?_⟩
    · -- February may have a 29th only if the year is a leap year
      by_cases feb : mp = 11
      · subst feb
        by_cases leap : e.day = 365
        · simp only [daysInMonth, if_pos (show (11 - 9 : Int).toNat = 2 by decide),
            if_pos (e.leap leap era)]
          omega
        · simp only [daysInMonth, if_pos (show (11 - 9 : Int).toNat = 2 by decide)]
          split <;> omega
      · have jan : (mp - 9).toNat = 1 := by omega
        simp only [jan]
        show _ ≤ 31
        omega
    · have year : (if (mp - 9).toNat ≤ 2 then e.yearOfEra + era * 400 + 1 - 1
          else e.yearOfEra + era * 400 + 1) = e.yearOfEra + era * 400 := by
        rw [if_pos le2]
        omega
      rw [daysOfDate_eq _ year yoe0 yoe1 back]
      omega

end Instant

/-! ## 3. Digits -/

namespace Text

theorem digitsValue_eq (cs : List Char) : digitsValue cs = Nat.ofDigitChars 10 cs 0 := by
  rw [Nat.ofDigitChars_eq_foldl, digitsValue]
  congr 1
  funext n c
  rw [Nat.mul_comm]
  rfl

theorem toList_padded (width n : Nat) :
    (padded width n).toList =
      List.replicate (width - (Nat.toDigits 10 n).length) '0' ++ Nat.toDigits 10 n := by
  simp [padded]

theorem padded_isDigit (width n : Nat) : ∀ c ∈ (padded width n).toList, isDigit c = true := by
  intro c hc
  rw [toList_padded] at hc
  rcases List.mem_append.mp hc with hc | hc
  · rw [(List.mem_replicate.mp hc).2]
    rfl
  · exact Nat.isDigit_of_mem_toDigits (by decide) (by decide) hc

theorem digitsValue_padded (width n : Nat) : digitsValue (padded width n).toList = n := by
  rw [digitsValue_eq, toList_padded, Nat.ofDigitChars_append, Nat.ofDigitChars_replicate_zero,
    Nat.mul_zero, Nat.ofDigitChars_ten_toDigits]

theorem length_padded {width n : Nat} (pos : 0 < width) (h : n < 10 ^ width) :
    (padded width n).toList.length = width := by
  have short := (Nat.length_toDigits_le_iff (b := 10) (by decide) pos).mpr h
  rw [toList_padded, List.length_append, List.length_replicate]
  omega

/-- A padded number begins with a digit. -/
theorem padded_head (width n : Nat) :
    ∃ c cs, (padded width n).toList = c :: cs ∧ isDigit c = true := by
  have some_digit : (padded width n).toList ≠ [] := by
    rw [toList_padded]
    exact List.append_ne_nil_of_right_ne_nil _ Nat.toDigits_ne_nil
  obtain ⟨c, cs, h⟩ := List.exists_cons_of_ne_nil some_digit
  exact ⟨c, cs, h, padded_isDigit width n c (by simp [h])⟩

end Text

theorem not_isBlank_of_isDigit {c : Char} (h : Text.isDigit c = true) : isBlank c = false := by
  simp only [Text.isDigit, Bool.and_eq_true, decide_eq_true_eq, Char.le_def,
    UInt32.le_iff_toNat_le] at h
  have low : 48 ≤ c.toNat := h.1
  have high : c.toNat ≤ 57 := h.2
  simp only [isBlank, blankRanges, List.any_cons, List.any_nil, Bool.or_false, Bool.or_eq_false_iff,
    Bool.and_eq_false_iff, decide_eq_false_iff_not]
  omega

namespace Text

theorem dropBlanks_padded (width n : Nat) (rest : List Char) :
    dropBlanks ((padded width n).toList ++ rest) = (padded width n).toList ++ rest := by
  obtain ⟨c, cs, h, digit⟩ := padded_head width n
  rw [h]
  exact dropBlanks_cons (not_isBlank_of_isDigit digit) _

end Text

/-! ## 4. The parts of the reader -/

namespace Instant

open Text

theorem digits?_padded {width n : Nat} (pos : 0 < width) (h : n < 10 ^ width) (rest : List Char) :
    digits? (some width) ((padded width n).toList ++ rest) = some (n, rest) := by
  have front : ((padded width n).toList ++ rest).takeWhile isDigit =
      (padded width n).toList ++ rest.takeWhile isDigit :=
    List.takeWhile_append_of_pos (padded_isDigit width n)
  have cut : ((padded width n).toList ++ rest.takeWhile isDigit).take width =
      (padded width n).toList := List.take_left' (length_padded pos h)
  have some_digit : (padded width n).toList.isEmpty = false := by
    obtain ⟨c, cs, heq, -⟩ := padded_head width n
    rw [heq]
    rfl
  simp only [digits?, front, cut, some_digit, digitsValue_padded]
  rw [List.drop_left]
  rfl

/-- Behind a sign a number has any number of digits, up to what is none. -/
theorem digits?_signed (width n : Nat) {c : Char} (h : isDigit c = false) (rest : List Char) :
    digits? none ((padded width n).toList ++ c :: rest) = some (n, c :: rest) := by
  have front : ((padded width n).toList ++ c :: rest).takeWhile isDigit =
      (padded width n).toList := by
    rw [List.takeWhile_append_of_pos (padded_isDigit width n),
      List.takeWhile_cons_of_neg (by simp [h]), List.append_nil]
  have some_digit : (padded width n).toList.isEmpty = false := by
    obtain ⟨c, cs, heq, -⟩ := padded_head width n
    rw [heq]
    rfl
  simp only [digits?, front, some_digit, digitsValue_padded]
  rw [List.drop_left]
  rfl

theorem part?_padded {n : Nat} (h : n < 100) (rest : List Char) :
    part? ((padded 2 n).toList ++ rest) = some (n, rest) := by
  rw [part?, dropBlanks_padded]
  exact digits?_padded (by decide) (by omega) rest

theorem mark?_cons {c : Char} (h : isBlank c = false) (rest : List Char) :
    mark? c (c :: rest) = some rest := by
  rw [mark?, dropBlanks_cons h]
  exact if_pos rfl

theorem year?_minus (cs : List Char) :
    year? ('-' :: cs) = (digits? none cs).map fun p => (-(p.1 : Int), p.2) := rfl

theorem year?_plus (cs : List Char) :
    year? ('+' :: cs) = (digits? none cs).map fun p => ((p.1 : Int), p.2) := rfl

theorem year?_yearText (year : Int) (rest : List Char) :
    year? ((yearText year).toList ++ '-' :: rest) = some (year, '-' :: rest) := by
  unfold yearText
  split
  · next small =>
    -- a digit in front is neither of the signs, so four digits are taken
    obtain ⟨c, cs, head, digit⟩ := padded_head 4 year.toNat
    have read := digits?_padded (show 0 < 4 by decide) (show year.toNat < 10 ^ 4 by omega)
      ('-' :: rest)
    have back : ((year.toNat : Nat) : Int) = year := by omega
    have minus : c ≠ '-' := by
      rintro rfl
      cases digit
    have plus : c ≠ '+' := by
      rintro rfl
      cases digit
    rw [year?, dropBlanks_padded]
    rw [head] at read ⊢
    split
    · next heq => exact absurd (List.cons.inj heq).1 minus
    · next heq => exact absurd (List.cons.inj heq).1 plus
    · rw [read, Option.map_some]
      exact congrArg (fun y => some (y, '-' :: rest)) back
  · next large =>
    have read := digits?_signed 4 year.natAbs (show isDigit '-' = false by decide) rest
    by_cases negative : year < 0
    · have back : -(year.natAbs : Int) = year := by omega
      have sign : "-".toList = ['-'] := rfl
      rw [if_pos negative, String.toList_append, List.append_assoc, sign, List.singleton_append,
        year?_minus, read]
      exact congrArg (fun y => some (y, '-' :: rest)) back
    · have back : (year.natAbs : Int) = year := by omega
      have sign : "+".toList = ['+'] := rfl
      rw [if_neg negative, String.toList_append, List.append_assoc, sign, List.singleton_append,
        year?_plus, read]
      exact congrArg (fun y => some (y, '-' :: rest)) back

/-- A fraction is filled up with zeros. -/
theorem fraction?_padded {width n : Nat} (pos : 0 < width) (le : width ≤ 9) (h : n < 10 ^ width)
    {c : Char} (hc : isDigit c = false) (rest : List Char) :
    fraction? ('.' :: ((padded width n).toList ++ c :: rest)) =
      some (10 ^ (9 - width) * n, c :: rest) := by
  have front : ((padded width n).toList ++ c :: rest).takeWhile isDigit =
      (padded width n).toList := by
    rw [List.takeWhile_append_of_pos (padded_isDigit width n),
      List.takeWhile_cons_of_neg (by simp [hc]), List.append_nil]
  have back : ((padded width n).toList ++ c :: rest).dropWhile isDigit = c :: rest := by
    rw [List.dropWhile_append_of_pos (padded_isDigit width n),
      List.dropWhile_cons_of_neg (by simp [hc])]
  have some_digit : (padded width n).toList.isEmpty = false := by
    obtain ⟨c, cs, heq, -⟩ := padded_head width n
    rw [heq]
    rfl
  have filled : ((padded width n).toList ++ List.replicate 9 '0').take 9 =
      (padded width n).toList ++ List.replicate (9 - width) '0' := by
    rw [List.take_append, length_padded pos h, List.take_replicate,
      List.take_of_length_le (by rw [length_padded pos h]; exact le), Nat.min_eq_left (by omega)]
  have value : digitsValue ((padded width n).toList ++ List.replicate (9 - width) '0') =
      10 ^ (9 - width) * n := by
    rw [digitsValue_eq, Nat.ofDigitChars_append, Nat.ofDigitChars_replicate_zero, ← digitsValue_eq,
      digitsValue_padded]
  simp only [fraction?, front, back, some_digit, filled, value]
  rfl

theorem fraction?_fractionText {n : Nat} (h : n < 1000000000) {c : Char} (hc : isDigit c = false)
    (dot : c ≠ '.') (rest : List Char) :
    fraction? ((fractionText .shortest n).toList ++ c :: rest) = some (n, c :: rest) := by
  have pad : ∀ width m : Nat, 0 < width → width ≤ 9 → m < 10 ^ width → 10 ^ (9 - width) * m = n →
      fraction? (("." ++ padded width m).toList ++ c :: rest) = some (n, c :: rest) := by
    intro width m pos le hm value
    have point : ".".toList = ['.'] := rfl
    rw [← value, String.toList_append, List.append_assoc, point, List.singleton_append]
    exact fraction?_padded pos le hm hc rest
  simp only [fractionText]
  by_cases zero : n = 0
  · subst zero
    show fraction? (c :: rest) = _
    unfold fraction?
    split
    · next heq => exact absurd (List.cons.inj heq).1 dot
    · rfl
  · rw [if_neg zero]
    split
    · exact pad 3 (n / 1000000) (by decide) (by decide) (by omega) (by omega)
    · split
      · exact pad 6 (n / 1000) (by decide) (by decide) (by omega) (by omega)
      · exact pad 9 n (by decide) (by decide) (by omega) (by omega)

/-! ## 5. The whole text -/

/-- The year of the instant has dates. -/
def Dated (t : Instant) : Prop := hasDates t.calendar.1 = true

instance (t : Instant) : Decidable t.Dated := inferInstanceAs (Decidable (_ = _))

/-- An instant is the time of day on a date. -/
theorem calendar_spec (t : Instant) :
    ∃ year month day n, t.calendar = (year, month, day, n) ∧ IsDate year month day ∧
      n < 86400 * 1000000000 ∧
      t = ⟨daysOfDate year month day * (86400 * 1000000000) + (n : Int)⟩ := by
  have time : ∃ days n : Int, Int.fdiv t.nanos (86400 * 1000000000) = days ∧
      t.nanos = days * (86400 * 1000000000) + n ∧ 0 ≤ n ∧ n < 86400 * 1000000000 := by
    rw [Int.fdiv_eq_ediv_of_nonneg _ (by decide)]
    exact ⟨_, t.nanos % (86400 * 1000000000), rfl, by omega, by omega, by omega⟩
  obtain ⟨days, n, hdays, hnanos, h0, h1⟩ := time
  obtain ⟨year, month, day, hdate, date, back⟩ := dateOfDays_spec days
  have rest : t.nanos - days * (86400 * 1000000000) = n := by omega
  refine ⟨year, month, day, n.toNat, ?_, date, by omega, ?_⟩
  · simp only [calendar, hdays, hdate, rest]
  · have whole : ((n.toNat : Nat) : Int) = n := by omega
    rw [back, whole, ← hnanos]

/-- What is read from a text that is put together in the usual way. -/
theorem parse?_parts {s : String} {year : Int} {month day hour minute second nanos : Nat}
    {fraction : List Char} (date : IsDate year month day) (years : hasDates year = true)
    (hour24 : hour < 24) (minute60 : minute < 60) (second60 : second < 60)
    (read : fraction? (fraction ++ ['Z']) = some (nanos, ['Z']))
    (chars : s.toList = (yearText year).toList ++ '-' :: ((padded 2 month).toList ++
      '-' :: ((padded 2 day).toList ++ 'T' :: ((padded 2 hour).toList ++
      ':' :: ((padded 2 minute).toList ++ ':' :: ((padded 2 second).toList ++
      (fraction ++ ['Z']))))))) :
    parse? s = some ⟨(daysOfDate year month day * 86400 +
      ((hour * 3600 + minute * 60 + second : Nat) : Int) - 0) * 1000000000 + (nanos : Int)⟩ := by
  obtain ⟨month1, month12, day1, dayLe⟩ := date
  have day31 : day ≤ 31 := by
    refine Nat.le_trans dayLe ?_
    unfold daysInMonth
    split <;> split <;> decide
  have month100 : month < 100 := by omega
  have day100 : day < 100 := by omega
  have hour100 : hour < 100 := by omega
  have minute100 : minute < 100 := by omega
  have second100 : second < 100 := by omega
  have minus : isBlank '-' = false := by decide
  have colon : isBlank ':' = false := by decide
  have tee : ∀ cs, separator? ('T' :: cs) = some cs := fun _ => rfl
  have utc : offset? (dropBlanks ['Z']) = some (0, []) := rfl
  have blank : (dropBlanks []).isEmpty = true := rfl
  have next : ∀ {α : Type} {x : Option α} {a : α} (f : α → Option Instant), x = some a →
      (x >>= f) = f a := by
    rintro α x a f rfl
    rfl
  -- one part after the other, in the order in which they stand
  rw [parse?, chars]
  refine (next _ (year?_yearText year _)).trans ?_
  refine (next _ (mark?_cons minus _)).trans ?_
  refine (next _ (part?_padded month100 _)).trans ?_
  refine (next _ (mark?_cons minus _)).trans ?_
  refine (next _ (part?_padded day100 _)).trans ?_
  refine (next _ (tee _)).trans ?_
  refine (next _ (part?_padded hour100 _)).trans ?_
  refine (next _ (mark?_cons colon _)).trans ?_
  refine (next _ (part?_padded minute100 _)).trans ?_
  refine (next _ (mark?_cons colon _)).trans ?_
  refine (next _ (part?_padded second100 _)).trans ?_
  refine (next _ read).trans ?_
  refine (next _ utc).trans (if_pos ?_)
  simp only [blank, years, month1, month12, day1, dayLe, hour24, minute60, second60, decide_true,
    Bool.and_self]

/-- **An instant is read from its text.** -/
theorem parse?_text {t : Instant} (dated : t.Dated) : parse? t.text = some t := by
  obtain ⟨year, month, day, n, hcal, date, hn, ht⟩ := t.calendar_spec
  rw [Dated, hcal] at dated
  have hour : n / 1000000000 / 3600 < 24 := by omega
  have minute : n / 1000000000 / 60 % 60 < 60 := by omega
  have second : n / 1000000000 % 60 < 60 := by omega
  have fraction := fraction?_fractionText (show n % 1000000000 < 1000000000 by omega)
    (show isDigit 'Z' = false by decide) (show 'Z' ≠ '.' by decide) []
  have dash : "-".toList = ['-'] := rfl
  have tee : "T".toList = ['T'] := rfl
  have colon : ":".toList = [':'] := rfl
  have zed : "Z".toList = ['Z'] := rfl
  rw [parse?_parts date dated hour minute second fraction, ht]
  · refine congrArg (fun nanos => some (Instant.mk nanos)) ?_
    omega
  · rw [text, textWith, dateTimeText, hcal]
    simp only [String.toList_append, List.append_assoc, dash, tee, colon, zed,
      List.cons_append, List.nil_append]

end Instant
end Runbook
