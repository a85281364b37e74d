import Mathlib.Data.String.Basic
import Mathlib.Tactic.IntervalCases
import Mathlib.Tactic.Ring
import Runbook.Proofs.InstantText

/-!
# Instants in the order of their texts

Texts with four digits of the year and six digits behind the point all have one width, part by part.
So they stand in the order in which their numbers stand, the year first; and that is the order of
the instants, as long as nothing finer than a microsecond is dropped.
-/

set_option autoImplicit false

namespace Runbook

/-! ## 1. Numbers of one width -/

namespace Text

theorem digitsValue_foldl (n : Nat) (cs : List Char) :
    cs.foldl (fun n c => n * 10 + (c.toNat - 48)) n = n * 10 ^ cs.length + digitsValue cs := by
  induction cs generalizing n with
  | nil => simp [digitsValue]
  | cons c cs ih =>
    rw [digitsValue, List.foldl_cons, List.foldl_cons, ih, ih (0 * 10 + (c.toNat - 48)),
      List.length_cons, Nat.pow_succ]
    ring

theorem digitsValue_cons (c : Char) (cs : List Char) :
    digitsValue (c :: cs) = (c.toNat - 48) * 10 ^ cs.length + digitsValue cs := by
  rw [digitsValue, List.foldl_cons, digitsValue_foldl, Nat.zero_mul, Nat.zero_add]

theorem isDigit_iff (c : Char) : isDigit c = true ↔ 48 ≤ c.toNat ∧ c.toNat ≤ 57 := by
  simp only [isDigit, Bool.and_eq_true, decide_eq_true_eq, Char.le_def, UInt32.le_iff_toNat_le]
  rfl

theorem digitsValue_lt {cs : List Char} (digits : ∀ c ∈ cs, isDigit c = true) :
    digitsValue cs < 10 ^ cs.length := by
  induction cs with
  | nil => decide
  | cons c cs ih =>
    rw [List.forall_mem_cons] at digits
    have low := ih digits.2
    have high := (isDigit_iff c).mp digits.1
    rw [digitsValue_cons, List.length_cons, Nat.pow_succ]
    have : (c.toNat - 48) * 10 ^ cs.length ≤ 9 * 10 ^ cs.length :=
      Nat.mul_le_mul_right _ (by omega)
    omega

/-- Of digits of one length those of the smaller number come first, whatever follows. -/
theorem append_lt_append_of_value {as bs : List Char} (xs ys : List Char)
    (das : ∀ c ∈ as, isDigit c = true) (dbs : ∀ c ∈ bs, isDigit c = true)
    (width : as.length = bs.length) (h : digitsValue as < digitsValue bs) :
    as ++ xs < bs ++ ys := by
  induction as generalizing bs with
  | nil =>
    rw [List.length_nil, eq_comm, List.length_eq_zero_iff] at width
    subst width
    exact absurd h (Nat.lt_irrefl _)
  | cons a as ih =>
    cases bs with
    | nil => cases width
    | cons b bs =>
      rw [List.forall_mem_cons] at das dbs
      rw [List.length_cons, List.length_cons, Nat.add_right_cancel_iff] at width
      have ha := (isDigit_iff a).mp das.1
      have hb := (isDigit_iff b).mp dbs.1
      have lowB := digitsValue_lt dbs.2
      rw [digitsValue_cons, digitsValue_cons, width] at h
      rw [List.cons_append, List.cons_append, List.cons_lt_cons_iff]
      rcases Nat.lt_trichotomy a.toNat b.toNat with lt | eq | gt
      · exact .inl lt
      · obtain rfl : a = b := Char.toNat_inj.mp eq
        exact .inr ⟨rfl, ih das.2 dbs.2 width (by omega)⟩
      · -- a larger first digit makes a larger number
        have : (b.toNat - 48 + 1) * 10 ^ bs.length ≤ (a.toNat - 48) * 10 ^ bs.length :=
          Nat.mul_le_mul_right _ (by omega)
        rw [Nat.add_mul, Nat.one_mul] at this
        omega

/-- A field of a fixed width is compared first, and what follows only if it is the same. -/
theorem padded_append_lt {width n m : Nat} {xs ys : List Char} (pos : 0 < width)
    (hn : n < 10 ^ width) (hm : m < 10 ^ width) (h : n < m ∨ n = m ∧ xs < ys) :
    (padded width n).toList ++ xs < (padded width m).toList ++ ys := by
  rcases h with lt | ⟨rfl, rest⟩
  · refine append_lt_append_of_value xs ys (padded_isDigit width n) (padded_isDigit width m) ?_ ?_
    · rw [length_padded pos hn, length_padded pos hm]
    · rwa [digitsValue_padded, digitsValue_padded]
  · exact List.append_left_lt rest

end Text
namespace Instant

open Text

/-! ## 2. Dates -/

theorem IsDate.day_lt {year : Int} {month day : Nat} (date : IsDate year month day) : day < 32 := by
  refine Nat.lt_succ_of_le (Nat.le_trans date.day_le ?_)
  unfold daysInMonth
  split <;> split <;> decide

/-- The days before a year that begins in March. -/
def marchStart (year : Int) : Int := 365 * year + year / 4 - year / 100 + year / 400

theorem marchStart_mono {Y Y' : Int} (h : Y ≤ Y') : marchStart Y ≤ marchStart Y' := by
  unfold marchStart
  omega

/-- A year ends with the February after it, and has one day more if that has. -/
theorem marchStart_succ (Y : Int) :
    marchStart (Y + 1) = marchStart Y + if isLeap (Y + 1) then 366 else 365 := by
  simp only [marchStart, isLeap, Bool.and_eq_true, Bool.or_eq_true, beq_iff_eq, bne_iff_ne]
  split <;> omega

/-- The days before a month, counted from March. -/
theorem marchMonth_succ {M : Int} (h0 : 0 ≤ M) (h10 : M ≤ 10) :
    (153 * (M + 1) + 2) / 5 =
      (153 * M + 2) / 5 + if M = 1 ∨ M = 3 ∨ M = 6 ∨ M = 8 then 30 else 31 := by
  interval_cases M <;> rfl

/-- A date as a day of a March year: the year, the days before its month, and the day. -/
structure MarchDay (year : Int) (month day : Nat) (Y M : Int) : Prop where
  days : daysOfDate year month day = marchStart Y + (153 * M + 2) / 5 + day - 719469
  early : 0 ≤ M
  late : M ≤ 11
  here : (2 < month ∧ Y = year ∧ M = month - 3) ∨ (month ≤ 2 ∧ Y = year - 1 ∧ M = month + 9)
  long : (day : Int) ≤ if M = 1 ∨ M = 3 ∨ M = 6 ∨ M = 8 then 30 else 31
  february : M = 11 → (day : Int) ≤ if isLeap (Y + 1) then 29 else 28

theorem marchDay_exists {year : Int} {month day : Nat} (date : IsDate year month day) :
    ∃ Y M, MarchDay year month day Y M := by
  obtain ⟨month1, month12, day1, dayLe⟩ := date
  have place : ∀ Y M : Int, (if month ≤ 2 then year - 1 else year) = Y →
      (((month + 9) % 12 : Nat) : Int) = M →
      daysOfDate year month day = marchStart Y + (153 * M + 2) / 5 + day - 719469 := by
    intro Y M hY hM
    have hY : (if month ≤ 2 then year - 1 else year) = Y % 400 + Y / 400 * 400 :=
      hY.trans (by omega)
    rw [daysOfDate_eq day hY (by omega) (by omega) hM, marchStart]
    omega
  simp only [daysInMonth, Bool.or_eq_true, decide_eq_true_eq] at dayLe
  by_cases early : month ≤ 2
  · refine ⟨year - 1, month + 9, place _ _ (if_pos early) (by omega), by omega, by omega,
      .inr ⟨early, rfl, rfl⟩, ?_, ?_⟩
    · split at dayLe <;> split <;> split at dayLe <;> omega
    · intro last
      rw [if_pos (by omega)] at dayLe
      rw [Int.sub_add_cancel]
      split <;> rename_i leap <;> simp only [leap] at dayLe <;> simp at dayLe <;> omega
  · refine ⟨year, month - 3, place _ _ (if_neg early) (by omega), by omega, by omega,
      .inl ⟨by omega, rfl, rfl⟩, ?_, by omega⟩
    rw [if_neg (by omega)] at dayLe
    split at dayLe <;> split <;> omega

/-- A March year has 365 days, and one more if it ends in a leap year. -/
theorem MarchDay.day_le {year : Int} {month day : Nat} {Y M : Int}
    (h : MarchDay year month day Y M) :
    (153 * M + 2) / 5 + (day : Int) ≤ if isLeap (Y + 1) then 366 else 365 := by
  obtain ⟨-, early, late, -, long, february⟩ := h
  by_cases last : M = 11
  · subst last
    have := february rfl
    split <;> simp_all <;> omega
  · have : (153 * M + 2) / 5 + (day : Int) ≤ 337 := by
      interval_cases M <;> simp_all <;> omega
    split <;> omega

/-- A later date is a later day. -/
theorem daysOfDate_lt {year year' : Int} {month month' day day' : Nat}
    (date : IsDate year month day) (date' : IsDate year' month' day')
    (h : year < year' ∨ year = year' ∧ (month < month' ∨ month = month' ∧ day < day')) :
    daysOfDate year month day < daysOfDate year' month' day' := by
  obtain ⟨Y, M, here⟩ := marchDay_exists date
  obtain ⟨Y', M', here'⟩ := marchDay_exists date'
  have order : Y < Y' ∨ Y = Y' ∧ (M < M' ∨ M = M' ∧ day < day') := by
    have := date.month_pos
    have := date.month_le
    have := date'.month_pos
    have := date'.month_le
    rcases here.here with ⟨_, _, _⟩ | ⟨_, _, _⟩ <;>
      rcases here'.here with ⟨_, _, _⟩ | ⟨_, _, _⟩ <;> omega
  have first := date'.day_pos
  rw [here.days, here'.days]
  rcases order with later | ⟨rfl, later | ⟨rfl, later⟩⟩
  · -- every day of a March year is in front of the next year
    have next := marchStart_mono (show Y + 1 ≤ Y' by omega)
    have whole := here.day_le
    have := here'.early
    rw [marchStart_succ] at next
    omega
  · -- and every day of a month in front of the next month
    have next := marchMonth_succ here.early (by have := here'.late; omega)
    have long := here.long
    omega
  · omega

/-! ## 3. Texts -/

/-- The year is one of those that are written without a sign. -/
def FourDigits (t : Instant) : Prop := 0 ≤ t.calendar.1 ∧ t.calendar.1 ≤ 9999

instance (t : Instant) : Decidable t.FourDigits := inferInstanceAs (Decidable (_ ∧ _))

/-- The instant has a text of the usual width that says all of it. -/
structure Plain (t : Instant) : Prop where
  year_nonneg : 0 ≤ t.calendar.1
  year_le : t.calendar.1 ≤ 9999
  /-- There is nothing finer than a microsecond. -/
  whole : t.nanos % 1000 = 0

/-- A text in its parts: date, time of day, and microseconds. -/
def widthText (year month day second micro : Nat) : List Char :=
  (padded 4 year).toList ++ '-' :: ((padded 2 month).toList ++ '-' :: ((padded 2 day).toList ++
    'T' :: ((padded 2 (second / 3600)).toList ++ ':' :: ((padded 2 (second / 60 % 60)).toList ++
    ':' :: ((padded 2 (second % 60)).toList ++ '.' :: ((padded 6 micro).toList ++ ['Z']))))))

theorem toList_microsText {t : Instant} {year : Int} {month day n : Nat}
    (hcal : t.calendar = (year, month, day, n)) (h0 : 0 ≤ year) (h9 : year ≤ 9999) :
    (t.textWith "Z" .micros).toList =
      widthText year.toNat month day (n / 1000000000) (n % 1000000000 / 1000) := by
  have dash : "-".toList = ['-'] := rfl
  have tee : "T".toList = ['T'] := rfl
  have colon : ":".toList = [':'] := rfl
  have point : ".".toList = ['.'] := rfl
  have zed : "Z".toList = ['Z'] := rfl
  have digits : yearText year = padded 4 year.toNat := if_pos ⟨h0, h9⟩
  rw [textWith, dateTimeText, hcal, widthText]
  simp only [digits, fractionText, String.toList_append, List.append_assoc, dash, tee, colon, point, zed,
    List.cons_append, List.nil_append]

/-- **What is whole to the microsecond is read back from its text.** -/
theorem parse?_microsText {t : Instant} (plain : t.Plain) :
    parse? (t.textWith "Z" .micros) = some t := by
  obtain ⟨year, month, day, n, hcal, date, hn, ht⟩ := t.calendar_spec
  obtain ⟨h0, h9, whole⟩ := plain
  simp only [hcal] at h0 h9
  have dated : hasDates year = true := by
    simp only [hasDates, Bool.and_eq_true, decide_eq_true_eq]
    omega
  have digits : yearText year = padded 4 year.toNat := if_pos ⟨h0, h9⟩
  have fraction : fraction? ('.' :: (padded 6 (n % 1000000000 / 1000)).toList ++ ['Z']) =
      some (10 ^ (9 - 6) * (n % 1000000000 / 1000), ['Z']) :=
    fraction?_padded (by decide) (by decide) (by omega) (by decide) []
  have hour : n / 1000000000 / 3600 < 24 := by omega
  have minute : n / 1000000000 / 60 % 60 < 60 := by omega
  have second : n / 1000000000 % 60 < 60 := by omega
  have chars := toList_microsText hcal h0 h9
  rw [widthText, ← digits] at chars
  rw [parse?_parts date dated hour minute second fraction chars, ht]
  have fine : n % 1000 = 0 := by
    rw [ht] at whole
    simp only at whole
    omega
  refine congrArg (fun nanos => some (Instant.mk nanos)) ?_
  omega

theorem parseFourDigits?_microsText {t : Instant} (plain : t.Plain) :
    parseFourDigits? (t.textWith "Z" .micros) = some t := by
  obtain ⟨year, month, day, n, hcal, -⟩ := t.calendar_spec
  obtain ⟨h0, h9, -⟩ := id plain
  simp only [hcal] at h0 h9
  have width : (padded 4 year.toNat).toList.length = 4 := length_padded (by decide) (by omega)
  have digits : ((t.textWith "Z" .micros).toList.take 4).all isDigit = true := by
    rw [toList_microsText hcal h0 h9, widthText, List.take_left' width]
    exact List.all_eq_true.mpr (padded_isDigit 4 _)
  rw [parseFourDigits?, if_pos digits, parse?_microsText plain]

/-- The parts of the text are compared one after another. -/
theorem widthText_lt {year month day second micro year' month' day' second' micro' : Nat}
    (years : year < 10 ^ 4 ∧ year' < 10 ^ 4) (months : month < 10 ^ 2 ∧ month' < 10 ^ 2)
    (days : day < 10 ^ 2 ∧ day' < 10 ^ 2) (seconds : second < 86400 ∧ second' < 86400)
    (micros : micro < 10 ^ 6 ∧ micro' < 10 ^ 6)
    (h : year < year' ∨ year = year' ∧ (month < month' ∨ month = month' ∧ (day < day' ∨
      day = day' ∧ (second < second' ∨ second = second' ∧ micro < micro')))) :
    widthText year month day second micro < widthText year' month' day' second' micro' := by
  have next : ∀ (c : Char) {xs ys : List Char}, xs < ys → c :: xs < c :: ys :=
    fun c xs ys lt => List.cons_lt_cons_iff.mpr (.inr ⟨rfl, lt⟩)
  refine padded_append_lt (by decide) years.1 years.2 (h.imp_right fun ⟨same, h⟩ =>
    ⟨same, next '-' ?_⟩)
  refine padded_append_lt (by decide) months.1 months.2 (h.imp_right fun ⟨same, h⟩ =>
    ⟨same, next '-' ?_⟩)
  refine padded_append_lt (by decide) days.1 days.2 (h.imp_right fun ⟨same, h⟩ =>
    ⟨same, next 'T' ?_⟩)
  -- a second of the day is its hour, its minute and its second
  have time : second / 3600 < second' / 3600 ∨ second / 3600 = second' / 3600 ∧
      (second / 60 % 60 < second' / 60 % 60 ∨ second / 60 % 60 = second' / 60 % 60 ∧
      (second % 60 < second' % 60 ∨ second % 60 = second' % 60 ∧ micro < micro')) := by
    omega
  refine padded_append_lt (by decide) (by omega) (by omega) (time.imp_right fun ⟨same, h⟩ =>
    ⟨same, next ':' ?_⟩)
  refine padded_append_lt (by decide) (by omega) (by omega) (h.imp_right fun ⟨same, h⟩ =>
    ⟨same, next ':' ?_⟩)
  refine padded_append_lt (by decide) (by omega) (by omega) (h.imp_right fun ⟨same, h⟩ =>
    ⟨same, next '.' ?_⟩)
  exact padded_append_lt (by decide) micros.1 micros.2 (.inl h)

/-- Of two instants the earlier has the earlier date, or the same date and the earlier time. -/
theorem calendar_lt {t u : Instant} {year year' : Int} {month month' day day' n n' : Nat}
    (date : IsDate year month day) (date' : IsDate year' month' day')
    (ht : t = ⟨daysOfDate year month day * (86400 * 1000000000) + (n : Int)⟩)
    (hu : u = ⟨daysOfDate year' month' day' * (86400 * 1000000000) + (n' : Int)⟩)
    (hn : n < 86400 * 1000000000) (hn' : n' < 86400 * 1000000000) (h : t < u) :
    year < year' ∨ year = year' ∧ (month < month' ∨ month = month' ∧ (day < day' ∨
      day = day' ∧ n < n')) := by
  subst ht hu
  replace h : daysOfDate year month day * (86400 * 1000000000) + (n : Int) <
    daysOfDate year' month' day' * (86400 * 1000000000) + (n' : Int) := h
  by_cases same : year = year' ∧ month = month' ∧ day = day'
  · obtain ⟨rfl, rfl, rfl⟩ := same
    omega
  · have before := daysOfDate_lt date date'
    have behind := daysOfDate_lt date' date
    omega

/-- The text of an earlier instant comes first. -/
theorem microsText_lt {t u : Instant} (ht : t.Plain) (hu : u.Plain) (h : t < u) :
    t.textWith "Z" .micros < u.textWith "Z" .micros := by
  obtain ⟨year, month, day, n, hcal, date, hn, eq⟩ := t.calendar_spec
  obtain ⟨year', month', day', n', hcal', date', hn', eq'⟩ := u.calendar_spec
  obtain ⟨h0, h9, whole⟩ := ht
  obtain ⟨h0', h9', whole'⟩ := hu
  simp only [hcal] at h0 h9
  simp only [hcal'] at h0' h9'
  have order := calendar_lt date date' eq eq' hn hn' h
  -- nothing is finer than what the text shows
  rw [eq] at whole
  rw [eq'] at whole'
  have fine : n % 1000 = 0 ∧ n' % 1000 = 0 := by
    simp only at whole whole'
    omega
  rw [String.lt_iff_toList_lt, toList_microsText hcal h0 h9, toList_microsText hcal' h0' h9']
  have := date.month_le
  have := date'.month_le
  have := date.day_lt
  have := date'.day_lt
  exact widthText_lt (by omega) (by omega) (by omega) (by omega) (by omega) (by omega)

theorem Plain.fourDigits {t : Instant} (h : t.Plain) : t.FourDigits := ⟨h.year_nonneg, h.year_le⟩

/-- A sign comes before all digits, be it that of a year before the year 0 or behind the year 9999. -/
theorem microsText_of_signed {t u : Instant} (ht : ¬ t.FourDigits) (hu : u.FourDigits) :
    t.textWith "Z" .micros < u.textWith "Z" .micros := by
  obtain ⟨year, month, day, n, hcal, -, -, -⟩ := u.calendar_spec
  obtain ⟨h0, h9⟩ := hu
  simp only [hcal] at h0 h9
  obtain ⟨c, cs, head, digit⟩ := padded_head 4 year.toNat
  obtain ⟨x, rest, hrest, sign⟩ :
      ∃ x rest, (t.textWith "Z" .micros).toList = x :: rest ∧ (x = '-' ∨ x = '+') := by
    have signed : yearText t.calendar.1 =
        (if t.calendar.1 < 0 then "-" else "+") ++ padded 4 t.calendar.1.natAbs := if_neg ht
    simp only [textWith, dateTimeText, signed, String.toList_append, List.append_assoc]
    split
    · exact ⟨_, _, rfl, .inl rfl⟩
    · exact ⟨_, _, rfl, .inr rfl⟩
  rw [String.lt_iff_toList_lt, hrest, toList_microsText hcal h0 h9, widthText, head,
    List.cons_append, List.cons_lt_cons_iff]
  have digit := (isDigit_iff c).mp digit
  rcases sign with rfl | rfl
  · exact .inl (show 45 < c.toNat by omega)
  · exact .inl (show 43 < c.toNat by omega)

/-- **The order of the texts is the order of the instants**, also for an earlier bound. -/
theorem microsText_lt_iff {t u : Instant} (ht : t.Plain) (hu : u.Plain ∨ u.calendar.1 < 0) :
    t.textWith "Z" .micros < u.textWith "Z" .micros ↔ t < u := by
  constructor
  · intro lt
    by_contra le
    rcases hu with hu | hu
    · rcases Int.lt_or_eq_of_le (Int.not_lt.mp le) with gt | eq
      · exact String.lt_asymm lt (microsText_lt hu ht gt)
      · obtain rfl : u = t := congrArg Instant.mk eq
        exact String.lt_irrefl _ lt
    · have signed : ¬ u.FourDigits := fun four => Int.not_lt.mpr four.1 hu
      exact String.lt_asymm lt (microsText_of_signed signed ht.fourDigits)
  · intro lt
    rcases hu with hu | hu
    · exact microsText_lt ht hu lt
    · obtain ⟨year, month, day, n, hcal, date, hn, eq⟩ := t.calendar_spec
      obtain ⟨year', month', day', n', hcal', date', hn', eq'⟩ := u.calendar_spec
      have order := calendar_lt date date' eq eq' hn hn' lt
      have h0 := ht.year_nonneg
      rw [hcal] at h0
      rw [hcal'] at hu
      simp only at h0 hu
      omega

/-! ## 4. Instants that are cut off -/

/-- The instant without what is finer than a microsecond. -/
def truncated (t : Instant) : Instant := ⟨t.nanos / 1000 * 1000⟩

@[simp] theorem truncated_nanos (t : Instant) : t.truncated.nanos = t.nanos / 1000 * 1000 := rfl

theorem calendar_truncated {t : Instant} {year : Int} {month day n : Nat}
    (h : t.calendar = (year, month, day, n)) :
    t.truncated.calendar = (year, month, day, n / 1000 * 1000) := by
  have same : Int.fdiv t.truncated.nanos (86400 * 1000000000) =
      Int.fdiv t.nanos (86400 * 1000000000) := by
    rw [Int.fdiv_eq_ediv_of_nonneg _ (by decide), Int.fdiv_eq_ediv_of_nonneg _ (by decide),
      truncated_nanos]
    omega
  have start : Int.fdiv t.nanos (86400 * 1000000000) * (86400 * 1000000000) ≤ t.nanos := by
    rw [Int.fdiv_eq_ediv_of_nonneg _ (by decide)]
    omega
  simp only [calendar, Prod.mk.injEq] at h
  obtain ⟨rfl, rfl, rfl, rfl⟩ := h
  simp only [calendar, same, Prod.mk.injEq, true_and]
  rw [truncated_nanos]
  omega

/-- The text does not show what is cut off. -/
theorem microsText_truncated (t : Instant) :
    t.truncated.textWith "Z" .micros = t.textWith "Z" .micros := by
  obtain ⟨year, month, day, n, hcal, -, -, -⟩ := t.calendar_spec
  have second : n / 1000 * 1000 / 1000000000 = n / 1000000000 := by omega
  have micro : n / 1000 * 1000 % 1000000000 / 1000 = n % 1000000000 / 1000 := by omega
  simp only [textWith, dateTimeText, fractionText, hcal, calendar_truncated hcal, second, micro]

theorem FourDigits.plain_truncated {t : Instant} (h : t.FourDigits) : t.truncated.Plain := by
  obtain ⟨year, month, day, n, hcal, -, -, -⟩ := t.calendar_spec
  have same : t.truncated.calendar.1 = t.calendar.1 := by rw [hcal, calendar_truncated hcal]
  refine ⟨same ▸ h.1, same ▸ h.2, ?_⟩
  rw [truncated_nanos]
  omega

/-- What is read of a text is the instant without what is cut off. -/
theorem FourDigits.parse?_microsText {t : Instant} (h : t.FourDigits) :
    parse? (t.textWith "Z" .micros) = some t.truncated := by
  rw [← microsText_truncated, Instant.parse?_microsText h.plain_truncated]

/-- **The order of the texts is the order of the microseconds**, also for a bound before the year
0. -/
theorem microsText_lt_iff_micros {t u : Instant} (ht : t.FourDigits) (hu : u.calendar.1 ≤ 9999) :
    t.textWith "Z" .micros < u.textWith "Z" .micros ↔ t.nanos / 1000 < u.nanos / 1000 := by
  have bound : u.truncated.Plain ∨ u.truncated.calendar.1 < 0 := by
    obtain ⟨year, month, day, n, hcal, -, -, -⟩ := u.calendar_spec
    have same : u.truncated.calendar.1 = u.calendar.1 := by rw [hcal, calendar_truncated hcal]
    rcases Int.lt_or_le u.calendar.1 0 with before | digits
    · exact .inr (same ▸ before)
    · exact .inl (FourDigits.plain_truncated ⟨digits, hu⟩)
  have micros : t.truncated < u.truncated ↔ t.nanos / 1000 < u.nanos / 1000 := by
    change t.nanos / 1000 * 1000 < u.nanos / 1000 * 1000 ↔ _
    omega
  rw [← microsText_truncated t, ← microsText_truncated u,
    microsText_lt_iff ht.plain_truncated bound, micros]

/-- The texts of four-digit years have one width. -/
theorem FourDigits.length_microsText {t : Instant} (h : t.FourDigits) :
    (t.textWith "Z" .micros).length = 27 := by
  obtain ⟨year, month, day, n, hcal, date, hn, -⟩ := t.calendar_spec
  obtain ⟨h0, h9⟩ := h
  simp only [hcal] at h0 h9
  have := date.month_le
  have := date.day_lt
  have four : (padded 4 year.toNat).toList.length = 4 := length_padded (by decide) (by omega)
  have two : ∀ n < 100, (padded 2 n).toList.length = 2 :=
    fun n small => length_padded (by decide) small
  have six : (padded 6 (n % 1000000000 / 1000)).toList.length = 6 :=
    length_padded (by decide) (by omega)
  rw [← String.length_toList, toList_microsText hcal h0 h9, widthText]
  simp only [List.length_append, List.length_cons, List.length_nil, four, six]
  rw [two month (by omega), two day (by omega), two (n / 1000000000 / 3600) (by omega),
    two (n / 1000000000 / 60 % 60) (by omega), two (n / 1000000000 % 60) (by omega)]

/-! ## 5. Years in order -/

/-- A later instant is not in an earlier year. -/
theorem year_mono {t u : Instant} (h : t ≤ u) : t.calendar.1 ≤ u.calendar.1 := by
  obtain ⟨year, month, day, n, hcal, date, hn, eq⟩ := t.calendar_spec
  obtain ⟨year', month', day', n', hcal', date', hn', eq'⟩ := u.calendar_spec
  rcases Int.lt_or_eq_of_le h with lt | same
  · have order := calendar_lt date date' eq eq' hn hn' lt
    rw [hcal, hcal']
    dsimp only
    omega
  · obtain rfl : t = u := congrArg Instant.mk same
    exact Int.le_refl _

/-- An instant has dates from the earliest one to the latest. -/
theorem dated_iff {t : Instant} : t.Dated ↔ earliest ≤ t ∧ t ≤ latest := by
  have first : earliest.calendar.1 = -262143 := by decide +kernel
  have before : (Instant.calendar ⟨earliest.nanos - 1⟩).1 = -262144 := by decide +kernel
  have last : latest.calendar.1 = 262142 := by decide +kernel
  have behind : (Instant.calendar ⟨latest.nanos + 1⟩).1 = 262143 := by decide +kernel
  rw [Dated, hasDates, Bool.and_eq_true, decide_eq_true_eq, decide_eq_true_eq]
  constructor
  · rintro ⟨low, high⟩
    constructor
    · by_contra lt
      have lt : t.nanos < earliest.nanos := Int.not_le.mp lt
      have := year_mono (u := ⟨earliest.nanos - 1⟩) (show t.nanos ≤ earliest.nanos - 1 by omega)
      omega
    · by_contra gt
      have gt : latest.nanos < t.nanos := Int.not_le.mp gt
      have := year_mono (t := ⟨latest.nanos + 1⟩) (show latest.nanos + 1 ≤ t.nanos by omega)
      omega
  · rintro ⟨low, high⟩
    have := year_mono low
    have := year_mono high
    omega

end Instant
end Runbook
