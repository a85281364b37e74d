import Mathlib.Algebra.Group.Nat.Defs
import Runbook.Model.Endpoint

/-!
# When a server wants to be asked again

A server that has had enough may say after how many seconds it wants to be asked again. It says so
in the first header of that name, and is understood if the header has visible characters only and is,
without the blanks around it, a numeral of at most 64 bits (`AsksFor`).

The seconds are passed on in milliseconds of 64 bits. So the delay is the one that was asked for up
to 18446744073709551 seconds, and is short of it by a multiple of `2 ^ 64` beyond that.
-/

set_option autoImplicit false

namespace Runbook

/-! ## 1. Numerals -/

namespace Text

/-- Digits, perhaps with a plus sign in front, of a number below a bound. -/
def NumeralBelow (bound : Nat) (s : String) (n : Nat) : Prop :=
  ∃ digits, (s.toList = digits ∨ s.toList = '+' :: digits) ∧ digits ≠ [] ∧
    (∀ c ∈ digits, isDigit c) ∧ digitsValue digits = n ∧ n < bound

theorem boundedDigits?_eq_some_iff {bound n : Nat} {digits : List Char} :
    boundedDigits? bound digits = some n ↔
      digits ≠ [] ∧ (∀ c ∈ digits, isDigit c) ∧ digitsValue digits = n ∧ n < bound := by
  simp only [boundedDigits?, Bool.or_eq_true, List.isEmpty_iff, Bool.not_eq_true',
    Option.ite_none_left_eq_some, Option.ite_none_right_eq_some, Option.some.injEq, not_or,
    Bool.not_eq_false, List.all_eq_true]
  constructor
  · rintro ⟨⟨some, digits⟩, small, rfl⟩
    exact ⟨some, digits, rfl, small⟩
  · rintro ⟨some, digits, rfl, small⟩
    exact ⟨⟨some, digits⟩, small, rfl⟩

theorem bounded?_eq_some_iff {bound n : Nat} {s : String} :
    bounded? bound s = some n ↔ NumeralBelow bound s n := by
  rw [bounded?]
  split
  · next digits signed =>
    rw [boundedDigits?_eq_some_iff]
    constructor
    · rintro spelt
      exact ⟨digits, .inr signed, spelt⟩
    · rintro ⟨found, plain | sign, some, digit, value⟩
      · -- a plus sign is not a digit
        have first := digit '+' (by rw [← plain, signed]; exact List.mem_cons_self ..)
        exact absurd first (by decide)
      · obtain rfl : digits = found := by simpa [signed] using sign
        exact ⟨some, digit, value⟩
  · next unsigned =>
    rw [boundedDigits?_eq_some_iff]
    constructor
    · rintro spelt
      exact ⟨_, .inl rfl, spelt⟩
    · rintro ⟨found, plain | sign, spelt⟩
      · rw [plain]
        exact spelt
      · exact absurd sign (unsigned _)

end Text

namespace Http

/-! ## 2. The header -/

/-- A visible ASCII character, a blank or a tab. -/
def IsVisible (c : Char) : Prop := c = '\t' ∨ (' ' ≤ c ∧ c < '\x7f')

/-- The headers ask for so many seconds. -/
def AsksFor (headers : List (String × String)) (secs : Nat) : Prop :=
  ∃ before name value after, headers = before ++ (name, value) :: after ∧
    lowerName name = "retry-after" ∧ (∀ h ∈ before, lowerName h.1 ≠ "retry-after") ∧
    (∀ c ∈ value.toList, IsVisible c) ∧ Text.NumeralBelow (2 ^ 64) (Text.trim value) secs

theorem retryAfter?_eq_some_iff {headers : List (String × String)} {secs : Nat} :
    retryAfter? headers = some secs ↔ AsksFor headers secs := by
  have lower : lowerName "retry-after" = "retry-after" := by decide +kernel
  have read (value : String) :
      (if value.toList.all fun c => c = '\t' || (' ' ≤ c && c < '\x7f') then
        Text.word? (Text.trim value) else none) = some secs ↔
      (∀ c ∈ value.toList, IsVisible c) ∧
        Text.NumeralBelow (2 ^ 64) (Text.trim value) secs := by
    rw [Option.ite_none_right_eq_some, Text.word?, Text.bounded?_eq_some_iff]
    simp [IsVisible]
  simp only [retryAfter?, header?, lower, Option.bind_eq_bind, Option.bind_eq_some_iff,
    Option.map_eq_some_iff, read]
  constructor
  · rintro ⟨value, ⟨⟨name, _⟩, found, rfl⟩, spelt⟩
    obtain ⟨same, before, after, whole, first⟩ := List.find?_eq_some_iff_append.mp found
    exact ⟨before, name, _, after, whole, by simpa using same, by simpa using first, spelt⟩
  · rintro ⟨before, name, value, after, rfl, same, first, spelt⟩
    refine ⟨value, ⟨(name, value), ?_, rfl⟩, spelt⟩
    exact List.find?_eq_some_iff_append.mpr
      ⟨by simpa using same, before, after, rfl, by simpa using first⟩

theorem retryAfter?_eq_none_iff {headers : List (String × String)} :
    retryAfter? headers = none ↔ ∀ secs, ¬ AsksFor headers secs := by
  simp only [Option.eq_none_iff_forall_ne_some, ne_eq, retryAfter?_eq_some_iff]

end Http

/-! ## 3. The delay -/

namespace Model.Endpoint

theorem milliseconds_eq (secs : Nat) : milliseconds secs = 1000 * secs % 2 ^ 64 := by
  rw [milliseconds, UInt64.toNat_mul]
  simp [Nat.toUInt64, Nat.mul_comm]

/-- The delay is what was asked for exactly if that is a number of 64 bits. -/
theorem milliseconds_eq_iff (secs : Nat) :
    milliseconds secs = 1000 * secs ↔ 1000 * secs < 2 ^ 64 := by
  rw [milliseconds_eq]
  omega

variable {e : Endpoint} {a : Http.Answer}

theorem read_of_refused (refused : Http.isSuccess a.status = false) :
    e.read a = .error (statusError a) := by
  rw [Endpoint.read, refused]
  rfl

theorem statusError_of_eq (limited : a.status = 429) :
    statusError a = .rateLimited ((Http.retryAfter? a.headers).map milliseconds) := by
  rw [statusError, limited]
  rfl

/-- With another status the headers count for nothing. -/
theorem statusError_headers (other : a.status ≠ 429) (headers : List (String × String)) :
    statusError { a with headers } = statusError a := by
  obtain ⟨status, before, body⟩ := a
  unfold statusError
  split <;> simp_all <;> rfl

theorem status_of_rateLimited {delay : Option Nat} (h : statusError a = .rateLimited delay) :
    a.status = 429 := by
  unfold statusError at h
  split at h <;> simp_all

/-- What the error for an answer says about asking again. -/
structure Refusal (e : Endpoint) (a : Http.Answer) (error : Error) : Prop where
  read : e.read a = .error error
  /-- With any other status there is no delay, whatever the headers ask for. -/
  undelayed : a.status ≠ 429 →
    (∀ headers, e.read { a with headers } = .error error) ∧ ∀ delay, error ≠ .rateLimited delay
  unasked : a.status = 429 → (∀ secs, ¬ Http.AsksFor a.headers secs) → error = .rateLimited none
  /-- The product is of 64 bits, and is the delay asked for exactly if it is below `2 ^ 64`. -/
  delayed : a.status = 429 → ∀ secs, Http.AsksFor a.headers secs →
    error = .rateLimited (some (1000 * secs % 2 ^ 64)) ∧
      (error = .rateLimited (some (1000 * secs)) ↔ 1000 * secs < 2 ^ 64)

/-- **What an answer that is not a success comes to.** Only with the status 429 does it matter what
the headers ask for, and then the delay is a thousand times that in 64 bits. -/
theorem refusal_delay (e : Endpoint) (a : Http.Answer)
    (refused : Http.isSuccess a.status = false) : ∃ error, Refusal e a error := by
  refine ⟨statusError a, read_of_refused refused, fun other => ⟨fun headers => ?_, ?_⟩,
    fun limited unasked => ?_, fun limited secs asked => ?_⟩
  · rw [read_of_refused (a := { a with headers }) refused, statusError_headers other]
  · rintro delay delayed
    exact other (status_of_rateLimited delayed)
  · rw [statusError_of_eq limited, Http.retryAfter?_eq_none_iff.mpr unasked, Option.map_none]
  · rw [statusError_of_eq limited, Http.retryAfter?_eq_some_iff.mpr asked, Option.map_some,
      ← milliseconds_eq_iff, ← milliseconds_eq]
    simp

/-- An answer that asks to be left alone for a while. -/
def busyAnswer (retryAfter : String) : Http.Answer where
  status := 429
  headers := [("Retry-After", retryAfter)]
  body := "slow down"

theorem asksFor_busyAnswer {retryAfter : String} {secs : Nat}
    (visible : ∀ c ∈ retryAfter.toList, Http.IsVisible c)
    (numeral : Text.NumeralBelow (2 ^ 64) (Text.trim retryAfter) secs) :
    Http.AsksFor (busyAnswer retryAfter).headers secs :=
  ⟨[], "Retry-After", retryAfter, [], rfl, by decide +kernel, nofun, visible, numeral⟩

/-- Blanks and a plus sign do no harm. -/
theorem refusal_delay_seven :
    Http.isSuccess (busyAnswer " +7 ").status = false ∧
      Http.AsksFor (busyAnswer " +7 ").headers 7 ∧
      ∃ error, Refusal (chatOf .openai) (busyAnswer " +7 ") error := by
  have numeral : Text.NumeralBelow (2 ^ 64) (Text.trim " +7 ") 7 :=
    ⟨['7'], .inr (by decide +kernel), by simp, List.all_eq_true.mp (by decide), by decide, by simp⟩
  exact ⟨by decide, asksFor_busyAnswer (by simp [Http.IsVisible]) numeral,
    refusal_delay (chatOf .openai) (busyAnswer " +7 ") (by decide)⟩

/-- **A long delay is passed on as a short one.** The server asks for half a billion years, and the
product is taken without regard to its size. -/
theorem long_delay_shortened :
    Http.isSuccess (busyAnswer "18446744073709552").status = false ∧
      Http.AsksFor (busyAnswer "18446744073709552").headers 18446744073709552 ∧
      2 ^ 64 ≤ 1000 * 18446744073709552 ∧
      (chatOf .openai).read (busyAnswer "18446744073709552") =
        .error (.rateLimited (some 384)) := by
  have numeral : Text.NumeralBelow (2 ^ 64) (Text.trim "18446744073709552") 18446744073709552 :=
    ⟨"18446744073709552".toList, .inl (by decide +kernel), by simp,
      List.all_eq_true.mp (by decide +kernel), by decide +kernel, by simp⟩
  have asked := asksFor_busyAnswer (by simp [Http.IsVisible]) numeral
  have product : 1000 * 18446744073709552 % 2 ^ 64 = 384 := by simp
  refine ⟨by decide, asked, by simp, ?_⟩
  rw [read_of_refused (by decide), statusError_of_eq rfl, Http.retryAfter?_eq_some_iff.mpr asked,
    Option.map_some, milliseconds_eq, product]

end Model.Endpoint
end Runbook
