import Runbook.Json.Decode
import Runbook.Text.Blank
import Runbook.Text.Numeral

/-!
# Instants

An instant is a number of nanoseconds since the start of 1970 in UTC. Its text is the proleptic
Gregorian date and time with a `Z`, and a fraction of no, three, six or nine digits, as few as are
needed; or always six, where texts of equal width are wanted. Years from 0 to 9999 have four
digits; others have a sign.

A date is turned into a number of days, and back, by counting in eras of four hundred years that
begin in March, so that the leap day is the last day of a year.
-/

set_option autoImplicit false

namespace Runbook

/-- Nanoseconds since 1970-01-01T00:00:00Z. -/
structure Instant where
  nanos : Int
  deriving DecidableEq, Repr, Inhabited

namespace Instant

instance : LT Instant := ⟨fun a b => a.nanos < b.nanos⟩
instance : LE Instant := ⟨fun a b => a.nanos ≤ b.nanos⟩
instance (a b : Instant) : Decidable (a < b) := inferInstanceAs (Decidable (a.nanos < b.nanos))
instance (a b : Instant) : Decidable (a ≤ b) := inferInstanceAs (Decidable (a.nanos ≤ b.nanos))

/-! ## Dates -/

/-- The number of days from 1970-01-01 to a date. -/
def daysOfDate (year : Int) (month day : Nat) : Int :=
  let y := if month ≤ 2 then year - 1 else year
  let era := Int.fdiv y 400
  let yoe := y - era * 400
  let mp : Int := ((month + 9) % 12 : Nat)
  let doy := Int.fdiv (153 * mp + 2) 5 + day - 1
  let doe := yoe * 365 + Int.fdiv yoe 4 - Int.fdiv yoe 100 + doy
  era * 146097 + doe - 719468

/-- The date a number of days after 1970-01-01. -/
def dateOfDays (days : Int) : Int × Nat × Nat :=
  let z := days + 719468
  let era := Int.fdiv z 146097
  let doe := z - era * 146097
  let yoe := Int.fdiv (doe - Int.fdiv doe 1460 + Int.fdiv doe 36524 - Int.fdiv doe 146096) 365
  let y := yoe + era * 400
  let doy := doe - (365 * yoe + Int.fdiv yoe 4 - Int.fdiv yoe 100)
  let mp := Int.fdiv (5 * doy + 2) 153
  let day := doy - Int.fdiv (153 * mp + 2) 5 + 1
  let month := if mp < 10 then mp + 3 else mp - 9
  (if month ≤ 2 then y + 1 else y, month.toNat, day.toNat)

def isLeap (year : Int) : Bool := year % 4 == 0 && (year % 100 != 0 || year % 400 == 0)

def daysInMonth (year : Int) (month : Nat) : Nat :=
  if month = 2 then (if isLeap year then 29 else 28)
  else if month = 4 || month = 6 || month = 9 || month = 11 then 30
  else 31

/-- The earliest instant that has a text: the start of the year -262143. -/
def earliest : Instant := ⟨daysOfDate (-262143) 1 1 * 86400 * 1000000000⟩

/-- The latest instant that has a text: the end of the year 262142. -/
def latest : Instant := ⟨daysOfDate 262143 1 1 * 86400 * 1000000000 - 1⟩

/-- The instant that many nanoseconds earlier, if it has a text. -/
def back? (span : Nat) (t : Instant) : Option Instant :=
  let before : Instant := ⟨t.nanos - span⟩
  if earliest ≤ before ∧ before ≤ latest then some before else none

/-! ## Texts -/

/-- Four digits, or a sign and at least four. -/
def yearText (year : Int) : String :=
  if 0 ≤ year ∧ year ≤ 9999 then Text.padded 4 year.toNat
  else (if year < 0 then "-" else "+") ++ Text.padded 4 year.natAbs

/-- How the fraction of a second is written. -/
inductive Fraction where
  /-- No digits, or three, six or nine of them. -/
  | shortest
  /-- Always six digits; finer parts are dropped. -/
  | micros
  deriving DecidableEq, Repr

def fractionText : Fraction → Nat → String
  | .micros, n => "." ++ Text.padded 6 (n / 1000)
  | .shortest, n =>
      if n = 0 then ""
      else if n % 1000000 = 0 then "." ++ Text.padded 3 (n / 1000000)
      else if n % 1000 = 0 then "." ++ Text.padded 6 (n / 1000)
      else "." ++ Text.padded 9 n

/-- The instant as a calendar date and a time of day: year, month, day, and the nanoseconds since
midnight. -/
def calendar (t : Instant) : Int × Nat × Nat × Nat :=
  let dayNanos : Int := 86400 * 1000000000
  let days := Int.fdiv t.nanos dayNanos
  let (y, m, d) := dateOfDays days
  (y, m, d, (t.nanos - days * dayNanos).toNat)

/-- Date, a separator, and the time of day to the second. -/
def dateTimeText (sep : String) (t : Instant) : String :=
  let (y, m, d, n) := t.calendar
  let s := n / 1000000000
  yearText y ++ "-" ++ Text.padded 2 m ++ "-" ++ Text.padded 2 d ++ sep ++
    Text.padded 2 (s / 3600) ++ ":" ++ Text.padded 2 (s / 60 % 60) ++ ":" ++ Text.padded 2 (s % 60)

/-- The text of an instant, with the mark of UTC given. -/
def textWith (utc : String) (f : Fraction) (t : Instant) : String :=
  let (_, _, _, n) := t.calendar
  t.dateTimeText "T" ++ fractionText f (n % 1000000000) ++ utc

/-- The usual text: shortest fraction and `Z`. -/
def text (t : Instant) : String := t.textWith "Z" .shortest

/-- The text with the offset written out as `+00:00`. -/
def offsetText (t : Instant) : String := t.textWith "+00:00" .shortest

/-! ## Reading -/

/-- One digit or more, at most as many as the width allows. -/
def digits? (width : Option Nat) (cs : List Char) : Option (Nat × List Char) :=
  let ds := cs.takeWhile Text.isDigit
  let ds := match width with
    | some w => ds.take w
    | none => ds
  if ds.isEmpty then none else some (Text.digitsValue ds, cs.drop ds.length)

/-- A number of at most two digits, after blanks. -/
def part? (cs : List Char) : Option (Nat × List Char) := digits? (some 2) (Text.dropBlanks cs)

/-- A year of at most four digits, or of any number of them behind a sign, after blanks. -/
def year? (cs : List Char) : Option (Int × List Char) :=
  match Text.dropBlanks cs with
  | '-' :: rest => (digits? none rest).map fun (n, rest) => (-(n : Int), rest)
  | '+' :: rest => (digits? none rest).map fun (n, rest) => ((n : Int), rest)
  | cs => (digits? (some 4) cs).map fun (n, rest) => ((n : Int), rest)

/-- What follows a fixed character, which may stand after blanks. -/
def mark? (c : Char) (cs : List Char) : Option (List Char) :=
  match Text.dropBlanks cs with
  | x :: rest => if x = c then some rest else none
  | [] => none

/-- What follows the character between date and time. -/
def separator? : List Char → Option (List Char)
  | c :: rest => if c = 'T' || c = 't' || c = ' ' then some rest else none
  | [] => none

/-- The fraction of a second in nanoseconds; digits beyond the ninth are dropped. -/
def fraction? (cs : List Char) : Option (Nat × List Char) :=
  match cs with
  | '.' :: rest =>
      let ds := rest.takeWhile Text.isDigit
      if ds.isEmpty then none
      else
        let nine := (ds ++ List.replicate 9 '0').take 9
        some (Text.digitsValue nine, rest.dropWhile Text.isDigit)
  | _ => some (0, cs)

/-- Exactly two digits. -/
def pair? : List Char → Option (Nat × List Char)
  | a :: b :: rest =>
      if Text.isDigit a && Text.isDigit b then some (Text.digitsValue [a, b], rest) else none
  | _ => none

/-- The sign of an offset: 1 or -1. A minus may also be the typographic one. -/
def sign? (c : Char) : Option Int :=
  if c = '+' then some 1 else if c = '-' || c = '−' then some (-1) else none

/-- The mark of UTC, or an offset from it in seconds: hours and minutes, with colons or blanks
between them. An offset is less than a day. -/
def offset? (cs : List Char) : Option (Int × List Char) :=
  match cs with
  | 'Z' :: rest => some (0, rest)
  | 'z' :: rest => some (0, rest)
  | cs =>
      match (cs.take 3).map Char.toUpper, cs with
      | ['U', 'T', 'C'], cs => some (0, cs.drop 3)
      | _, [] => none
      | _, c :: rest => do
          let s ← sign? c
          let (h, rest) ← pair? rest
          let (m, rest) ← pair? (rest.dropWhile fun c => c = ':' || isBlank c)
          if h < 24 && m < 60 then some (s * ((h * 3600 + m * 60 : Nat) : Int), rest) else none

/-- There are dates in this year. -/
def hasDates (year : Int) : Bool := -262143 ≤ year && year ≤ 262142

/-- Reads a date, a `T` or a blank, a time of day with an optional fraction, and an offset. Numbers
may have fewer digits than usual, and blanks may stand between them. -/
def parse? (s : String) : Option Instant := do
  let (year, cs) ← year? s.toList
  let (month, cs) ← part? (← mark? '-' cs)
  let (day, cs) ← part? (← mark? '-' cs)
  let (h, cs) ← part? (← separator? cs)
  let (m, cs) ← part? (← mark? ':' cs)
  let (sec, cs) ← part? (← mark? ':' cs)
  let (frac, cs) ← fraction? cs
  let (off, cs) ← offset? (Text.dropBlanks cs)
  if (Text.dropBlanks cs).isEmpty && hasDates year && 1 ≤ month && month ≤ 12 && 1 ≤ day &&
      day ≤ daysInMonth year month && h < 24 && m < 60 && sec < 60 then
    let time : Int := (h * 3600 + m * 60 + sec : Nat)
    some ⟨(daysOfDate year month day * 86400 + time - off) * 1000000000 + frac⟩
  else none

/-- Reads an instant whose year has four digits and no sign, as RFC 3339 wants it. -/
def parseFourDigits? (s : String) : Option Instant :=
  if (s.toList.take 4).all Text.isDigit then parse? s else none

/-- Reads an instant from a JSON text. -/
def decode : Decoder Instant := fun v =>
  match Decode.text v with
  | .error e => .error e
  | .ok s =>
      match parse? s with
      | some t => .ok t
      | none => .error (.wrongType (Decode.kindOf v) "an RFC 3339 formatted date and time string")

/-- Whole milliseconds from one instant to another, cut towards zero. -/
def millisBetween (first last : Instant) : Int := Int.tdiv (last.nanos - first.nanos) 1000000

end Instant
end Runbook
