/-!
# Reading numerals

Natural numbers of at most 64 bits are read from ASCII digits with an optional plus sign in front:
no blanks, no underscores, no minus sign. A longer number is refused rather than wrapped.
-/

set_option autoImplicit false

namespace Runbook.Text

/-- An ASCII decimal digit. -/
def isDigit (c : Char) : Bool := '0' ≤ c && c ≤ '9'

/-- The value of a list of digits, most significant first. -/
def digitsValue (cs : List Char) : Nat := cs.foldl (fun n c => n * 10 + (c.toNat - 48)) 0

/-- The value of a non-empty list of digits that is below the bound. -/
def boundedDigits? (bound : Nat) (cs : List Char) : Option Nat :=
  if cs.isEmpty || !cs.all isDigit then none
  else
    let n := digitsValue cs
    if n < bound then some n else none

/-- A numeral below the bound, with an optional plus sign. -/
def bounded? (bound : Nat) (s : String) : Option Nat :=
  match s.toList with
  | '+' :: cs => boundedDigits? bound cs
  | cs => boundedDigits? bound cs

/-- A numeral of at most 64 bits. -/
def word? (s : String) : Option Nat := bounded? (Nat.pow 2 64) s

/-- The digits of a number, padded with zeros in front to the given width. -/
def padded (width n : Nat) : String :=
  let ds := Nat.toDigits 10 n
  String.ofList (List.replicate (width - ds.length) '0' ++ ds)

end Runbook.Text
