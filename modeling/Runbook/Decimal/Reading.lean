import Runbook.Text.Numeral

/-!
# Reading decimals

A decimal is an optional sign, digits with at most one point among them, and an optional exponent.
At least one digit stands before the exponent; a point may stand first or last. The value is the
nearest floating-point number, ties to even.
-/

set_option autoImplicit false

namespace Runbook.Decimal

/-- The number `digits * 10 ^ e`, rounded to the nearest floating-point number. Exponents far
outside the range are decided without computing the power. -/
def rounded (digits : Nat) (e : Int) : Float :=
  if digits = 0 then 0.0
  else
    let magnitude : Int := (Nat.toDigits 10 digits).length + e
    if magnitude > 310 then 1.0 / 0.0
    else if magnitude < -330 then 0.0
    else Float.ofScientific digits (e < 0) e.natAbs

/-- Digits of an exponent with an optional sign. -/
def exponent? : List Char → Option Int
  | '+' :: cs => natural? cs
  | '-' :: cs => (natural? cs).map fun n => -n
  | cs => natural? cs
where
  natural? (cs : List Char) : Option Int :=
    if cs.isEmpty || !cs.all Text.isDigit then none else some (Text.digitsValue cs)

/-- A decimal without a sign. -/
def unsigned? (cs : List Char) : Option Float :=
  let whole := cs.takeWhile Text.isDigit
  let rest := cs.dropWhile Text.isDigit
  let (fraction, rest) :=
    match rest with
    | '.' :: r => (r.takeWhile Text.isDigit, r.dropWhile Text.isDigit)
    | r => ([], r)
  if whole.isEmpty && fraction.isEmpty then none
  else
    let digits := Text.digitsValue (whole ++ fraction)
    let shift : Int := fraction.length
    match rest with
    | [] => some (rounded digits (-shift))
    | c :: r =>
        if c = 'e' || c = 'E' then (exponent? r).map fun e => rounded digits (e - shift) else none

/-- The value of a decimal; too large a decimal is infinite. -/
def read? : List Char → Option Float
  | '+' :: cs => unsigned? cs
  | '-' :: cs => (unsigned? cs).map fun f => -f
  | cs => unsigned? cs

end Runbook.Decimal
