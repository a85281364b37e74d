/-!
# The fewest digits that identify a binary number

A finite binary floating-point number stands for all reals that round to it, an interval around
it. Its text is the shortest decimal inside that interval; of two equally short ones, the nearer,
and on an exact tie the one with an even last digit. Everything here is exact arithmetic on
natural numbers: a number is `m * 2 ^ q`, a decimal is `digits * 10 ^ exp`, and comparisons
multiply out.

The search looks at the grids of one, two, … digits in turn. On each grid only the two neighbours
of the value can lie in the interval, so testing those two is enough.
-/

set_option autoImplicit false

namespace Runbook.Decimal

/-- A positive binary number `m * 2 ^ q`, with the spacing below it. -/
structure Binary where
  m : Nat
  q : Int
  /-- The number below is only half as far away as the number above. -/
  narrowBelow : Bool

/-- The magnitude stored in the bits of a finite 64-bit number; zero has `m = 0`. -/
def Binary.ofBits64 (b : UInt64) : Binary :=
  let e := ((b >>> 52) &&& 0x7FF).toNat
  let f := (b &&& 0xFFFFFFFFFFFFF).toNat
  if e == 0 then ⟨f, -1074, false⟩ else ⟨Nat.pow 2 52 + f, (e : Int) - 1075, f == 0 && e > 1⟩

/-- The magnitude stored in the bits of a finite 32-bit number; zero has `m = 0`. -/
def Binary.ofBits32 (b : UInt32) : Binary :=
  let e := ((b >>> 23) &&& 0xFF).toNat
  let f := (b &&& 0x7FFFFF).toNat
  if e == 0 then ⟨f, -149, false⟩ else ⟨Nat.pow 2 23 + f, (e : Int) - 150, f == 0 && e > 1⟩

/-- The decimal `digits * 10 ^ exp`. -/
structure Scaled where
  digits : Nat
  exp : Int
  deriving DecidableEq, Repr

/-- Compares `a * 10 ^ i` with `n * 2 ^ j`. -/
def compareScaled (a : Nat) (i : Int) (n : Nat) (j : Int) : Ordering :=
  compare (a * Nat.pow 10 i.toNat * Nat.pow 2 (-j).toNat)
    (n * Nat.pow 2 j.toNat * Nat.pow 10 (-i).toNat)

/-- The decimal lies among the reals that round to `x`, to nearest with ties to even. -/
def Binary.readsBack (x : Binary) (d : Scaled) : Bool :=
  let lo := if x.narrowBelow then 4 * x.m - 1 else 4 * x.m - 2
  let hi := 4 * x.m + 2
  let closed := x.m % 2 == 0
  let below := compareScaled d.digits d.exp lo (x.q - 2)
  let above := compareScaled d.digits d.exp hi (x.q - 2)
  (below == .gt || (closed && below == .eq)) && (above == .lt || (closed && above == .eq))

/-- The least `k` from `start` on, within `fuel` steps, with `x < 10 ^ k`. -/
def Binary.scaleFrom (x : Binary) : Nat → Int → Int
  | 0, k => k
  | fuel + 1, k =>
      if compareScaled 1 k x.m x.q == .gt then k else Binary.scaleFrom x fuel (k + 1)

/-- The least `k` with `x < 10 ^ k`. The start is a lower estimate from the binary logarithm. -/
def Binary.scale (x : Binary) : Int :=
  Binary.scaleFrom x 6 (Int.fdiv ((Nat.log2 x.m : Int) * 30103 + x.q * 30103) 100000 - 1)

/-- The neighbour of `x` from below on the grid `10 ^ e`: the digits of the grid point. -/
def Binary.floorAt (x : Binary) (e : Int) : Nat :=
  (x.m * Nat.pow 2 x.q.toNat * Nat.pow 10 (-e).toNat) /
    (Nat.pow 2 (-x.q).toNat * Nat.pow 10 e.toNat)

/-- The better of the two grid points around `x` that read back, if any does. -/
def Binary.pickAt (x : Binary) (e : Int) : Option Scaled :=
  let d := x.floorAt e
  let down : Scaled := ⟨d, e⟩
  let up : Scaled := ⟨d + 1, e⟩
  match x.readsBack down, x.readsBack up with
  | false, false => none
  | true, false => some down
  | false, true => some up
  | true, true =>
      match compareScaled (2 * d + 1) e (2 * x.m) x.q with
      | .gt => some down
      | .lt => some up
      | .eq => some (if d % 2 == 0 then down else up)

/-- The exact decimal value of `m * 2 ^ q`, for when no short one reads back. -/
def Binary.exact (x : Binary) : Scaled :=
  if x.q ≥ 0 then ⟨x.m * Nat.pow 2 x.q.toNat, 0⟩ else ⟨x.m * Nat.pow 5 (-x.q).toNat, x.q⟩

/-- Moves trailing zeros of the digits into the exponent. -/
def Scaled.strip : Nat → Scaled → Scaled
  | 0, d => d
  | fuel + 1, d =>
      if d.digits != 0 && d.digits % 10 == 0 then Scaled.strip fuel ⟨d.digits / 10, d.exp + 1⟩
      else d

/-- The shortest decimal that reads back as `x`. Seventeen digits are always enough. -/
def Binary.shortest (x : Binary) : Scaled :=
  if x.m == 0 then ⟨0, 0⟩
  else
    let k := x.scale
    let found := (List.range 17).findSome? fun (n : Nat) => x.pickAt (k - (n + 1 : Int))
    Scaled.strip 400 (found.getD x.exact)

/-! ## Layout -/

/-- Where positional notation begins and ends, as exponents of the leading digit. -/
structure Layout where
  plainFrom : Int
  plainBelow : Int

/-- Digits with a point and zeros where positional notation needs them, else with an exponent. An
integral value keeps `.0`, and an exponent always has its sign. -/
def Layout.render (n : Layout) (d : Scaled) : String :=
  let ds := (Nat.toDigits 10 d.digits)
  let point := (ds.length : Int) + d.exp
  let e := point - 1
  if d.digits == 0 then "0.0"
  else if n.plainFrom ≤ e && e < n.plainBelow then
    if d.exp ≥ 0 then String.ofList (ds ++ List.replicate d.exp.toNat '0') ++ ".0"
    else if point > 0 then
      String.ofList (ds.take point.toNat) ++ "." ++ String.ofList (ds.drop point.toNat)
    else "0." ++ String.ofList (List.replicate (-point).toNat '0' ++ ds)
  else
    let frac := ds.drop 1
    let tail := if frac.isEmpty then "" else "." ++ String.ofList frac
    let expo := if e < 0 then "-" ++ toString (-e).toNat else "+" ++ toString e.toNat
    String.ofList (ds.take 1) ++ tail ++ "e" ++ expo

/-- Numbers of 64 bits are written positionally from `1e-5` up to `1e16`. -/
def wide : Layout := ⟨-5, 16⟩

/-- Numbers of 32 bits are written positionally from `1e-6` up to `1e13`. -/
def narrow : Layout := ⟨-6, 13⟩

/-- The text of a finite 64-bit number. -/
def render64 (x : Float) : String :=
  let b := x.toBits
  let body := wide.render (Binary.ofBits64 b).shortest
  if b >>> 63 == 1 then "-" ++ body else body

/-- The text of a finite 32-bit number. -/
def render32 (x : Float32) : String :=
  let b := x.toBits
  let body := narrow.render (Binary.ofBits32 b).shortest
  if b >>> 31 == 1 then "-" ++ body else body

/-- Every digit written out and no exponent: `1.5`, `3`, `1000000000000000000000`. -/
def plain64 (x : Float) : String :=
  let b := x.toBits
  let d := (Binary.ofBits64 b).shortest
  let ds := (Nat.toDigits 10 d.digits)
  let point := (ds.length : Int) + d.exp
  let body :=
    if d.digits == 0 then "0"
    else if d.exp ≥ 0 then String.ofList (ds ++ List.replicate d.exp.toNat '0')
    else if point > 0 then
      String.ofList (ds.take point.toNat) ++ "." ++ String.ofList (ds.drop point.toNat)
    else "0." ++ String.ofList (List.replicate (-point).toNat '0' ++ ds)
  if b >>> 63 == 1 then "-" ++ body else body

end Runbook.Decimal
