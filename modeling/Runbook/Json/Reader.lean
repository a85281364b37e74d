import Runbook.Json.Basic

/-!
# Reading JSON texts

The grammar is JSON's own: four blank characters, no comments, no trailing commas, no leading
zeros, control characters only as escapes, and no lone surrogate. Lists and tables nest at most
127 deep. A repeated name keeps its first place and takes its last value.

A number without point or exponent is an integer when it fits 64 bits. All others are
floating-point numbers, computed from the first digits that fit an unsigned 64-bit integer and a
power of ten, with one multiplication or division for each power up to `10 ^ 308`.
-/

set_option autoImplicit false

namespace Runbook.Json.Reader

/-- Without the blanks in front. -/
def skip (cs : List Char) : List Char :=
  cs.dropWhile fun c => c = ' ' || c = '\n' || c = '\t' || c = '\r'

/-! ## Numbers -/

/-- The value of a decimal digit. -/
def digit? (c : Char) : Option Nat :=
  if '0' ≤ c ∧ c ≤ '9' then some (c.toNat - 48) else none

def maxWord : Nat := Nat.pow 2 64 - 1

/-- The powers of ten that a product or quotient may use in one step. -/
def tenPow (n : Nat) : Float := Float.ofScientific 1 false n

/-- Scales by a power of ten; `none` when the result is too large. -/
def scale : (fuel : Nat) → Float → Int → Option Float
  | 0, _, _ => none
  | fuel + 1, f, e =>
      if e.natAbs ≤ 308 then
        if e ≥ 0 then
          let r := f * tenPow e.toNat
          if r.isFinite then some r else none
        else some (f / tenPow e.natAbs)
      else if f == 0.0 then some f
      else if e ≥ 0 then none
      else scale fuel (f / tenPow 308) (e + 308)

/-- A floating-point number from its sign, its leading digits and its power of ten. -/
def floatOf (positive : Bool) (significand : Nat) (e : Int) : Option Float :=
  (scale (e.natAbs / 308 + 2) significand.toUInt64.toFloat e).map fun f =>
    if positive then f else -f

/-- Reads an exponent whose mark has been read, and completes the number. -/
def exponent (positive : Bool) (significand : Nat) (start : Int) (cs : List Char) :
    Option (Number × List Char) :=
  let (up, cs) :=
    match cs with
    | '+' :: r => (true, r)
    | '-' :: r => (false, r)
    | r => (true, r)
  let ds := cs.takeWhile (digit? · |>.isSome)
  let rest := cs.dropWhile (digit? · |>.isSome)
  if ds.isEmpty then none
  else
    let e := ds.foldl (fun acc c => acc * 10 + (digit? c).getD 0) 0
    if e > 2147483647 then
      if significand ≠ 0 ∧ up then none
      else some (.float (if positive then 0.0 else -0.0), rest)
    else
      (floatOf positive significand (if up then start + e else start - e)).map (.float ·, rest)

/-- Completes a number after its last digit. -/
def finish (positive : Bool) (significand : Nat) (e : Int) (cs : List Char) :
    Option (Number × List Char) :=
  match cs with
  | 'e' :: r => exponent positive significand e r
  | 'E' :: r => exponent positive significand e r
  | _ => (floatOf positive significand e).map (.float ·, cs)

/-- Reads the digits after the point; those that do not fit are passed over. -/
def fraction (positive : Bool) (significand : Nat) (e : Int) (seen : Bool) :
    List Char → Option (Number × List Char)
  | [] => if seen then finish positive significand e [] else none
  | c :: cs =>
      match digit? c with
      | none => if seen then finish positive significand e (c :: cs) else none
      | some d =>
          if significand * 10 + d > maxWord then
            finish positive significand e ((c :: cs).dropWhile (digit? · |>.isSome))
          else fraction positive (significand * 10 + d) (e - 1) true cs

/-- Reads the integer digits beyond those that fit; each is worth one power of ten. -/
def longInteger (positive : Bool) (significand : Nat) (e : Int) :
    List Char → Option (Number × List Char)
  | [] => finish positive significand e []
  | '.' :: cs => fraction positive significand e false cs
  | c :: cs =>
      match digit? c with
      | some _ => longInteger positive significand (e + 1) cs
      | none => finish positive significand e (c :: cs)

/-- Completes a number whose integer part fits a word. -/
def shortInteger (positive : Bool) (significand : Nat) (cs : List Char) :
    Option (Number × List Char) :=
  match cs with
  | '.' :: r => fraction positive significand 0 false r
  | 'e' :: r => exponent positive significand 0 r
  | 'E' :: r => exponent positive significand 0 r
  | _ =>
      if positive then some (.int significand, cs)
      else if significand = 0 then some (.float (-0.0), cs)
      else if significand ≤ Nat.pow 2 63 then some (.int (-(significand : Int)), cs)
      else some (.float (-(significand.toUInt64.toFloat)), cs)

/-- Reads the integer part from its second digit on. -/
def integer (positive : Bool) (significand : Nat) : List Char → Option (Number × List Char)
  | [] => shortInteger positive significand []
  | c :: cs =>
      match digit? c with
      | none => shortInteger positive significand (c :: cs)
      | some d =>
          if significand * 10 + d > maxWord then longInteger positive significand 0 (c :: cs)
          else integer positive (significand * 10 + d) cs

/-- Reads a number after its sign. -/
def number (positive : Bool) : List Char → Option (Number × List Char)
  | [] => none
  | c :: cs =>
      match digit? c with
      | none => none
      | some 0 =>
          match cs with
          | [] => shortInteger positive 0 []
          | c' :: _ => if (digit? c').isSome then none else shortInteger positive 0 cs
      | some d => integer positive d cs

/-! ## Texts -/

/-- The value of a hexadecimal digit. -/
def hexDigit? (c : Char) : Option Nat :=
  if '0' ≤ c ∧ c ≤ '9' then some (c.toNat - 48)
  else if 'a' ≤ c ∧ c ≤ 'f' then some (c.toNat - 87)
  else if 'A' ≤ c ∧ c ≤ 'F' then some (c.toNat - 55)
  else none

/-- Four hexadecimal digits. -/
def hex4 : List Char → Option (Nat × List Char)
  | a :: b :: c :: d :: rest => do
      let a ← hexDigit? a
      let b ← hexDigit? b
      let c ← hexDigit? c
      let d ← hexDigit? d
      pure (((a * 16 + b) * 16 + c) * 16 + d, rest)
  | _ => none

/-- The character of a `\u` escape, a pair of surrogates included. -/
def unicodeEscape (cs : List Char) : Option (Char × List Char) := do
  let (hi, rest) ← hex4 cs
  if 0xDC00 ≤ hi ∧ hi ≤ 0xDFFF then none
  else if 0xD800 ≤ hi ∧ hi ≤ 0xDBFF then
    match rest with
    | '\\' :: 'u' :: rest =>
        let (lo, rest) ← hex4 rest
        if 0xDC00 ≤ lo ∧ lo ≤ 0xDFFF then
          pure (Char.ofNat (0x10000 + (hi - 0xD800) * 0x400 + (lo - 0xDC00)), rest)
        else none
    | _ => none
  else pure (Char.ofNat hi, rest)

/-- The character that a one-letter escape stands for. -/
def letterEscape? : Char → Option Char
  | '"' => some '"'
  | '\\' => some '\\'
  | '/' => some '/'
  | 'b' => some '\x08'
  | 'f' => some '\x0c'
  | 'n' => some '\n'
  | 'r' => some '\r'
  | 't' => some '\t'
  | _ => none

/-- Reads a text after its opening quote; `acc` holds its characters so far, last first. -/
def textChars : (fuel : Nat) → (acc cs : List Char) → Option (String × List Char)
  | 0, _, _ => none
  | _, _, [] => none
  | fuel + 1, acc, c :: cs =>
      if c = '"' then some (String.ofList acc.reverse, cs)
      else if c = '\\' then
        match cs with
        | 'u' :: rest =>
            match unicodeEscape rest with
            | some (x, rest) => textChars fuel (x :: acc) rest
            | none => none
        | l :: rest =>
            match letterEscape? l with
            | some x => textChars fuel (x :: acc) rest
            | none => none
        | [] => none
      else if c.toNat < 0x20 then none
      else textChars fuel (c :: acc) cs

/-- Reads a text after its opening quote. -/
def text (cs : List Char) : Option (String × List Char) := textChars (cs.length + 1) [] cs

/-! ## Values -/

/-- Reads list items up to the closing bracket. -/
def items (value : List Char → Option (Json × List Char)) :
    (fuel : Nat) → (acc : List Json) → List Char → Option (Json × List Char)
  | 0, _, _ => none
  | fuel + 1, acc, cs =>
      match value cs with
      | none => none
      | some (v, rest) =>
          match skip rest with
          | ',' :: rest => items value fuel (v :: acc) rest
          | ']' :: rest => some (.arr (v :: acc).reverse, rest)
          | _ => none

/-- Reads table entries up to the closing brace. -/
def entries (value : List Char → Option (Json × List Char)) :
    (fuel : Nat) → (acc : List (String × Json)) → List Char → Option (Json × List Char)
  | 0, _, _ => none
  | fuel + 1, acc, cs =>
      match skip cs with
      | '"' :: cs =>
          match text cs with
          | none => none
          | some (k, rest) =>
              match skip rest with
              | ':' :: rest =>
                  match value rest with
                  | none => none
                  | some (v, rest) =>
                      match skip rest with
                      | ',' :: rest => entries value fuel ((k, v) :: acc) rest
                      | '\x7d' :: rest =>
                          some (.obj (Fields.ofWrites ((k, v) :: acc).reverse), rest)
                      | _ => none
              | _ => none
      | _ => none

/-- Takes a fixed word. -/
def word (w : List Char) (v : Json) (cs : List Char) : Option (Json × List Char) :=
  if w.isPrefixOf cs then some (v, cs.drop w.length) else none

/-- Reads a value; lists and tables may nest `depth - 1` deep. -/
def value : (depth : Nat) → List Char → Option (Json × List Char)
  | 0, _ => none
  | depth + 1, cs =>
      match skip cs with
      | 'n' :: rest => word "ull".toList .null rest
      | 't' :: rest => word "rue".toList (.bool true) rest
      | 'f' :: rest => word "alse".toList (.bool false) rest
      | '"' :: rest => (text rest).map fun (s, r) => (.str s, r)
      | '[' :: rest =>
          if depth = 0 then none
          else
            match skip rest with
            | ']' :: rest => some (.arr [], rest)
            | _ => items (value depth) (rest.length + 1) [] rest
      | '\x7b' :: rest =>
          if depth = 0 then none
          else
            match skip rest with
            | '\x7d' :: rest => some (.obj [], rest)
            | _ => entries (value depth) (rest.length + 1) [] rest
      | '-' :: rest => (number false rest).map fun (n, r) => (.num n, r)
      | cs => (number true cs).map fun (n, r) => (.num n, r)

end Reader

/-- Reads a whole text as one value. -/
def parse? (s : String) : Option Json :=
  match Reader.value 128 s.toList with
  | some (v, rest) => if (Reader.skip rest).isEmpty then some v else none
  | none => none

end Runbook.Json
