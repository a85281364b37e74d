/-!
# Bytes as text

In hexadecimal digits every byte is two digits, the upper half first. In base 64 three bytes are
four of sixty-four digits, and what is missing at the end is filled with `=`. Every list of bytes
has one form in base 64, and reading accepts no other: the fill has to be there and the bits that
it leaves over have to be zero.
-/

set_option autoImplicit false

/-! ## Hexadecimal digits -/

namespace Runbook.Hex

/-- The number of a digit; anything else counts as zero. -/
def value (c : Char) : Nat :=
  if '0' ≤ c ∧ c ≤ '9' then c.toNat - 48
  else if 'a' ≤ c ∧ c ≤ 'f' then c.toNat - 87
  else if 'A' ≤ c ∧ c ≤ 'F' then c.toNat - 55
  else 0

def encodeBytes : List UInt8 → List Char
  | [] => []
  | b :: bs => Nat.digitChar (b.toNat / 16) :: Nat.digitChar (b.toNat % 16) :: encodeBytes bs

/-- The bytes of pairs of digits; a single digit at the end is dropped. -/
def decodeChars : List Char → List UInt8
  | a :: b :: rest => (value a * 16 + value b).toUInt8 :: decodeChars rest
  | _ => []

def encode (bytes : ByteArray) : String := String.ofList (encodeBytes bytes.toList)

def decode (s : String) : ByteArray := ByteArray.mk (decodeChars s.toList).toArray

end Runbook.Hex

/-! ## Base 64 -/

namespace Runbook.Base64

/-- The digit of a number below 64. -/
def digit (n : Nat) : Char :=
  if n < 26 then Char.ofNat (65 + n)
  else if n < 52 then Char.ofNat (97 + (n - 26))
  else if n < 62 then Char.ofNat (48 + (n - 52))
  else if n = 62 then '+'
  else '/'

/-- The number of a digit. -/
def value? (c : Char) : Option Nat :=
  if 'A' ≤ c ∧ c ≤ 'Z' then some (c.toNat - 65)
  else if 'a' ≤ c ∧ c ≤ 'z' then some (c.toNat - 97 + 26)
  else if '0' ≤ c ∧ c ≤ '9' then some (c.toNat - 48 + 52)
  else if c = '+' then some 62
  else if c = '/' then some 63
  else none

def encodeBytes : List UInt8 → List Char
  | [] => []
  | [a] => [digit (a.toNat / 4), digit (a.toNat % 4 * 16), '=', '=']
  | [a, b] =>
      [digit (a.toNat / 4), digit (a.toNat % 4 * 16 + b.toNat / 16), digit (b.toNat % 16 * 4), '=']
  | a :: b :: c :: rest =>
      digit (a.toNat / 4) :: digit (a.toNat % 4 * 16 + b.toNat / 16) ::
        digit (b.toNat % 16 * 4 + c.toNat / 64) :: digit (c.toNat % 64) :: encodeBytes rest

/-- The bytes of the last four digits, which may be filled. -/
def decodeLast (a b c d : Char) : Option (List UInt8) := do
  let x ← value? a
  let y ← value? b
  if c = '=' then
    if d = '=' ∧ y % 16 = 0 then return [(x * 4 + y / 16).toUInt8] else none
  else
    let z ← value? c
    if d = '=' then
      if z % 4 = 0 then return [(x * 4 + y / 16).toUInt8, (y % 16 * 16 + z / 4).toUInt8] else none
    else
      let w ← value? d
      return [(x * 4 + y / 16).toUInt8, (y % 16 * 16 + z / 4).toUInt8, (z % 4 * 64 + w).toUInt8]

def decodeChars : List Char → Option (List UInt8)
  | [] => some []
  | [a, b, c, d] => decodeLast a b c d
  | a :: b :: c :: d :: rest => do
      let x ← value? a
      let y ← value? b
      let z ← value? c
      let w ← value? d
      let bytes ← decodeChars rest
      return (x * 4 + y / 16).toUInt8 :: (y % 16 * 16 + z / 4).toUInt8 ::
        (z % 4 * 64 + w).toUInt8 :: bytes
  | _ => none

def encode (bytes : ByteArray) : String := String.ofList (encodeBytes bytes.toList)

def decode? (s : String) : Option ByteArray :=
  (decodeChars s.toList).map fun bytes => ByteArray.mk bytes.toArray

end Runbook.Base64
