/-!
# The block cipher AES-256

A block of sixteen bytes is four columns, each a word whose most significant byte is on top. A
round substitutes every byte, shifts the rows against each other, mixes each column, and adds a
round key; the last round does not mix. Bytes are polynomials over two elements modulo
`x⁸ + x⁴ + x³ + x + 1`, and the substitution is inversion in that field followed by an affine map.
-/

set_option autoImplicit false

namespace Runbook.Cipher

/-! ## Bytes as field elements -/

/-- Times `x`. -/
def double (b : UInt8) : UInt8 :=
  if b &&& 0x80 = 0 then b <<< 1 else (b <<< 1) ^^^ 0x1b

/-- The product in the field, over that many bits of the second factor. -/
def timesBits : (bits : Nat) → UInt8 → UInt8 → UInt8
  | 0, _, _ => 0
  | n + 1, a, b => (if b &&& 1 = 1 then a else 0) ^^^ timesBits n (double a) (b >>> 1)

/-- The product in the field. -/
def times (a b : UInt8) : UInt8 := timesBits 8 a b

def power (b : UInt8) : Nat → UInt8
  | 0 => 1
  | n + 1 => times b (power b n)

/-- The inverse, and zero for zero. -/
def inverse (b : UInt8) : UInt8 := power b 254

def rotateByte (b n : UInt8) : UInt8 := (b <<< n) ||| (b >>> (8 - n))

def affine (b : UInt8) : UInt8 :=
  b ^^^ rotateByte b 1 ^^^ rotateByte b 2 ^^^ rotateByte b 3 ^^^ rotateByte b 4 ^^^ 0x63

/-- The substitutes of all bytes. -/
def substitutes : Array UInt8 := (Array.range 256).map fun n => affine (inverse n.toUInt8)

def substitute (b : UInt8) : UInt8 := substitutes.getD b.toNat 0

/-! ## Columns -/

/-- A column of four bytes. -/
abbrev Column := UInt32

def columnOf (b0 b1 b2 b3 : UInt8) : Column :=
  (b0.toUInt32 <<< 24) ||| (b1.toUInt32 <<< 16) ||| (b2.toUInt32 <<< 8) ||| b3.toUInt32

def top (c : Column) : UInt8 := (c >>> 24).toUInt8

def upper (c : Column) : UInt8 := (c >>> 16).toUInt8

def lower (c : Column) : UInt8 := (c >>> 8).toUInt8

def bottom (c : Column) : UInt8 := c.toUInt8

def substituteColumn (c : Column) : Column :=
  columnOf (substitute (top c)) (substitute (upper c)) (substitute (lower c)) (substitute (bottom c))

/-- The column turned up by one byte. -/
def turned (c : Column) : Column := (c <<< 8) ||| (c >>> 24)

/-- Multiplies a column by the fixed polynomial `3x³ + x² + x + 2`. -/
def mixColumn (c : Column) : Column :=
  let b0 := top c
  let b1 := upper c
  let b2 := lower c
  let b3 := bottom c
  let all := b0 ^^^ b1 ^^^ b2 ^^^ b3
  columnOf (b0 ^^^ all ^^^ double (b0 ^^^ b1)) (b1 ^^^ all ^^^ double (b1 ^^^ b2))
    (b2 ^^^ all ^^^ double (b2 ^^^ b3)) (b3 ^^^ all ^^^ double (b3 ^^^ b0))

/-! ## Blocks -/

structure Block where
  c0 : Column
  c1 : Column
  c2 : Column
  c3 : Column
  deriving DecidableEq, Repr, Inhabited

namespace Block

def zero : Block := ⟨0, 0, 0, 0⟩

def add (a b : Block) : Block := ⟨a.c0 ^^^ b.c0, a.c1 ^^^ b.c1, a.c2 ^^^ b.c2, a.c3 ^^^ b.c3⟩

/-- The column of four bytes that start at a position; missing bytes are zero. -/
def columnAt (bytes : ByteArray) (i : Nat) : Column :=
  let at_ (k : Nat) : UInt8 := bytes.data.getD (i + k) 0
  columnOf (at_ 0) (at_ 1) (at_ 2) (at_ 3)

/-- The block of sixteen bytes that start at a position; missing bytes are zero. -/
def ofBytes (bytes : ByteArray) (i : Nat) : Block :=
  ⟨columnAt bytes i, columnAt bytes (i + 4), columnAt bytes (i + 8), columnAt bytes (i + 12)⟩

def toBytes (b : Block) : List UInt8 :=
  [b.c0, b.c1, b.c2, b.c3].flatMap fun c => [top c, upper c, lower c, bottom c]

/-- Substitutes every byte and shifts row `k` by `k` columns. -/
def scramble (b : Block) : Block :=
  let from_ (a b c d : Column) : Column :=
    columnOf (substitute (top a)) (substitute (upper b)) (substitute (lower c))
      (substitute (bottom d))
  ⟨from_ b.c0 b.c1 b.c2 b.c3, from_ b.c1 b.c2 b.c3 b.c0, from_ b.c2 b.c3 b.c0 b.c1,
    from_ b.c3 b.c0 b.c1 b.c2⟩

def mix (b : Block) : Block := ⟨mixColumn b.c0, mixColumn b.c1, mixColumn b.c2, mixColumn b.c3⟩

end Block

/-! ## Keys -/

/-- The constant of a round: a power of `x`. -/
def roundConstant (n : Nat) : Column := columnOf (power 2 (n - 1)) 0 0 0

/-- The next column of an expanded key of eight columns. -/
def nextColumn (cs : Array Column) : Column :=
  let i := cs.size
  let last := cs.getD (i - 1) 0
  let t :=
    if i % 8 = 0 then substituteColumn (turned last) ^^^ roundConstant (i / 8)
    else if i % 8 = 4 then substituteColumn last
    else last
  cs.getD (i - 8) 0 ^^^ t

/-- The columns of all fifteen round keys. -/
def keyColumns (key : ByteArray) : Array Column :=
  (List.range 52).foldl (fun cs _ => cs.push (nextColumn cs))
    ((Array.range 8).map fun i => Block.columnAt key (4 * i))

/-- The fifteen round keys of a key of thirty-two bytes. -/
def roundKeys (key : ByteArray) : List Block :=
  let cs := keyColumns key
  (List.range 15).map fun i =>
    ⟨cs.getD (4 * i) 0, cs.getD (4 * i + 1) 0, cs.getD (4 * i + 2) 0, cs.getD (4 * i + 3) 0⟩

/-- The rounds after the first key has been added. -/
def rounds (b : Block) : List Block → Block
  | [] => b
  | [k] => b.scramble.add k
  | k :: ks => rounds (b.scramble.mix.add k) ks

/-- Encrypts a block. -/
def encryptBlock : (keys : List Block) → Block → Block
  | [], b => b
  | k :: ks, b => rounds (b.add k) ks

end Runbook.Cipher
