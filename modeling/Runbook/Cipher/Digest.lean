/-!
# The digest BLAKE2b

A digest of up to sixty-four bytes of any text. The text is taken in blocks of sixteen words of
sixty-four bits, least significant byte first. Each block is compressed into a state of eight
words, in twelve rounds of eight additions, exchanges and rotations.
-/

set_option autoImplicit false

namespace Runbook.Cipher.Digest

abbrev Words := Array UInt64

@[inline] def rotateRight (x n : UInt64) : UInt64 := (x >>> n) ||| (x <<< (64 - n))

/-- The fractional parts of the square roots of the first eight primes. -/
def start : Words :=
  #[0x6a09e667f3bcc908, 0xbb67ae8584caa73b, 0x3c6ef372fe94f82b, 0xa54ff53a5f1d36f1,
    0x510e527fade682d1, 0x9b05688c2b3e6c1f, 0x1f83d9abfb41bd6b, 0x5be0cd19137e2179]

/-- In which order a round takes the words of a block; after the tenth round from the first. -/
def orders : Array (Array Nat) :=
  #[#[0, 1, 2, 3, 4, 5, 6, 7, 8, 9, 10, 11, 12, 13, 14, 15],
    #[14, 10, 4, 8, 9, 15, 13, 6, 1, 12, 0, 2, 11, 7, 5, 3],
    #[11, 8, 12, 0, 5, 2, 15, 13, 10, 14, 3, 6, 7, 1, 9, 4],
    #[7, 9, 3, 1, 13, 12, 11, 14, 2, 6, 5, 10, 4, 0, 15, 8],
    #[9, 0, 5, 7, 2, 4, 10, 15, 14, 1, 11, 12, 6, 8, 3, 13],
    #[2, 12, 6, 10, 0, 11, 8, 3, 4, 13, 7, 5, 15, 14, 1, 9],
    #[12, 5, 1, 15, 14, 13, 4, 10, 0, 7, 6, 3, 9, 2, 8, 11],
    #[13, 11, 7, 14, 12, 1, 3, 9, 5, 0, 15, 4, 8, 6, 2, 10],
    #[6, 15, 14, 9, 11, 3, 0, 8, 12, 2, 13, 7, 1, 4, 10, 5],
    #[10, 2, 8, 4, 7, 6, 1, 5, 15, 11, 9, 14, 3, 12, 13, 0]]

/-- The places that are mixed with each other: first the columns, then the diagonals of a square. -/
def places : List (Nat × Nat × Nat × Nat) :=
  [(0, 4, 8, 12), (1, 5, 9, 13), (2, 6, 10, 14), (3, 7, 11, 15),
    (0, 5, 10, 15), (1, 6, 11, 12), (2, 7, 8, 13), (3, 4, 9, 14)]

/-- Mixes two words of the block into four words of the state. -/
def mix (v : Words) (p : Nat × Nat × Nat × Nat) (x y : UInt64) : Words :=
  let (i, j, k, l) := p
  let a := v.getD i 0
  let b := v.getD j 0
  let c := v.getD k 0
  let d := v.getD l 0
  let a := a + b + x
  let d := rotateRight (d ^^^ a) 32
  let c := c + d
  let b := rotateRight (b ^^^ c) 24
  let a := a + b + y
  let d := rotateRight (d ^^^ a) 16
  let c := c + d
  let b := rotateRight (b ^^^ c) 63
  (((v.setIfInBounds i a).setIfInBounds j b).setIfInBounds k c).setIfInBounds l d

/-- A round over the words of a block. -/
def round (block : Words) (v : Words) (r : Nat) : Words :=
  let order := orders.getD (r % 10) #[]
  places.zipIdx.foldl
    (fun v (p, i) =>
      mix v p (block.getD (order.getD (2 * i) 0) 0) (block.getD (order.getD (2 * i + 1) 0) 0)) v

/-- Takes a block into the state, of which `count` bytes have been taken then. -/
def compress (state block : Words) (count : Nat) (last : Bool) : Words :=
  let v := (state ++ start).modify 12 (· ^^^ count.toUInt64)
  let v := if last then v.modify 14 (fun x => ~~~x) else v
  let v := (List.range 12).foldl (round block) v
  (Array.range 8).map fun i => state.getD i 0 ^^^ v.getD i 0 ^^^ v.getD (i + 8) 0

/-! ## Bytes and words -/

/-- The word of eight bytes that start at a position; missing bytes are zero. -/
def wordAt (bytes : ByteArray) (i : Nat) : UInt64 :=
  (List.range 8).foldr (fun k w => (w <<< 8) ||| (bytes.data.getD (i + k) 0).toUInt64) 0

/-- The words of a number of bytes that start at a position. -/
def wordsAt (count : Nat) (bytes : ByteArray) (i : Nat) : Words :=
  (Array.range count).map fun k => wordAt bytes (i + 8 * k)

def wordBytes (w : UInt64) : List UInt8 :=
  (List.range 8).map fun k => (w >>> (8 * k).toUInt64).toUInt8

def bytesOf (words : Words) : ByteArray :=
  ByteArray.mk (words.toList.flatMap wordBytes).toArray

/-! ## The digest -/

/-- The number of bytes of a block. -/
def blockSize : Nat := 128

/-- The digest of that many bytes. -/
def digest (size : Nat) (text : ByteArray) : ByteArray :=
  let first := start.modify 0 (· ^^^ (0x01010000 ^^^ size.toUInt64))
  let whole := (text.size - 1) / blockSize
  let state := (List.range whole).foldl
    (fun s i => compress s (wordsAt 16 text (blockSize * i)) (blockSize * (i + 1)) false) first
  let state := compress state (wordsAt 16 text (blockSize * whole)) text.size true
  (bytesOf state).extract 0 size

end Runbook.Cipher.Digest
