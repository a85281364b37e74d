import Runbook.Cipher.Digest

/-!
# Keys from passwords: Argon2id

A key is derived from a password by filling a large memory, so that guessing is expensive. The
memory is a row of blocks of 128 words. Each block is compressed from the one before it and from
one that is chosen among those already there: in the first half of the first pass by a count,
later by the contents.
-/

set_option autoImplicit false

namespace Runbook.Cipher.Password

open Digest

/-- How expensive a guess is; there is a single row of blocks. -/
structure Cost where
  /-- The number of blocks, a multiple of four. -/
  blocks : Nat
  passes : Nat

/-- Nineteen mebibytes and two passes. -/
def Cost.standard : Cost := ⟨19456, 2⟩

/-! ## Bytes -/

/-- A number as four bytes, the least significant first. -/
def fourBytes (n : Nat) : ByteArray :=
  ByteArray.mk #[n.toUInt8, (n / 256).toUInt8, (n / 65536).toUInt8, (n / 16777216).toUInt8]

/-- A text with its length in front. -/
def withLength (bytes : ByteArray) : ByteArray := fourBytes bytes.size ++ bytes

/-- The digests of digests, `count` of them, from the given one on. -/
def digestChain : (count : Nat) → ByteArray → List ByteArray
  | 0, _ => []
  | n + 1, d => d :: digestChain n (digest 64 d)

/-- A digest of any size: the front halves of a chain of digests, then the rest. -/
def longDigest (size : Nat) (text : ByteArray) : ByteArray :=
  let text := fourBytes size ++ text
  if size ≤ 64 then digest size text
  else
    let count := (size + 31) / 32 - 2
    let chain := digestChain count (digest 64 text)
    let halves := chain.foldl (fun out d => out ++ d.extract 0 32) ByteArray.empty
    halves ++ digest (size - 32 * count) (chain.getLast?.getD ByteArray.empty)

/-- The digest that everything starts from. -/
def seed (cost : Cost) (size : Nat) (password salt : ByteArray) : ByteArray :=
  let numbers := [1, size, cost.blocks, cost.passes, 0x13, 2].map fourBytes
  digest 64 (numbers.foldl (· ++ ·) ByteArray.empty ++ withLength password ++ withLength salt ++
    withLength ByteArray.empty ++ withLength ByteArray.empty)

/-! ## Compression -/

abbrev Block := Words

def blockWords : Nat := 128

def zeroBlock : Block := Array.replicate blockWords 0

/-- A sum with twice the product of the lower halves. -/
@[inline] def addTimes (a b : UInt64) : UInt64 :=
  a + b + 2 * (a &&& 0xffffffff) * (b &&& 0xffffffff)

/-- Mixes four words. -/
@[inline] def mixFour {α : Type} (a b c d : UInt64) (k : UInt64 → UInt64 → UInt64 → UInt64 → α) :
    α :=
  let a := addTimes a b
  let d := rotateRight (d ^^^ a) 32
  let c := addTimes c d
  let b := rotateRight (b ^^^ c) 24
  let a := addTimes a b
  let d := rotateRight (d ^^^ a) 16
  let c := addTimes c d
  let b := rotateRight (b ^^^ c) 63
  k a b c d

/-- Mixes sixteen words of a block, eight pairs that lie `gap` apart. -/
@[inline] def mixSixteen (first gap : Nat) (z : Block) : Block :=
  let p (k : Nat) : Nat := first + gap * (k / 2) + k % 2
  mixFour (z.getD (p 0) 0) (z.getD (p 4) 0) (z.getD (p 8) 0) (z.getD (p 12) 0) fun v0 v4 v8 v12 =>
  mixFour (z.getD (p 1) 0) (z.getD (p 5) 0) (z.getD (p 9) 0) (z.getD (p 13) 0) fun v1 v5 v9 v13 =>
  mixFour (z.getD (p 2) 0) (z.getD (p 6) 0) (z.getD (p 10) 0) (z.getD (p 14) 0) fun v2 v6 v10 v14 =>
  mixFour (z.getD (p 3) 0) (z.getD (p 7) 0) (z.getD (p 11) 0) (z.getD (p 15) 0) fun v3 v7 v11 v15 =>
  mixFour v0 v5 v10 v15 fun v0 v5 v10 v15 =>
  mixFour v1 v6 v11 v12 fun v1 v6 v11 v12 =>
  mixFour v2 v7 v8 v13 fun v2 v7 v8 v13 =>
  mixFour v3 v4 v9 v14 fun v3 v4 v9 v14 =>
  let z := (((z.setIfInBounds (p 0) v0).setIfInBounds (p 1) v1).setIfInBounds (p 2) v2).setIfInBounds
    (p 3) v3
  let z := (((z.setIfInBounds (p 4) v4).setIfInBounds (p 5) v5).setIfInBounds (p 6) v6).setIfInBounds
    (p 7) v7
  let z := (((z.setIfInBounds (p 8) v8).setIfInBounds (p 9) v9).setIfInBounds (p 10) v10).setIfInBounds
    (p 11) v11
  (((z.setIfInBounds (p 12) v12).setIfInBounds (p 13) v13).setIfInBounds (p 14) v14).setIfInBounds
    (p 15) v15

def mixRow (z : Block) (i : Nat) : Block := mixSixteen (16 * i) 2 z

def mixColumn (z : Block) (i : Nat) : Block := mixSixteen (2 * i) 16 z

def addBlocks (x y : Block) : Block := Array.zipWith (· ^^^ ·) x y

/-- Compresses two blocks into one. -/
def compress (x y : Block) : Block :=
  let r := addBlocks x y
  let z := (List.range 8).foldl mixRow r
  addBlocks r ((List.range 8).foldl mixColumn z)

/-! ## Which block is chosen -/

/-- A place in the course of filling: the pass, the quarter, and the position in the quarter. -/
structure Place where
  pass : Nat
  quarter : Nat
  index : Nat

/-- The number of blocks of a quarter. -/
def Cost.quarter (c : Cost) : Nat := c.blocks / 4

/-- The numbers that choose, of which there are 128 for each value of the counter. -/
def numbers (c : Cost) (pass quarter counter : Nat) : Block :=
  let input : Block :=
    (#[pass, 0, quarter, c.blocks, c.passes, 2, counter].map Nat.toUInt64) ++
      Array.replicate (blockWords - 7) 0
  compress zeroBlock (compress zeroBlock input)

/-- The position of the chosen block: the newer a block, the likelier it is. -/
def chosen (c : Cost) (p : Place) (number : UInt64) : Nat :=
  let candidates :=
    (if p.pass = 0 then p.quarter * c.quarter else c.blocks - c.quarter) + p.index - 1
  let x := (number &&& 0xffffffff).toNat
  let back := candidates * (x * x / Nat.pow 2 32) / Nat.pow 2 32
  let first := if p.pass = 0 || p.quarter = 3 then 0 else (p.quarter + 1) * c.quarter
  (first + (candidates - 1 - back)) % c.blocks

/-! ## Filling -/

/-- Fills the block at a position, given the number that chooses. -/
def fillBlock (c : Cost) (memory : Array Block) (p : Place) (number : UInt64) : Array Block :=
  let i := p.quarter * c.quarter + p.index
  let before := memory.getD ((i + c.blocks - 1) % c.blocks) #[]
  let new := compress before (memory.getD (chosen c p number) #[])
  let new := if p.pass = 0 then new else addBlocks new (memory.getD i #[])
  memory.setIfInBounds i new

/-- Fills the rest of a quarter, `count` blocks from a position on, choosing by a count. -/
def fillByCount (c : Cost) (pass quarter : Nat) :
    (count : Nat) → (index : Nat) → (numbers : Block) → Array Block → Array Block
  | 0, _, _, memory => memory
  | n + 1, index, ns, memory =>
      let ns := if index % blockWords = 0 then numbers c pass quarter (index / blockWords + 1) else ns
      fillByCount c pass quarter n (index + 1) ns
        (fillBlock c memory ⟨pass, quarter, index⟩ (ns.getD (index % blockWords) 0))

/-- Fills the rest of a quarter, choosing by the block before. -/
def fillByContent (c : Cost) (pass quarter : Nat) :
    (count : Nat) → (index : Nat) → Array Block → Array Block
  | 0, _, memory => memory
  | n + 1, index, memory =>
      let i := quarter * c.quarter + index
      let number := (memory.getD ((i + c.blocks - 1) % c.blocks) #[]).getD 0 0
      fillByContent c pass quarter n (index + 1) (fillBlock c memory ⟨pass, quarter, index⟩ number)

/-- Fills a quarter; the first two blocks of all are there from the start. -/
def fillQuarter (c : Cost) (pass : Nat) (memory : Array Block) (quarter : Nat) : Array Block :=
  let index := if pass = 0 && quarter = 0 then 2 else 0
  if pass = 0 && quarter < 2 then
    fillByCount c pass quarter (c.quarter - index) index (numbers c pass quarter 1) memory
  else fillByContent c pass quarter (c.quarter - index) index memory

def fill (c : Cost) (memory : Array Block) : Array Block :=
  (List.range c.passes).foldl
    (fun memory pass => (List.range 4).foldl (fillQuarter c pass) memory) memory

/-- The key of that many bytes for a password. -/
def derive (c : Cost) (size : Nat) (password salt : ByteArray) : ByteArray :=
  let seed := seed c size password salt
  let first (n : Nat) : Block :=
    wordsAt blockWords (longDigest 1024 (seed ++ fourBytes n ++ fourBytes 0)) 0
  let memory := #[first 0, first 1] ++ Array.replicate (c.blocks - 2) zeroBlock
  longDigest size (bytesOf ((fill c memory).getD (c.blocks - 1) #[]))

end Runbook.Cipher.Password
