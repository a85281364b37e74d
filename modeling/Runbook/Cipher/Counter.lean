import Runbook.Cipher.Block

/-!
# Authenticated encryption with a counter: AES-256-GCM

A cipher with a fixed key encrypts a text under a number that is used once, the nonce, and decrypts
what was encrypted under that nonce. Anything else does not decrypt. An encrypted text travels with
its nonce in front.

The text is masked with the encryptions of the values of a counter that starts from the nonce, and
a tag of sixteen bytes at the end vouches for it. The tag is the value of a polynomial over a field
of `2¹²⁸` elements, masked with the encryption of the first counter value.
-/

set_option autoImplicit false

/-! ## Ciphers -/

namespace Runbook

structure Cipher where
  encrypt (nonce plain : ByteArray) : ByteArray
  decrypt? (nonce encrypted : ByteArray) : Option ByteArray

/-- Why a text does not decrypt. -/
inductive CipherError where
  | tooShort
  | failed
  deriving DecidableEq, Repr, Inhabited

namespace CipherError

def message : CipherError → String
  | .tooShort => "invalid ciphertext: too short"
  | .failed => "decryption failed"

end CipherError

namespace Cipher

/-- The number of bytes of a nonce. -/
def nonceSize : Nat := 12

/-- Encrypts a text and puts the nonce in front. -/
def pack (c : Cipher) (nonce plain : ByteArray) : ByteArray := nonce ++ c.encrypt nonce plain

/-- Decrypts a text with its nonce in front. -/
def unpack (c : Cipher) (data : ByteArray) : Except CipherError ByteArray :=
  if data.size < nonceSize then .error .tooShort
  else
    match c.decrypt? (data.extract 0 nonceSize) (data.extract nonceSize data.size) with
    | some plain => .ok plain
    | none => .error .failed

end Cipher
end Runbook

namespace Runbook.Cipher

/-! ## The field of the tag -/

/-- An element of the field: a polynomial whose constant term is the most significant bit. -/
structure Element where
  hi : UInt64
  lo : UInt64
  deriving DecidableEq, Repr, Inhabited

namespace Element

def zero : Element := ⟨0, 0⟩

def add (a b : Element) : Element := ⟨a.hi ^^^ b.hi, a.lo ^^^ b.lo⟩

def ofBlock (b : Block) : Element :=
  ⟨(b.c0.toUInt64 <<< 32) ||| b.c1.toUInt64, (b.c2.toUInt64 <<< 32) ||| b.c3.toUInt64⟩

def toBlock (e : Element) : Block :=
  ⟨(e.hi >>> 32).toUInt32, e.hi.toUInt32, (e.lo >>> 32).toUInt32, e.lo.toUInt32⟩

/-- Times `x`, modulo `x¹²⁸ + x⁷ + x² + x + 1`. -/
def double (e : Element) : Element :=
  let hi := e.hi >>> 1
  let lo := (e.lo >>> 1) ||| (e.hi <<< 63)
  if e.lo &&& 1 = 1 then ⟨hi ^^^ 0xe100000000000000, lo⟩ else ⟨hi, lo⟩

/-- The element turned left by one bit, so that the next coefficient is in front. -/
def next (e : Element) : Element :=
  ⟨(e.hi <<< 1) ||| (e.lo >>> 63), (e.lo <<< 1) ||| (e.hi >>> 63)⟩

/-- Adds the product of two elements, over that many coefficients of the first. -/
def addTimes : (bits : Nat) → (sum a b : Element) → Element
  | 0, sum, _, _ => sum
  | n + 1, sum, a, b =>
      addTimes n (if a.hi >>> 63 = 1 then sum.add b else sum) a.next b.double

def times (a b : Element) : Element := addTimes 128 zero a b

end Element

/-! ## The counter -/

/-- The first value of the counter for a nonce of twelve bytes. -/
def counterStart (nonce : ByteArray) : Block :=
  { Block.ofBytes nonce 0 with c3 := 1 }

def countUp (b : Block) : Block := { b with c3 := b.c3 + 1 }

/-- The number of blocks that a number of bytes takes. -/
def blockCount (size : Nat) : Nat := (size + 15) / 16

/-- The masks for a number of blocks, from the given value of the counter on. -/
def masks (keys : List Block) : (count : Nat) → Block → List UInt8
  | 0, _ => []
  | n + 1, b => (encryptBlock keys b).toBytes ++ masks keys n (countUp b)

/-- Masks a text; masking twice gives the text back. -/
def masked (keys : List Block) (nonce text : ByteArray) : ByteArray :=
  let start := countUp (counterStart nonce)
  let bytes := text.toList.zipWith (· ^^^ ·) (masks keys (blockCount text.size) start)
  ByteArray.mk bytes.toArray

/-! ## The tag -/

/-- The value of the polynomial of a text and its length at a point. -/
def polynomial (point : Element) (text : ByteArray) : Element :=
  let blocks := (List.range (blockCount text.size)).map fun i =>
    Element.ofBlock (Block.ofBytes text (16 * i))
  let size : Element := ⟨0, (8 * text.size).toUInt64⟩
  (blocks ++ [size]).foldl (fun sum e => (sum.add e).times point) .zero

/-- The tag of a masked text. -/
def tag (keys : List Block) (nonce text : ByteArray) : ByteArray :=
  let point := Element.ofBlock (encryptBlock keys .zero)
  let mask := encryptBlock keys (counterStart nonce)
  ByteArray.mk ((polynomial point text).toBlock.add mask).toBytes.toArray

/-- The number of bytes of a tag. -/
def tagSize : Nat := 16

/-- The cipher with a key of thirty-two bytes. -/
def ofKey (key : ByteArray) : Cipher :=
  let keys := roundKeys key
  { encrypt := fun nonce plain =>
      let text := masked keys nonce plain
      text ++ tag keys nonce text
    decrypt? := fun nonce encrypted =>
      if encrypted.size < tagSize then none
      else
        let text := encrypted.extract 0 (encrypted.size - tagSize)
        let given := encrypted.extract (encrypted.size - tagSize) encrypted.size
        if (tag keys nonce text).data = given.data then some (masked keys nonce text) else none }

end Runbook.Cipher
