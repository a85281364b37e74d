import Runbook.Proofs.FileTree
import Runbook.Proofs.Sorted
import Runbook.Secret.Vault

/-!
# What is sealed can be opened

The text of a vault is made in layers: a table of texts, its bytes, their encryption behind a nonce,
and that in base 64. Each layer is undone by its counterpart, whatever it was put around. So a vault
that was written with some secrets is read with these secrets.
-/

set_option autoImplicit false

namespace Runbook

/-! ## 1. Bytes -/

theorem toList_loop (bytes : ByteArray) (i : Nat) (read : List UInt8) :
    ByteArray.toList.loop bytes i read = read.reverse ++ bytes.data.toList.drop i := by
  induction i, read using ByteArray.toList.loop.induct bytes with
  | case1 i read inside ih =>
    have next : bytes.data.toList.drop i = bytes.get! i :: bytes.data.toList.drop (i + 1) := by
      rw [List.drop_eq_getElem_cons (by simpa using inside)]
      simp [ByteArray.get!, inside]
    rw [ByteArray.toList.loop.eq_1, if_pos inside, ih, next, List.reverse_cons, List.append_assoc]
    rfl
  | case2 i read outside =>
    rw [ByteArray.toList.loop.eq_1, if_neg outside,
      List.drop_of_length_le (by simpa using outside), List.append_nil]

theorem toList_eq_data (bytes : ByteArray) : bytes.toList = bytes.data.toList :=
  toList_loop bytes 0 []

/-! ## 2. Base 64 -/

namespace Base64

theorem value?_digit : ∀ n < 64, value? (digit n) = some n := by decide +kernel

theorem digit_ne_fill : ∀ n < 64, digit n ≠ '=' := by decide +kernel

theorem digit_solid : ∀ n < 64, isBlank (digit n) = false := by decide +kernel

theorem byte_eq {n : Nat} {a : UInt8} (h : n = a.toNat) : n.toUInt8 = a := by
  rw [h]
  exact UInt8.ofNat_toNat

/-- Four digits without fill are three bytes, at the end as well as before. -/
theorem decodeChars_digits {x y z w : Nat} (hx : x < 64) (hy : y < 64) (hz : z < 64) (hw : w < 64)
    {cs : List Char} {bytes : List UInt8} (h : decodeChars cs = some bytes) :
    decodeChars (digit x :: digit y :: digit z :: digit w :: cs) =
      some ((x * 4 + y / 16).toUInt8 :: (y % 16 * 16 + z / 4).toUInt8 ::
        (z % 4 * 64 + w).toUInt8 :: bytes) := by
  have vx := value?_digit x hx
  have vy := value?_digit y hy
  have vz := value?_digit z hz
  have vw := value?_digit w hw
  cases cs with
  | nil =>
    cases h
    simp [decodeChars, decodeLast, digit_ne_fill z hz, digit_ne_fill w hw, vx, vy, vz, vw]
  | cons c cs => simp [decodeChars, h, vx, vy, vz, vw]

theorem decodeChars_encodeBytes (bytes : List UInt8) :
    decodeChars (encodeBytes bytes) = some bytes := by
  induction bytes using encodeBytes.induct with
  | case1 => rfl
  | case2 a =>
    have ha := a.toNat_lt
    have left : a.toNat % 4 * 16 % 16 = 0 := Nat.mul_mod_left ..
    simp only [encodeBytes, decodeChars, decodeLast, value?_digit (a.toNat / 4) (by omega),
      value?_digit (a.toNat % 4 * 16) (by omega), left, Option.bind_eq_bind, Option.bind_some,
      and_self, if_true]
    rw [byte_eq (a := a) (by omega)]
    rfl
  | case3 a b =>
    have ha := a.toNat_lt
    have hb := b.toNat_lt
    have left : b.toNat % 16 * 4 % 4 = 0 := Nat.mul_mod_left ..
    simp only [encodeBytes, decodeChars, decodeLast, value?_digit (a.toNat / 4) (by omega),
      value?_digit (a.toNat % 4 * 16 + b.toNat / 16) (by omega),
      value?_digit (b.toNat % 16 * 4) (by omega), digit_ne_fill (b.toNat % 16 * 4) (by omega), left,
      Option.bind_eq_bind, Option.bind_some, if_true, if_false]
    rw [byte_eq (a := a) (by omega), byte_eq (a := b) (by omega)]
    rfl
  | case4 a b c rest ih =>
    have ha := a.toNat_lt
    have hb := b.toNat_lt
    have hc := c.toNat_lt
    rw [encodeBytes, decodeChars_digits (by omega) (by omega) (by omega) (by omega) ih,
      byte_eq (a := a) (by omega), byte_eq (a := b) (by omega), byte_eq (a := c) (by omega)]

theorem decode?_encode (bytes : ByteArray) : decode? (encode bytes) = some bytes := by
  rw [decode?, encode, String.toList_ofList, decodeChars_encodeBytes, toList_eq_data]
  rfl

theorem encodeBytes_solid (bytes : List UInt8) : ∀ c ∈ encodeBytes bytes, isBlank c = false := by
  have fill : isBlank '=' = false := by decide
  induction bytes using encodeBytes.induct with
  | case1 => simp [encodeBytes]
  | case2 a =>
    have ha := a.toNat_lt
    simp only [encodeBytes, List.forall_mem_cons]
    exact ⟨digit_solid _ (by omega), digit_solid _ (by omega), fill, fill, by simp⟩
  | case3 a b =>
    have ha := a.toNat_lt
    have hb := b.toNat_lt
    simp only [encodeBytes, List.forall_mem_cons]
    exact ⟨digit_solid _ (by omega), digit_solid _ (by omega), digit_solid _ (by omega), fill,
      by simp⟩
  | case4 a b c rest ih =>
    have ha := a.toNat_lt
    have hb := b.toNat_lt
    have hc := c.toNat_lt
    simp only [encodeBytes, List.forall_mem_cons]
    exact ⟨digit_solid _ (by omega), digit_solid _ (by omega), digit_solid _ (by omega),
      digit_solid _ (by omega), ih⟩

theorem encode_solid (bytes : ByteArray) : ∀ c ∈ (encode bytes).toList, isBlank c = false := by
  rw [encode, String.toList_ofList]
  exact encodeBytes_solid bytes.toList

theorem encode_ne_empty {bytes : ByteArray} (h : bytes.size ≠ 0) : encode bytes ≠ "" := by
  intro none
  have back := decode?_encode bytes
  rw [none] at back
  cases back
  exact h rfl

end Base64

/-! ## 3. Encryption -/

namespace Cipher

/-- A number that is used once. -/
abbrev Nonce := { bytes : ByteArray // bytes.size = nonceSize }

/-- The cipher decrypts what it has encrypted. -/
def Inverts (c : Cipher) : Prop :=
  ∀ nonce plain, c.decrypt? nonce (c.encrypt nonce plain) = some plain

theorem length_toBytes (b : Block) : b.toBytes.length = 16 := rfl

theorem length_masks (keys : List Block) (count : Nat) (b : Block) :
    (masks keys count b).length = 16 * count := by
  induction count generalizing b with
  | zero => rfl
  | succ count ih =>
    rw [masks, List.length_append, length_toBytes, ih]
    omega

theorem xor_twice {bytes mask : List UInt8} (covered : bytes.length ≤ mask.length) :
    (bytes.zipWith (· ^^^ ·) mask).zipWith (· ^^^ ·) mask = bytes := by
  induction bytes generalizing mask with
  | nil => rfl
  | cons a bytes ih =>
    cases mask with
    | nil => exact absurd covered (Nat.not_succ_le_zero _)
    | cons m mask =>
      rw [List.zipWith_cons_cons, List.zipWith_cons_cons, UInt8.xor_assoc, UInt8.xor_self,
        UInt8.xor_zero, ih (Nat.le_of_succ_le_succ covered)]

/-- There is a mask for every byte. -/
theorem length_le_masks (keys : List Block) (text : ByteArray) (b : Block) :
    text.toList.length ≤ (masks keys (blockCount text.size) b).length := by
  rw [length_masks, toList_eq_data, Array.length_toList, ByteArray.size_data, blockCount]
  omega

theorem size_masked (keys : List Block) (nonce text : ByteArray) :
    (masked keys nonce text).size = text.size := by
  have covered := length_le_masks keys text (countUp (counterStart nonce))
  rw [masked, ByteArray.size, List.size_toArray, List.length_zipWith, Nat.min_eq_left covered,
    toList_eq_data, Array.length_toList, ByteArray.size_data]

theorem masked_masked (keys : List Block) (nonce text : ByteArray) :
    masked keys nonce (masked keys nonce text) = text := by
  refine ByteArray.ext ?_
  have covered := length_le_masks keys text (countUp (counterStart nonce))
  rw [masked, size_masked, toList_eq_data, masked]
  dsimp only
  rw [xor_twice covered, toList_eq_data, Array.toArray_toList]

theorem size_tag (keys : List Block) (nonce text : ByteArray) :
    (tag keys nonce text).size = tagSize := rfl

/-- With any key. -/
theorem ofKey_inverts (key : ByteArray) : (ofKey key).Inverts := by
  intro nonce plain
  simp only [ofKey]
  generalize roundKeys key = keys
  generalize text : masked keys nonce plain = hidden
  have size : (hidden ++ tag keys nonce hidden).size = hidden.size + tagSize := by
    rw [ByteArray.size_append, size_tag]
  have front : (hidden ++ tag keys nonce hidden).extract 0 hidden.size = hidden :=
    ByteArray.extract_append_eq_left rfl
  have back : (hidden ++ tag keys nonce hidden).extract hidden.size (hidden.size + tagSize) =
      tag keys nonce hidden := ByteArray.extract_append_eq_right rfl rfl
  rw [size, if_neg (by omega), Nat.add_sub_cancel, front, back, if_pos rfl, ← text, masked_masked]

theorem unpack_pack {c : Cipher} (inverts : c.Inverts) (nonce : Nonce) (plain : ByteArray) :
    c.unpack (c.pack nonce.1 plain) = .ok plain := by
  have size : (nonce.1 ++ c.encrypt nonce.1 plain).size =
      nonceSize + (c.encrypt nonce.1 plain).size := by
    rw [ByteArray.size_append, nonce.2]
  rw [unpack, pack, size, if_neg (by omega), ByteArray.extract_append_eq_left nonce.2.symm,
    ByteArray.extract_append_eq_right nonce.2.symm (by rw [nonce.2]), inverts]

end Cipher

/-! ## 4. The table of secrets -/

namespace Vault

open Json Reader

variable {secrets : Fields String}

theorem rereadFields_texts (depth : Nat) (secrets : Fields String) :
    rereadFields (depth + 1) (secrets.map fun e => (e.1, .str e.2)) =
      some (secrets.map fun e => (e.1, .str e.2)) := by
  induction secrets with
  | nil => rfl
  | cons e secrets ih => rw [List.map_cons, rereadFields, reread, ih]

theorem parse?_encodeSecrets (distinct : secrets.names.Nodup) :
    parse? (encodeSecrets secrets) = some (.obj (secrets.map fun e => (e.1, .str e.2))) := by
  have names : Fields.names (secrets.map fun e => (e.1, Json.str e.2)) = secrets.names := by
    rw [Fields.names, List.map_map]
    rfl
  rw [encodeSecrets, parse?_compress, reread, if_neg (by decide), rereadFields_texts,
    Option.map_some, Fields.ofWrites_of_nodup (names ▸ distinct)]

theorem entriesWith_text (secrets : Fields String) :
    Decode.entriesWith Decode.text (secrets.map fun e => (e.1, .str e.2)) = .ok secrets := by
  induction secrets with
  | nil => rfl
  | cons e secrets ih => simp only [List.map_cons, Decode.entriesWith, Decode.text, ih]

theorem decodeSecrets_encodeSecrets (ordered : secrets.InOrder) :
    decodeSecrets (encodeSecrets secrets).toUTF8 = .ok secrets := by
  rw [decodeSecrets, fromUTF8?_toUTF8, Option.bind_some, parse?_encodeSecrets ordered.nodup]
  simp only [Decode.table, entriesWith_text, Fields.sorted_of_inOrder ordered]

/-- What a vault was written with is what it is read with. -/
theorem secretsOf_textOf {c : Cipher} (inverts : c.Inverts) (nonce : Cipher.Nonce)
    (ordered : secrets.InOrder) : secretsOf c (textOf c nonce.1 secrets) = .ok secrets := by
  have solid := Base64.encode_solid (c.pack nonce.1 (encodeSecrets secrets).toUTF8)
  have some : (c.pack nonce.1 (encodeSecrets secrets).toUTF8).size ≠ 0 := by
    have twelve : nonce.1.size = 12 := nonce.2
    rw [Cipher.pack, ByteArray.size_append, twelve]
    omega
  rw [textOf, secretsOf, Text.allBlank_of_solid solid (Base64.encode_ne_empty some),
    if_neg Bool.false_ne_true, Text.trim_of_solid solid, Base64.decode?_encode]
  simp only [Cipher.unpack_pack inverts, decodeSecrets_encodeSecrets ordered]

end Vault
end Runbook
