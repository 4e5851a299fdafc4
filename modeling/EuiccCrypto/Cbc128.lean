import EuiccCrypto.Exec
import EuiccCrypto.Lib.Cbc

/-!
# AES-CBC-128 as BSP uses it

`cbc128.rs`: the ICV derived from the block number, the `80 00…` padding and the CBC calls.
AES itself is a parameter, a permutation of 16-octet blocks for each key; CBC without padding
is the textbook mode of `Cbc`.

* `encrypt_of_length`: the round trip.
* `unpad_exact_iff`: on which strings `unpad` is the exact inverse of `pad`.
* `decrypt_wrong_number`: a ciphertext gives the plaintext back under its own block number only.
-/

namespace EuiccCrypto

open Octets

/-- `BLOCK_LEN`. -/
abbrev blockLen : Nat := 16

/-- A 16-octet block, also the size of a key, an ICV and a CMAC. -/
abbrev Block := Cbc.Block blockLen UInt8

/-- The symmetric primitives taken from the `aes` and `cmac` crates: a permutation of blocks
for every key, and a function to blocks for every key. -/
structure Ciphers where
  aes : Block → Equiv.Perm Block
  cmac : Block → Bytes → Block

/-- Octet-wise exclusive or. -/
def Block.xor (a b : Block) : Block :=
  ⟨List.zipWith (· ^^^ ·) a.val b.val, by rw [List.length_zipWith, a.2, b.2]; rfl⟩

theorem zipWith_xor_cancel : ∀ {a b : Bytes}, a.length = b.length →
    List.zipWith (· ^^^ ·) (List.zipWith (· ^^^ ·) a b) b = a
  | [], [], _ => rfl
  | x :: a, y :: b, h => by
      have ih := zipWith_xor_cancel (a := a) (b := b) (by simpa using h)
      simp only [List.zipWith_cons_cons, ih]
      rw [UInt8.xor_assoc, UInt8.xor_self, UInt8.xor_zero]

theorem Block.xor_cancel (a b : Block) : Block.xor (Block.xor a b) b = a :=
  Subtype.ext (zipWith_xor_cancel (a.2.trans b.2.symm))

namespace Cbc128

variable (C : Ciphers)

/-- `aes_key`: a 16-octet AES key, or a length error naming the key. -/
def aesKey (bytes : Bytes) (name : String) : Exec Block :=
  if h : bytes.length = 16 then .ok ⟨bytes, h⟩
  else .err (.malformed (name ++ " is " ++ toString bytes.length ++ " bytes; AES-128 needs " ++
    toString blockLen))

/-- `u32::to_be_bytes`. -/
def toBeBytes (n : UInt32) : Bytes :=
  [(n >>> 24).toUInt8, (n >>> 16).toUInt8, (n >>> 8).toUInt8, n.toUInt8]

/-- The block number, big-endian and left-padded with zeroes to a block. -/
def numberBlock (blockNumber : UInt32) : Block :=
  ⟨List.replicate 12 0 ++ toBeBytes blockNumber, rfl⟩

/-- `icv`: the ICV for a command, `AES-S-ENC(block-number)`. -/
def icv (sEnc : Bytes) (blockNumber : UInt32) : Exec Block := do
  let key ← aesKey sEnc "S-ENC"
  .ok (C.aes key (numberBlock blockNumber))

/-- The `while` loop of `pad`, with the number of turns it has left. -/
def padLoop : Nat → Bytes → Bytes
  | 0, out => out
  | turns + 1, out => if out.length % blockLen = 0 then out else padLoop turns (out ++ [0x00])

/-- `pad`: `data` with `80` and then `00` to a multiple of `BLOCK_LEN`. The loop never needs a
whole block's worth of turns (`length_pad_mod`). -/
def pad (data : Bytes) : Bytes := padLoop blockLen (data ++ [0x80])

/-- `Iterator::rposition`: the index of the last octet `p` holds of. -/
def rposition (p : UInt8 → Bool) (bs : Bytes) : Option Nat :=
  (bs.reverse.findIdx? p).map fun i => bs.length - 1 - i

/-- `unpad`: strip `80 00…` padding. -/
def unpad (padded : Bytes) : Exec Bytes :=
  if padded.isEmpty ∨ padded.length % blockLen ≠ 0 then
    .err (.malformed ("padded data is " ++ toString padded.length ++
      " bytes, not a non-zero multiple of " ++ toString blockLen))
  else
    match rposition (· == 0x80) padded with
    | some i => do
        let tail ← sliceFrom padded (i + 1)
        -- An `80` with anything but zeroes behind it is data, not a marker.
        if tail.all (· == 0x00) then slice padded 0 i
        else .err (.malformed "padding is not 80 followed by zeroes")
    | none => .err (.malformed "padded data contains no 0x80 marker")

/-- `encrypt_padded_mut::<NoPadding>`: textbook CBC over whole blocks. -/
def encryptNoPadding (key iv : Block) (buf : Bytes) : Option Bytes :=
  if blockLen ∣ buf.length then
    some (Cbc.join (Cbc.encrypt Block.xor (C.aes key) iv (Cbc.split blockLen buf)))
  else none

/-- `decrypt_padded_mut::<NoPadding>`: the inverse of `encryptNoPadding`. -/
def decryptNoPadding (key iv : Block) (buf : Bytes) : Option Bytes :=
  if blockLen ∣ buf.length then
    some (Cbc.join (Cbc.decrypt Block.xor (C.aes key) iv (Cbc.split blockLen buf)))
  else none

/-- `encrypt`: encrypt `plaintext` with AES-CBC-128 under `s_enc`, deriving the ICV. -/
def encrypt (sEnc plaintext : Bytes) (blockNumber : UInt32) : Exec Bytes := do
  let key ← aesKey sEnc "S-ENC"
  let iv ← icv C sEnc blockNumber
  Exec.okOr (.malformed "AES-CBC encryption failed") (encryptNoPadding C key iv (pad plaintext))

/-- `decrypt`: decrypt AES-CBC-128 ciphertext under `s_enc` and strip the padding. -/
def decrypt (sEnc ciphertext : Bytes) (blockNumber : UInt32) : Exec Bytes := do
  let key ← aesKey sEnc "S-ENC"
  let iv ← icv C sEnc blockNumber
  let plain ← Exec.okOr (.malformed "AES-CBC ciphertext is not a whole number of blocks")
    (decryptNoPadding C key iv ciphertext)
  unpad plain

/-! ### Keys -/

@[simp] theorem aesKey_eq_ok {bytes : Bytes} {name : String} {key : Block} :
    aesKey bytes name = .ok key ↔ key.val = bytes := by
  unfold aesKey
  split
  · next h =>
      rw [Exec.ok.injEq]
      exact ⟨fun hk => hk ▸ rfl, fun hk => Subtype.ext hk.symm⟩
  · next h => simpa using fun hk : key.val = bytes => h (hk ▸ key.2)

theorem aesKey_of_length {bytes : Bytes} (name : String) (h : bytes.length = 16) :
    aesKey bytes name = .ok ⟨bytes, h⟩ :=
  aesKey_eq_ok.mpr rfl

@[simp] theorem aesKey_ne_panic {bytes : Bytes} {name : String} : aesKey bytes name ≠ .panic := by
  unfold aesKey
  split <;> simp

/-! ### Padding

`pad` adds the marker and zeros up to a whole block, `unpad` cuts at the last marker if only zeros
are behind it (`unpad_eq_ok`). A string of whole blocks with its marker in the final block is the
padding of what is in front of the marker: `eq_pad`. -/

theorem padLoop_eq : ∀ (turns : Nat) (out : Bytes), (15 - (out.length + 15) % 16) ≤ turns →
    padLoop turns out = out ++ List.replicate (15 - (out.length + 15) % 16) 0x00
  | 0, out, h => by
      rw [Nat.le_zero.mp h]
      simp [padLoop]
  | turns + 1, out, h => by
      rw [padLoop, blockLen]
      split
      · next hmod =>
          have hnone : 15 - (out.length + 15) % 16 = 0 := by omega
          rw [hnone, List.replicate_zero, List.append_nil]
      · next hmod =>
          obtain ⟨k, hk⟩ : ∃ k, 15 - (out.length + 15) % 16 = k + 1 :=
            ⟨14 - (out.length + 15) % 16, by omega⟩
          have hk' : 15 - ((out ++ [0x00]).length + 15) % 16 = k := by
            rw [List.length_append, List.length_singleton]
            omega
          rw [padLoop_eq turns _ (by omega), hk, hk', List.replicate_succ, List.append_assoc]
          rfl

/-- `pad` in closed form. -/
theorem pad_eq (data : Bytes) :
    pad data = data ++ 0x80 :: List.replicate (15 - data.length % 16) 0x00 := by
  have hcount : 15 - ((data ++ [0x80]).length + 15) % 16 = 15 - data.length % 16 := by
    rw [List.length_append, List.length_singleton]
    omega
  rw [pad, padLoop_eq _ _ (by rw [hcount, blockLen]; omega), hcount, List.append_assoc]
  rfl

theorem length_pad (data : Bytes) : (pad data).length = 16 * (data.length / 16 + 1) := by
  rw [pad_eq, List.length_append, List.length_cons, List.length_replicate]
  omega

theorem length_pad_mod (data : Bytes) : blockLen ∣ (pad data).length := by
  rw [length_pad]
  exact Nat.dvd_mul_right _ _

theorem rposition_eq_some {p : UInt8 → Bool} {pre post : Bytes} {b : UInt8} (hb : p b = true)
    (hpost : ∀ c ∈ post, p c = false) : rposition p (pre ++ b :: post) = some pre.length := by
  have hfind : (pre ++ b :: post).reverse.findIdx? p = some post.length := by
    rw [List.reverse_append, List.reverse_cons, List.append_assoc, List.findIdx?_append,
      List.findIdx?_eq_none_iff.mpr (by simpa using hpost)]
    simp [List.findIdx?_cons, hb]
  rw [rposition, hfind, Option.map_some, List.length_append, List.length_cons]
  congr 1
  omega

theorem exists_of_rposition {p : UInt8 → Bool} {bs : Bytes} {i : Nat}
    (h : rposition p bs = some i) :
    ∃ pre b post, bs = pre ++ b :: post ∧ p b = true ∧ i = pre.length := by
  obtain ⟨j, hj, rfl⟩ := Option.map_eq_some_iff.mp h
  obtain ⟨hlt, hb, -⟩ := List.findIdx?_eq_some_iff_getElem.mp hj
  rw [List.length_reverse] at hlt
  rw [List.getElem_reverse] at hb
  have hi : bs.length - 1 - j < bs.length := by omega
  refine ⟨bs.take (bs.length - 1 - j), bs[bs.length - 1 - j], bs.drop (bs.length - 1 - j + 1), ?_,
    hb, ?_⟩
  · rw [← List.drop_eq_getElem_cons hi, List.take_append_drop]
  · rw [List.length_take_of_le hi.le]

/-- Padding of any length is stripped. -/
theorem unpad_append {data : Bytes} {k : Nat}
    (hdvd : blockLen ∣ (data ++ 0x80 :: List.replicate k 0x00).length) :
    unpad (data ++ 0x80 :: List.replicate k 0x00) = .ok data := by
  have hguard : ¬ ((data ++ 0x80 :: List.replicate k 0x00).isEmpty ∨
      (data ++ 0x80 :: List.replicate k 0x00).length % blockLen ≠ 0) := by
    rintro (h | h)
    · simp at h
    · exact h (Nat.mod_eq_zero_of_dvd hdvd)
  have hpos : rposition (· == 0x80) (data ++ 0x80 :: List.replicate k 0x00) =
      some data.length := by
    apply rposition_eq_some rfl
    intro c hc
    rw [(List.mem_replicate.mp hc).2]
    rfl
  have htail : sliceFrom (data ++ 0x80 :: List.replicate k 0x00) (data.length + 1) =
      .ok (List.replicate k 0x00) := by simp
  have hdata : slice (data ++ 0x80 :: List.replicate k 0x00) 0 data.length = .ok data := by simp
  rw [unpad, if_neg hguard, hpos]
  simp [htail, hdata]

/-- `unpad` strips the last `80` and the zeroes behind it, however many they are. -/
theorem unpad_eq_ok {padded data : Bytes} : unpad padded = .ok data ↔
    blockLen ∣ padded.length ∧ ∃ k, padded = data ++ 0x80 :: List.replicate k 0x00 := by
  constructor
  · intro h
    rw [unpad, Exec.ite_err_eq_ok] at h
    obtain ⟨hguard, h⟩ := h
    rw [not_or, not_not] at hguard
    refine ⟨Nat.dvd_of_mod_eq_zero hguard.2, ?_⟩
    cases hpos : rposition (· == 0x80) padded with
    | none => simp [hpos] at h
    | some i =>
        obtain ⟨pre, b, post, rfl, hb, rfl⟩ := exists_of_rposition hpos
        have htail : sliceFrom (pre ++ b :: post) (pre.length + 1) = .ok post := by simp
        have hdata : slice (pre ++ b :: post) 0 pre.length = .ok pre := by simp
        rw [hpos] at h
        simp only [htail, hdata, Exec.ok_bind] at h
        split at h
        · next hall =>
            cases h
            have hzero : post = List.replicate post.length 0x00 :=
              List.eq_replicate_iff.mpr ⟨rfl, by simpa using hall⟩
            exact ⟨post.length, by rw [← hzero, beq_iff_eq.mp hb]⟩
        · cases h
  · rintro ⟨hdvd, k, rfl⟩
    exact unpad_append hdvd

/-- Stripping the padding undoes it. -/
theorem unpad_pad (data : Bytes) : unpad (pad data) = .ok data :=
  unpad_eq_ok.mpr ⟨length_pad_mod data, _, pad_eq data⟩

/-- What `unpad` strips is what `pad` adds, if it is no longer than a block. -/
theorem eq_pad {padded data : Bytes} {k : Nat} (hdvd : blockLen ∣ padded.length)
    (h : padded = data ++ 0x80 :: List.replicate k 0x00) (hk : k < blockLen) :
    padded = pad data := by
  have hcount : k = 15 - data.length % 16 := by
    have hmod := Nat.mod_eq_zero_of_dvd hdvd
    rw [h, List.length_append, List.length_cons, List.length_replicate] at hmod
    simp only [blockLen] at hmod hk
    omega
  rw [h, pad_eq, hcount]

/-! ### Encryption -/

section Blocks

variable {C} {sEnc : Bytes} (hkey : sEnc.length = 16)

theorem icv_of_length (blockNumber : UInt32) :
    icv C sEnc blockNumber = .ok (C.aes ⟨sEnc, hkey⟩ (numberBlock blockNumber)) := by
  rw [icv, aesKey_of_length _ hkey, Exec.ok_bind]

/-- Encryption is CBC over the blocks of the padded plaintext. -/
theorem encrypt_eq {plaintext : Bytes} {bs : List Block} (hbs : Cbc.join bs = pad plaintext)
    (blockNumber : UInt32) :
    encrypt C sEnc plaintext blockNumber = .ok (Cbc.join (Cbc.encrypt Block.xor (C.aes ⟨sEnc, hkey⟩)
      (C.aes ⟨sEnc, hkey⟩ (numberBlock blockNumber)) bs)) := by
  rw [encrypt, aesKey_of_length _ hkey, Exec.ok_bind, icv_of_length hkey, Exec.ok_bind,
    encryptNoPadding, if_pos (length_pad_mod plaintext), ← hbs,
    Cbc.split_join (by decide : 0 < blockLen), Exec.okOr_some]

/-- Decryption is CBC over the blocks of the ciphertext, and then the padding is stripped. -/
theorem decrypt_join (cs : List Block) (blockNumber : UInt32) :
    decrypt C sEnc (Cbc.join cs) blockNumber = unpad (Cbc.join (Cbc.decrypt Block.xor
      (C.aes ⟨sEnc, hkey⟩) (C.aes ⟨sEnc, hkey⟩ (numberBlock blockNumber)) cs)) := by
  have hdvd : blockLen ∣ (Cbc.join cs).length := by
    rw [Cbc.length_join]
    exact Nat.dvd_mul_right _ _
  rw [decrypt, aesKey_of_length _ hkey, Exec.ok_bind, icv_of_length hkey, Exec.ok_bind,
    decryptNoPadding, if_pos hdvd, Cbc.split_join (by decide : 0 < blockLen), Exec.okOr_some,
    Exec.ok_bind]

theorem exists_join_eq_pad (plaintext : Bytes) :
    ∃ (b : Block) (bs : List Block), Cbc.join (b :: bs) = pad plaintext := by
  have hjoin : Cbc.join (Cbc.split blockLen (pad plaintext)) = pad plaintext :=
    Cbc.join_split (length_pad_mod plaintext)
  cases hbs : Cbc.split blockLen (pad plaintext) with
  | nil =>
      have hlen := congrArg List.length hjoin
      rw [hbs, length_pad] at hlen
      simp at hlen
  | cons b bs => exact ⟨b, bs, by rw [← hbs, hjoin]⟩

end Blocks

/-- Encryption returns under every 16-octet key, and the ciphertext is as long as the padded
plaintext. -/
theorem encrypt_of_length {sEnc : Bytes} (h : sEnc.length = 16) (plaintext : Bytes)
    (blockNumber : UInt32) :
    ∃ ct, encrypt C sEnc plaintext blockNumber = .ok ct ∧
      ct.length = 16 * (plaintext.length / 16 + 1) ∧
      decrypt C sEnc ct blockNumber = .ok plaintext := by
  obtain ⟨b, bs, hbs⟩ := exists_join_eq_pad plaintext
  refine ⟨_, encrypt_eq h hbs blockNumber, ?_, ?_⟩
  · rw [← length_pad, ← hbs, Cbc.length_join, Cbc.length_join, Cbc.length_encrypt]
  · rw [decrypt_join h, Cbc.decrypt_encrypt _ _ Block.xor_cancel, hbs, unpad_pad]

/-- Encryption returns under no other key. -/
theorem length_of_encrypt {sEnc plaintext ct : Bytes} {blockNumber : UInt32}
    (h : encrypt C sEnc plaintext blockNumber = .ok ct) : sEnc.length = 16 := by
  rw [encrypt, Exec.bind_eq_ok] at h
  obtain ⟨key, hkey, -⟩ := h
  rw [← aesKey_eq_ok.mp hkey]
  exact key.2

/-! ### No call panics -/

theorem rposition_lt {p : UInt8 → Bool} {bs : Bytes} {i : Nat} (h : rposition p bs = some i) :
    i < bs.length := by
  obtain ⟨j, hj, rfl⟩ := Option.map_eq_some_iff.mp h
  have := (List.findIdx?_eq_some_iff_getElem.mp hj).1
  rw [List.length_reverse] at this
  omega

theorem unpad_ne_panic {padded : Bytes} : unpad padded ≠ .panic := by
  intro h
  rw [unpad, Exec.ite_err_eq_panic] at h
  obtain ⟨-, h⟩ := h
  cases hpos : rposition (· == 0x80) padded with
  | none => simp [hpos] at h
  | some i =>
      have hlt := rposition_lt hpos
      simp only [hpos, Exec.bind_eq_panic, sliceFrom_eq_panic] at h
      rcases h with h | ⟨tail, -, h⟩
      · omega
      · split at h
        · rw [slice_eq_panic] at h
          omega
        · cases h

theorem encrypt_ne_panic {sEnc plaintext : Bytes} {blockNumber : UInt32} :
    encrypt C sEnc plaintext blockNumber ≠ .panic := by
  simp [encrypt, icv, Exec.bind_eq_panic]

theorem decrypt_ne_panic {sEnc ciphertext : Bytes} {blockNumber : UInt32} :
    decrypt C sEnc ciphertext blockNumber ≠ .panic := by
  simp [decrypt, icv, Exec.bind_eq_panic, unpad_ne_panic]

/-! ### What `unpad` accepts beyond what `pad` produces -/

/-- The last octet of `padded` that is not zero is an `80`, and it lies before the final block. -/
def MarkerBeforeFinalBlock (padded : Bytes) : Prop :=
  blockLen ∣ padded.length ∧
    ∃ data k, blockLen ≤ k ∧ padded = data ++ 0x80 :: List.replicate k 0x00

/-- **`unpad` accepts exactly what `pad` produces**, and rejects everything else, on the strings
whose marker does not lie before the final block, and on no others. -/
theorem unpad_exact_iff (padded : Bytes) :
    ((∀ data, unpad padded = .ok data ↔ padded = pad data) ∧
      ((∀ data, padded ≠ pad data) → ∃ e, unpad padded = .err e)) ↔
        ¬ MarkerBeforeFinalBlock padded := by
  constructor
  · rintro ⟨hexact, -⟩ ⟨hdvd, data, k, hk, h⟩
    -- `unpad` strips more zeroes than `pad` would have put there.
    have hpad := (hexact data).mp (unpad_eq_ok.mpr ⟨hdvd, k, h⟩)
    have hlen := congrArg List.length hpad
    rw [length_pad, h, List.length_append, List.length_cons, List.length_replicate] at hlen
    simp only [blockLen] at hk
    omega
  · intro hmarker
    have hpad : ∀ data, unpad padded = .ok data → padded = pad data := by
      intro data h
      obtain ⟨hdvd, k, hk⟩ := unpad_eq_ok.mp h
      apply eq_pad hdvd hk
      by_contra hlong
      exact hmarker ⟨hdvd, data, k, not_lt.mp hlong, hk⟩
    refine ⟨fun data => ⟨hpad data, ?_⟩, ?_⟩
    · rintro rfl
      exact unpad_pad data
    · intro hnone
      cases h : unpad padded with
      | ok data => exact absurd (hpad data h) (hnone data)
      | err e => exact ⟨e, rfl⟩
      | panic => exact absurd h unpad_ne_panic

/-- A block that is `80` and zeroes, and another block of zeroes. -/
theorem unpad_two_blocks : unpad (0x80 :: List.replicate 31 0x00) = .ok [] ∧
    ∀ data, 0x80 :: List.replicate 31 0x00 ≠ pad data := by
  refine ⟨by decide, ?_⟩
  intro data h
  have hunpad : unpad (pad data) = .ok [] := h ▸ (by decide)
  rw [unpad_pad] at hunpad
  cases hunpad
  exact absurd h (by decide)

/-! ### Block numbers

A wrong block number is a wrong initial value, and CBC decrypts to the plaintext with its first
block changed by the difference of the two (`decrypt_encrypt_of_iv`). The difference is not zero,
since the number is in the block that AES permutes. -/

theorem toBeBytes_inj {n m : UInt32} (h : toBeBytes n = toBeBytes m) : n = m := by
  simp only [toBeBytes, List.cons.injEq, ← UInt8.toNat_inj, UInt32.toNat_toUInt8,
    UInt32.toNat_shiftRight] at h
  have hn := n.toNat_lt
  have hm := m.toNat_lt
  rw [← UInt32.toNat_inj]
  simp [Nat.shiftRight_eq_div_pow] at h
  omega

theorem numberBlock_inj {n m : UInt32} (h : numberBlock n = numberBlock m) : n = m :=
  toBeBytes_inj (List.append_cancel_left (congrArg Subtype.val h))

/-- Two keystream blocks that have the same effect on one block are the same. -/
theorem Block.xor_left_cancel {a b c : Block} (h : Block.xor a b = Block.xor a c) : b = c := by
  have hzip : ∀ {x y z : Bytes}, x.length = y.length → x.length = z.length →
      List.zipWith (· ^^^ ·) x y = List.zipWith (· ^^^ ·) x z → y = z := by
    intro x
    induction x with
    | nil =>
        intro y z hy hz _
        rw [List.eq_nil_of_length_eq_zero hy.symm, List.eq_nil_of_length_eq_zero hz.symm]
    | cons u x ih =>
        rintro (_ | ⟨v, y⟩) (_ | ⟨w, z⟩) hy hz heq
        · rfl
        · simp at hy
        · simp at hz
        · simp only [List.zipWith_cons_cons, List.cons.injEq, UInt8.xor_right_inj] at heq
          rw [heq.1, ih (by simpa using hy) (by simpa using hz) heq.2]
  exact Subtype.ext (hzip (a.2.trans b.2.symm) (a.2.trans c.2.symm) (congrArg Subtype.val h))

/-- **A wrong block number never gives the command back.** The two ICVs differ, and what is
encrypted under one number is, under the other, an error or another plaintext. -/
theorem decrypt_wrong_number {sEnc : Bytes} (hkey : sEnc.length = 16) (plaintext : Bytes)
    {n m : UInt32} (hnm : n ≠ m) :
    (∃ a b, icv C sEnc n = .ok a ∧ icv C sEnc m = .ok b ∧ a ≠ b) ∧
    ∃ ct, encrypt C sEnc plaintext n = .ok ct ∧
      ((∃ e, decrypt C sEnc ct m = .err e) ∨
        ∃ other, decrypt C sEnc ct m = .ok other ∧ other ≠ plaintext) := by
  have hicv : C.aes ⟨sEnc, hkey⟩ (numberBlock n) ≠ C.aes ⟨sEnc, hkey⟩ (numberBlock m) := fun h =>
    hnm (numberBlock_inj ((C.aes _).injective h))
  refine ⟨⟨_, _, icv_of_length hkey n, icv_of_length hkey m, hicv⟩, ?_⟩
  obtain ⟨b, bs, hbs⟩ := exists_join_eq_pad plaintext
  refine ⟨_, encrypt_eq hkey hbs n, ?_⟩
  cases hdec : decrypt C sEnc _ m with
  | err e => exact .inl ⟨e, rfl⟩
  | panic => exact absurd hdec (decrypt_ne_panic C)
  | ok other =>
      refine .inr ⟨other, rfl, ?_⟩
      rintro rfl
      rw [decrypt_join hkey, Cbc.decrypt_encrypt_of_iv _ _ Block.xor_cancel] at hdec
      -- Both strings are the data and an `80` with zeroes behind it, and they are equally long.
      obtain ⟨hdvd, k, hk⟩ := unpad_eq_ok.mp hdec
      have hlen := congrArg List.length hk
      have hlen' := congrArg List.length hbs
      rw [pad_eq] at hlen'
      simp only [Cbc.length_join, List.length_cons, List.length_append,
        List.length_replicate, blockLen] at hlen hlen'
      have hpad := eq_pad hdvd hk (by simp only [blockLen]; omega)
      -- So their first blocks are equal, and with them the ICVs.
      rw [← hbs] at hpad
      have hfirst := (List.cons.inj (Cbc.join_inj (by decide : 0 < blockLen) hpad)).1
      apply hicv
      apply Block.xor_left_cancel
      rw [hfirst, Block.xor_cancel]

def numberedKey : Bytes :=
  [0x2b, 0x7e, 0x15, 0x16, 0x28, 0xae, 0xd2, 0xa6, 0xab, 0xf7, 0x15, 0x88, 0x09, 0xcf, 0x4f, 0x3c]

def firstIcv : Block :=
  ⟨[0x57, 0x12, 0x7d, 0x40, 0x34, 0xb1, 0xbe, 0xbf, 0xae, 0xf4, 0x66, 0xb9, 0xc7, 0x72, 0x6f,
    0xc6], rfl⟩

def secondIcv : Block :=
  ⟨[0x97, 0x3f, 0x2e, 0xf3, 0x48, 0x79, 0xe2, 0x02, 0x7f, 0x17, 0x34, 0x30, 0x3f, 0xf2, 0x1f,
    0x89], rfl⟩

def numberedInput : Block :=
  ⟨[0x36, 0x32, 0x1e, 0x2f, 0x59, 0xdc, 0xdf, 0xd1, 0xca, 0x74, 0x66, 0xb9, 0xc7, 0x72, 0x6f,
    0xc6], rfl⟩

def numberedCiphertext : Block :=
  ⟨[0xc1, 0x9c, 0xba, 0x3e, 0xd0, 0x2f, 0x2c, 0x42, 0xab, 0x28, 0x33, 0xee, 0x2a, 0x8e, 0xa3,
    0x1f], rfl⟩

/-- AES under `numberedKey` on the block numbers 1 and 2 and on one plaintext block. -/
def numberedCiphers : Ciphers where
  aes key :=
    if key.val = numberedKey then
      ((Equiv.swap (numberBlock 1) firstIcv).trans (Equiv.swap (numberBlock 2) secondIcv)).trans
        (Equiv.swap numberedInput numberedCiphertext)
    else Equiv.refl Block
  cmac _ _ := numberBlock 0

/-- A command encrypted as the first one and decrypted as the second. -/
theorem decrypt_wrong_number_sample :
    encrypt numberedCiphers numberedKey "a command".toUTF8.toList 1 =
      .ok numberedCiphertext.val ∧
    ((∃ e, decrypt numberedCiphers numberedKey numberedCiphertext.val 2 = .err e) ∨
      ∃ other, decrypt numberedCiphers numberedKey numberedCiphertext.val 2 = .ok other ∧
        other ≠ "a command".toUTF8.toList) := by
  have henc : encrypt numberedCiphers numberedKey "a command".toUTF8.toList 1 =
      .ok numberedCiphertext.val := by decide +kernel
  obtain ⟨ct, hct, hdec⟩ := (decrypt_wrong_number numberedCiphers (rfl : numberedKey.length = 16)
    "a command".toUTF8.toList (by decide : (1 : UInt32) ≠ 2)).2
  rw [henc] at hct
  cases hct
  exact ⟨henc, hdec⟩

end Cbc128
end EuiccCrypto
