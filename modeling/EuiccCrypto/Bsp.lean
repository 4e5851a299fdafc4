import EuiccCrypto.Cbc128
import EuiccCrypto.Kdf
import EuiccCrypto.Wire

/-!
# BSP framing of protected TLVs

`bsp.rs`: wrapping and unwrapping protected command TLVs, and their encoding on the wire.

The four wrap and unwrap calls borrow the MAC chaining value mutably, so they are `Chained`
calls: what they end in, together with what they leave in the buffer. `Advances` is the one
step the chain can take, and each call has a lemma that says when it returns in terms of it:
`wrapEncrypt_eq_ok`, `wrapMacOnly_eq_ok`, `unwrapEncrypt_eq_ok`, `unwrapMacOnly_eq_ok`.
`decode_encode` is the round trip of the encoding.
-/

namespace EuiccCrypto
namespace Bsp

open Octets Tlv Wire

/-- `CMAC_LEN`: the length of a transmitted C-MAC. -/
abbrev cmacLen : Nat := 8

/-- `KEY_LEN`: the AES-128 key length. -/
abbrev keyLen : Nat := 16

/-- A protected command TLV: the tag, the carried bytes, and the C-MAC. -/
structure ProtectedTlv where
  tag : UInt32
  data : Bytes
  cmac : Bytes
  deriving DecidableEq

/-- The three BSP session keys. -/
structure BspSessionKeys where
  macChaining : Bytes
  sEnc : Bytes
  sMac : Bytes

/-! ### Calls that borrow the chaining value

The source passes `&mut [u8]`, and writes to it at the end of a call that succeeds. Whether a call
that fails has written is what `Chained` can tell: its buffer is returned in either case. -/

/-- A call that holds `chaining: &mut [u8]`: its outcome, and the buffer as it leaves it. -/
def Chained (α : Type) : Type := Bytes → Exec α × Bytes

namespace Chained

variable {α β : Type}

/-- The next call works on the buffer the one before it left. -/
protected def bind (x : Chained α) (f : α → Chained β) : Chained β := fun buf =>
  match x buf with
  | (.ok a, buf') => f a buf'
  | (.err e, buf') => (.err e, buf')
  | (.panic, buf') => (.panic, buf')

instance : Monad Chained where
  pure a := fun buf => (.ok a, buf)
  bind := Chained.bind

/-- The buffer as it is now. -/
def read : Chained Bytes := fun buf => (.ok buf, buf)

/-- A call that leaves the buffer alone. -/
def lift (x : Exec α) : Chained α := fun buf => (x, buf)

/-- `copy_from_slice`, which panics unless the lengths agree. -/
def copyFromSlice (src : Bytes) : Chained Unit := fun buf =>
  if buf.length = src.length then (.ok (), src) else (.panic, buf)

@[simp] theorem pure_apply (a : α) (buf : Bytes) : (pure a : Chained α) buf = (.ok a, buf) := rfl

@[simp] theorem read_bind (f : Bytes → Chained α) (buf : Bytes) :
    (read >>= f) buf = f buf buf := rfl

@[simp] theorem lift_ok_bind (a : α) (f : α → Chained β) : (lift (.ok a) >>= f) = f a := rfl

@[simp] theorem lift_err_bind (e : Error) (f : α → Chained β) (buf : Bytes) :
    (lift (.err e) >>= f) buf = (.err e, buf) := rfl

@[simp] theorem lift_panic_bind (f : α → Chained β) (buf : Bytes) :
    (lift .panic >>= f) buf = (.panic, buf) := rfl

theorem bind_ok {x : Chained α} {a : α} {buf buf' : Bytes} (h : x buf = (.ok a, buf'))
    (f : α → Chained β) : (x >>= f) buf = f a buf' := by
  show Chained.bind x f buf = _
  rw [Chained.bind, h]

theorem bind_err {x : Chained α} {e : Error} {buf buf' : Bytes} (h : x buf = (.err e, buf'))
    (f : α → Chained β) : (x >>= f) buf = (.err e, buf') := by
  show Chained.bind x f buf = _
  rw [Chained.bind, h]

/-- A sequence of calls returns exactly when each of them does, on the buffer it is given. -/
theorem bind_eq_ok {x : Chained α} {f : α → Chained β} {b : β} {buf last : Bytes} :
    (x >>= f) buf = (.ok b, last) ↔ ∃ a buf', x buf = (.ok a, buf') ∧ f a buf' = (.ok b, last) := by
  show Chained.bind x f buf = _ ↔ _
  rw [Chained.bind]
  rcases x buf with ⟨_ | _ | _, _⟩ <;> simp

theorem copyFromSlice_bind {src buf : Bytes} (h : buf.length = src.length)
    (f : Unit → Chained α) : (copyFromSlice src >>= f) buf = f () src :=
  bind_ok (by rw [copyFromSlice, if_pos h]) f

end Chained

/-! ### The C-MAC -/

section Cmac

variable (C : Ciphers)

/-- `encoded_tag`: a tag as it appears on the wire, including any multi-byte form. -/
def encodedTag (tag : UInt32) : Bytes :=
  if tag ≤ 0xFF then [tag.toUInt8]
  else if tag ≤ 0xFFFF then [(tag >>> 8).toUInt8, tag.toUInt8]
  else if tag ≤ 0xFFFFFF then [(tag >>> 16).toUInt8, (tag >>> 8).toUInt8, tag.toUInt8]
  else [(tag >>> 24).toUInt8, (tag >>> 16).toUInt8, (tag >>> 8).toUInt8, tag.toUInt8]

/-- `encoded_length`: a length as DER encodes it, which the CMAC input uses verbatim. -/
def encodedLength (len : Nat) : Exec Bytes :=
  if len > 0xFFFF then
    .err (.malformed ("protected TLV length " ++ toString len ++
      " exceeds the two-byte long form"))
  else .ok (derLength len)

/-- `Cmac::new_from_slice`: the key has to be 16 octets long. -/
def newFromSlice (key : Bytes) (name : String) : Exec Block :=
  if h : key.length = keyLen then .ok ⟨key, h⟩
  else .err (.malformed (name ++ " is " ++ toString key.length ++ " bytes; AES-128 needs " ++
    toString keyLen))

/-- `full_cmac`: the full CMAC output, which is what the MAC chain advances to. -/
def fullCmac (sCmac chaining : Bytes) (tag : UInt32) (finalLength : Nat) (data : Bytes) :
    Exec Bytes :=
  if chaining.length ≠ keyLen then
    .err (.malformed ("MAC chaining value is " ++ toString chaining.length ++ " bytes; " ++
      toString keyLen ++ " expected"))
  else do
    let mac ← newFromSlice sCmac "S-CMAC"
    let length ← encodedLength finalLength
    .ok (C.cmac mac (chaining ++ encodedTag tag ++ length ++ data)).val

/-- `compute_cmac`: the truncated C-MAC that is transmitted, the 8 most significant bytes. -/
def computeCmac (sCmac chaining : Bytes) (tag : UInt32) (finalLength : Nat) (data : Bytes) :
    Exec Bytes := do
  let full ← fullCmac C sCmac chaining tag finalLength data
  slice full 0 cmacLen

end Cmac

/-! ### Wrapping and unwrapping -/

section Wrap

variable (C : Ciphers) (keys : BspSessionKeys)

/-- `wrap_encrypt`: encrypt-and-MAC `plaintext` under `tag`, advancing the MAC chain. -/
def wrapEncrypt (tag : UInt32) (plaintext : Bytes) (blockNumber : UInt32) :
    Chained ProtectedTlv := do
  let chaining ← Chained.read
  let ciphertext ← Chained.lift (Cbc128.encrypt C keys.sEnc plaintext blockNumber)
  let finalLength := ciphertext.length + cmacLen
  let cmac ← Chained.lift (computeCmac C keys.sMac chaining tag finalLength ciphertext)
  let full ← Chained.lift (fullCmac C keys.sMac chaining tag finalLength ciphertext)
  -- The chain advances to the full CMAC, not to the 8 octets carried.
  Chained.copyFromSlice full
  pure { tag, data := ciphertext, cmac }

/-- `wrap_mac_only`: MAC `plaintext` under `tag` without encrypting it. -/
def wrapMacOnly (tag : UInt32) (plaintext : Bytes) : Chained ProtectedTlv := do
  let chaining ← Chained.read
  let finalLength := plaintext.length + cmacLen
  let cmac ← Chained.lift (computeCmac C keys.sMac chaining tag finalLength plaintext)
  let full ← Chained.lift (fullCmac C keys.sMac chaining tag finalLength plaintext)
  Chained.copyFromSlice full
  pure { tag, data := plaintext, cmac }

/-- `unwrap_encrypt`: verify and decrypt a protected TLV, advancing the MAC chain. -/
def unwrapEncrypt (tlv : ProtectedTlv) (blockNumber : UInt32) : Chained Bytes := do
  let chaining ← Chained.read
  let finalLength := tlv.data.length + cmacLen
  let expected ← Chained.lift (computeCmac C keys.sMac chaining tlv.tag finalLength tlv.data)
  if !Kdf.constantTimeEq expected tlv.cmac then Chained.lift (.err .verificationFailed)
  else do
    -- Decryption comes after the check and before the chain advances.
    let plaintext ← Chained.lift (Cbc128.decrypt C keys.sEnc tlv.data blockNumber)
    let full ← Chained.lift (fullCmac C keys.sMac chaining tlv.tag finalLength tlv.data)
    Chained.copyFromSlice full
    pure plaintext

/-- `unwrap_mac_only`: verify a MAC-only TLV and return its data, advancing the MAC chain. -/
def unwrapMacOnly (tlv : ProtectedTlv) : Chained Bytes := do
  let chaining ← Chained.read
  let finalLength := tlv.data.length + cmacLen
  let expected ← Chained.lift (computeCmac C keys.sMac chaining tlv.tag finalLength tlv.data)
  if !Kdf.constantTimeEq expected tlv.cmac then Chained.lift (.err .verificationFailed)
  else do
    let full ← Chained.lift (fullCmac C keys.sMac chaining tlv.tag finalLength tlv.data)
    Chained.copyFromSlice full
    pure tlv.data

end Wrap

/-! ### The encoding on the wire -/

/-- `encode_raw_tlv`: encode a TLV whose tag is already the full encoded tag. -/
def encodeRawTlv (tag : UInt32) (value : Bytes) : Bytes :=
  encodedTag tag ++ derLength value.length ++ value

/-- `encode`: the bytes that go on the wire. -/
def encode (tlv : ProtectedTlv) : Bytes := encodeRawTlv tlv.tag (tlv.data ++ tlv.cmac)

/-- `decode`: parse a protected TLV from the wire. -/
def decode (bytes : Bytes) : Exec ProtectedTlv := do
  let (tag, value, _) ← (readTlv bytes).mapErr fun e =>
    .malformed ("protected TLV is not a TLV: " ++ e.display)
  if value.length < cmacLen then
    .err (.malformed ("protected TLV body is " ++ toString value.length ++ " bytes; at least a " ++
      toString cmacLen ++ "-byte C-MAC is needed"))
  else do
    let split := value.length - cmacLen
    let data ← slice value 0 split
    let cmac ← sliceFrom value split
    .ok { tag := tag.toUInt32, data, cmac }

/-! ### What the C-MAC is computed over -/

section CmacSpec

variable {C : Ciphers}

/-- What `full_cmac` feeds to CMAC. -/
def cmacInput (chaining : Bytes) (tag : UInt32) (finalLength : Nat) (data : Bytes) : Bytes :=
  chaining ++ encodedTag tag ++ derLength finalLength ++ data

/-- What the C-MAC of a block is computed over: the chaining value, the tag, the final length
and the data. -/
def macInput (chaining : Bytes) (tag : UInt32) (data : Bytes) : Bytes :=
  chaining ++ encodedTag tag ++ derLength (data.length + cmacLen) ++ data

theorem newFromSlice_eq_ok {key : Bytes} {name : String} {mac : Block} :
    newFromSlice key name = .ok mac ↔ mac.val = key := by
  unfold newFromSlice
  split
  · next h =>
      rw [Exec.ok.injEq]
      exact ⟨fun hk => hk ▸ rfl, fun hk => Subtype.ext hk.symm⟩
  · next h => simpa using fun hk : mac.val = key => h (hk ▸ mac.2)

theorem fullCmac_eq_ok_of_input {sCmac chaining full data : Bytes} {tag : UInt32} {n : Nat} :
    fullCmac C sCmac chaining tag n data = .ok full ↔
      chaining.length = keyLen ∧ n ≤ 0xFFFF ∧
        ∃ mac : Block, mac.val = sCmac ∧ (C.cmac mac (cmacInput chaining tag n data)).val = full := by
  simp only [fullCmac, encodedLength, Exec.ite_err_eq_ok, Exec.bind_eq_ok, newFromSlice_eq_ok,
    Exec.ok.injEq, cmacInput, not_not, Nat.not_lt]
  constructor
  · rintro ⟨hc, mac, hmac, _, ⟨hlen, rfl⟩, hfull⟩
    exact ⟨hc, hlen, mac, hmac, hfull⟩
  · rintro ⟨hc, hlen, mac, hmac, hfull⟩
    exact ⟨hc, mac, hmac, _, ⟨hlen, rfl⟩, hfull⟩

theorem fullCmac_eq_ok {sCmac chaining full data : Bytes} {tag : UInt32} :
    fullCmac C sCmac chaining tag (data.length + cmacLen) data = .ok full ↔
      chaining.length = keyLen ∧ data.length + cmacLen ≤ 0xFFFF ∧
        ∃ mac : Block, mac.val = sCmac ∧ (C.cmac mac (macInput chaining tag data)).val = full :=
  fullCmac_eq_ok_of_input

/-- `full_cmac` fails, or returns a block from a chaining value that is one. -/
theorem fullCmac_cases (C : Ciphers) (sCmac chaining : Bytes) (tag : UInt32) (n : Nat)
    (data : Bytes) :
    (∃ e, fullCmac C sCmac chaining tag n data = .err e) ∨
      ∃ full, fullCmac C sCmac chaining tag n data = .ok full ∧
        full.length = keyLen ∧ chaining.length = full.length := by
  unfold fullCmac newFromSlice encodedLength
  split
  · exact .inl ⟨_, rfl⟩
  · next hc =>
      rw [not_not] at hc
      split
      · split
        · exact .inl ⟨_, rfl⟩
        · exact .inr ⟨_, rfl, (C.cmac _ _).2, hc.trans (C.cmac _ _).2.symm⟩
      · exact .inl ⟨_, rfl⟩

theorem computeCmac_of_ok {sCmac chaining full data : Bytes} {tag : UInt32} {n : Nat}
    (h : fullCmac C sCmac chaining tag n data = .ok full) (hlen : full.length = keyLen) :
    computeCmac C sCmac chaining tag n data = .ok (full.take cmacLen) := by
  rw [computeCmac, h, Exec.ok_bind]
  simp [hlen, cmacLen, keyLen]

theorem computeCmac_of_err {sCmac chaining data : Bytes} {tag : UInt32} {n : Nat} {e : Error}
    (h : fullCmac C sCmac chaining tag n data = .err e) :
    computeCmac C sCmac chaining tag n data = .err e := by
  rw [computeCmac, h, Exec.err_bind]

end CmacSpec

/-! ### One step of the chain

Both sides compute the C-MAC of a block and go on with it as the chaining value. `Advances` is
that step, and each of the four calls is said in terms of it: a wrap call makes the block that
advances the chain, an unwrap call accepts the block that does, and no other. -/

section Step

variable {C : Ciphers} {keys : BspSessionKeys} {chaining chaining' : Bytes}

/-- `tlv` carries the C-MAC of its tag and data under `chaining`, and `chaining'` is that
C-MAC before truncation. -/
def Advances (C : Ciphers) (keys : BspSessionKeys) (chaining : Bytes) (tlv : ProtectedTlv)
    (chaining' : Bytes) : Prop :=
  fullCmac C keys.sMac chaining tlv.tag (tlv.data.length + cmacLen) tlv.data = .ok chaining' ∧
    tlv.cmac = chaining'.take cmacLen

theorem Advances.length_left {tlv : ProtectedTlv} (h : Advances C keys chaining tlv chaining') :
    chaining.length = keyLen :=
  (fullCmac_eq_ok.mp h.1).1

theorem Advances.length_right {tlv : ProtectedTlv} (h : Advances C keys chaining tlv chaining') :
    chaining'.length = keyLen := by
  obtain ⟨-, -, mac, -, rfl⟩ := fullCmac_eq_ok.mp h.1
  exact (C.cmac _ _).2

theorem Advances.length_data_le {tlv : ProtectedTlv}
    (h : Advances C keys chaining tlv chaining') : tlv.data.length + cmacLen ≤ 0xFFFF :=
  (fullCmac_eq_ok.mp h.1).2.1

theorem Advances.length_cmac {tlv : ProtectedTlv}
    (h : Advances C keys chaining tlv chaining') : tlv.cmac.length = cmacLen := by
  rw [h.2, List.length_take, h.length_right]
  rfl

/-- The chaining value after a block is a function of the one before it and the block's tag
and data. -/
theorem Advances.unique {tlv tlv' : ProtectedTlv} {chaining'' : Bytes}
    (h : Advances C keys chaining tlv chaining') (h' : Advances C keys chaining tlv' chaining'')
    (htag : tlv.tag = tlv'.tag) (hdata : tlv.data = tlv'.data) :
    chaining' = chaining'' ∧ tlv = tlv' := by
  have heq : (Exec.ok chaining' : Exec Bytes) = .ok chaining'' := by
    rw [← h.1, ← h'.1, htag, hdata]
  cases heq
  cases tlv
  cases tlv'
  dsimp only at htag hdata
  subst htag hdata
  exact ⟨rfl, by rw [ProtectedTlv.mk.injEq]; exact ⟨rfl, rfl, h.2.trans h'.2.symm⟩⟩

theorem wrapMacOnly_eq_ok {tag : UInt32} {plaintext : Bytes} {tlv : ProtectedTlv} :
    wrapMacOnly C keys tag plaintext chaining = (.ok tlv, chaining') ↔
      tlv.tag = tag ∧ tlv.data = plaintext ∧ Advances C keys chaining tlv chaining' := by
  rw [wrapMacOnly, Chained.read_bind]
  rcases fullCmac_cases C keys.sMac chaining tag (plaintext.length + cmacLen) plaintext with
    ⟨e, he⟩ | ⟨full, hf, hlen, hcopy⟩
  · rw [computeCmac_of_err he, Chained.lift_err_bind]
    constructor
    · intro h
      cases h
    · rintro ⟨rfl, rfl, h, -⟩
      rw [he] at h
      cases h
  · rw [computeCmac_of_ok hf hlen, hf, Chained.lift_ok_bind, Chained.lift_ok_bind,
      Chained.copyFromSlice_bind hcopy, Chained.pure_apply]
    constructor
    · intro h
      cases h
      exact ⟨rfl, rfl, hf, rfl⟩
    · rintro ⟨rfl, rfl, h, hmac⟩
      rw [hf] at h
      cases h
      rw [← hmac]

/-- After the encryption the call is `wrap_mac_only` on the ciphertext. -/
theorem wrapEncrypt_eq_bind (tag : UInt32) (plaintext : Bytes) (blockNumber : UInt32) :
    wrapEncrypt C keys tag plaintext blockNumber chaining =
      (Chained.lift (Cbc128.encrypt C keys.sEnc plaintext blockNumber) >>=
        wrapMacOnly C keys tag) chaining := by
  rw [wrapEncrypt, Chained.read_bind]
  cases Cbc128.encrypt C keys.sEnc plaintext blockNumber <;> rfl

theorem wrapEncrypt_eq_ok {tag : UInt32} {plaintext : Bytes} {blockNumber : UInt32}
    {tlv : ProtectedTlv} :
    wrapEncrypt C keys tag plaintext blockNumber chaining = (.ok tlv, chaining') ↔
      tlv.tag = tag ∧ Cbc128.encrypt C keys.sEnc plaintext blockNumber = .ok tlv.data ∧
        Advances C keys chaining tlv chaining' := by
  rw [wrapEncrypt_eq_bind]
  cases henc : Cbc128.encrypt C keys.sEnc plaintext blockNumber with
  | ok ciphertext =>
      rw [Chained.lift_ok_bind, wrapMacOnly_eq_ok, Exec.ok.injEq]
      exact and_congr_right fun _ => and_congr_left fun _ => eq_comm
  | err e => simp
  | panic => simp

/-- What the check of a received block does when the block fits the chain. -/
theorem Advances.computeCmac {tlv : ProtectedTlv} (h : Advances C keys chaining tlv chaining') :
    computeCmac C keys.sMac chaining tlv.tag (tlv.data.length + cmacLen) tlv.data =
      .ok tlv.cmac := by
  rw [h.2]
  exact computeCmac_of_ok h.1 h.length_right

/-- The check of a received block fails when the block does not fit the chain, whatever would be
done behind it. -/
theorem check_of_not_advances {α : Type} {tlv : ProtectedTlv} (next : Bytes → Chained α)
    (h : ∀ chaining', ¬ Advances C keys chaining tlv chaining') :
    ∃ e, (Chained.lift (computeCmac C keys.sMac chaining tlv.tag (tlv.data.length + cmacLen)
        tlv.data) >>= fun expected =>
      if !Kdf.constantTimeEq expected tlv.cmac then Chained.lift (.err .verificationFailed)
      else next expected) chaining = (.err e, chaining) := by
  rcases fullCmac_cases C keys.sMac chaining tlv.tag (tlv.data.length + cmacLen) tlv.data with
    ⟨e, he⟩ | ⟨full, hf, hlen, -⟩
  · exact ⟨e, by rw [computeCmac_of_err he, Chained.lift_err_bind]⟩
  · refine ⟨.verificationFailed, ?_⟩
    have hne : ¬ Kdf.constantTimeEq (full.take cmacLen) tlv.cmac = true := fun heq =>
      h full ⟨hf, (Kdf.constantTimeEq_iff.mp heq).symm⟩
    rw [computeCmac_of_ok hf hlen, Chained.lift_ok_bind, if_pos (by simpa using hne)]
    rfl

theorem unwrapEncrypt_of_advances {tlv : ProtectedTlv} {blockNumber : UInt32}
    (h : Advances C keys chaining tlv chaining') :
    unwrapEncrypt C keys tlv blockNumber chaining =
      match Cbc128.decrypt C keys.sEnc tlv.data blockNumber with
      | .ok plaintext => (.ok plaintext, chaining')
      | .err e => (.err e, chaining)
      | .panic => (.panic, chaining) := by
  rw [unwrapEncrypt, Chained.read_bind, h.computeCmac, Chained.lift_ok_bind,
    if_neg (by simp [Kdf.constantTimeEq_iff])]
  cases Cbc128.decrypt C keys.sEnc tlv.data blockNumber with
  | ok plaintext =>
      rw [Chained.lift_ok_bind, h.1, Chained.lift_ok_bind,
        Chained.copyFromSlice_bind (h.length_left.trans h.length_right.symm), Chained.pure_apply]
  | err e => rw [Chained.lift_err_bind]
  | panic => rw [Chained.lift_panic_bind]

theorem unwrapEncrypt_of_not_advances {tlv : ProtectedTlv} {blockNumber : UInt32}
    (h : ∀ chaining', ¬ Advances C keys chaining tlv chaining') :
    ∃ e, unwrapEncrypt C keys tlv blockNumber chaining = (.err e, chaining) := by
  rw [unwrapEncrypt, Chained.read_bind]
  exact check_of_not_advances _ h

theorem unwrapMacOnly_of_advances {tlv : ProtectedTlv}
    (h : Advances C keys chaining tlv chaining') :
    unwrapMacOnly C keys tlv chaining = (.ok tlv.data, chaining') := by
  rw [unwrapMacOnly, Chained.read_bind, h.computeCmac, Chained.lift_ok_bind,
    if_neg (by simp [Kdf.constantTimeEq_iff]), h.1, Chained.lift_ok_bind,
    Chained.copyFromSlice_bind (h.length_left.trans h.length_right.symm), Chained.pure_apply]

theorem unwrapMacOnly_of_not_advances {tlv : ProtectedTlv}
    (h : ∀ chaining', ¬ Advances C keys chaining tlv chaining') :
    ∃ e, unwrapMacOnly C keys tlv chaining = (.err e, chaining) := by
  rw [unwrapMacOnly, Chained.read_bind]
  exact check_of_not_advances _ h

theorem unwrapEncrypt_eq_ok {tlv : ProtectedTlv} {blockNumber : UInt32} {plaintext : Bytes} :
    unwrapEncrypt C keys tlv blockNumber chaining = (.ok plaintext, chaining') ↔
      Advances C keys chaining tlv chaining' ∧
        Cbc128.decrypt C keys.sEnc tlv.data blockNumber = .ok plaintext := by
  constructor
  · intro h
    by_cases hadv : ∃ next, Advances C keys chaining tlv next
    · obtain ⟨next, hadv⟩ := hadv
      rw [unwrapEncrypt_of_advances hadv] at h
      cases hdec : Cbc128.decrypt C keys.sEnc tlv.data blockNumber <;> rw [hdec] at h <;> cases h
      exact ⟨hadv, rfl⟩
    · obtain ⟨e, he⟩ := unwrapEncrypt_of_not_advances (not_exists.mp hadv)
      rw [he] at h
      cases h
  · rintro ⟨hadv, hdec⟩
    rw [unwrapEncrypt_of_advances hadv, hdec]

theorem unwrapMacOnly_eq_ok {tlv : ProtectedTlv} {plaintext : Bytes} :
    unwrapMacOnly C keys tlv chaining = (.ok plaintext, chaining') ↔
      Advances C keys chaining tlv chaining' ∧ tlv.data = plaintext := by
  constructor
  · intro h
    by_cases hadv : ∃ next, Advances C keys chaining tlv next
    · obtain ⟨next, hadv⟩ := hadv
      rw [unwrapMacOnly_of_advances hadv] at h
      cases h
      exact ⟨hadv, rfl⟩
    · obtain ⟨e, he⟩ := unwrapMacOnly_of_not_advances (not_exists.mp hadv)
      rw [he] at h
      cases h
  · rintro ⟨hadv, rfl⟩
    exact unwrapMacOnly_of_advances hadv

end Step

/-! ### Failing calls leave the chain alone -/

section Atomic

variable {C : Ciphers} {keys : BspSessionKeys}

/-- A call that always returns, and that does not touch the buffer when it returns an `Err`. -/
def Chained.Atomic {α : Type} (x : Chained α) : Prop :=
  ∀ buf, (∃ a buf', x buf = (.ok a, buf')) ∨ ∃ e, x buf = (.err e, buf)

theorem wrapMacOnly_atomic (tag : UInt32) (plaintext : Bytes) :
    (wrapMacOnly C keys tag plaintext).Atomic := by
  intro chaining
  rcases fullCmac_cases C keys.sMac chaining tag (plaintext.length + cmacLen) plaintext with
    ⟨e, he⟩ | ⟨full, hf, -, -⟩
  · refine .inr ⟨e, ?_⟩
    rw [wrapMacOnly, Chained.read_bind, computeCmac_of_err he, Chained.lift_err_bind]
  · exact .inl ⟨⟨tag, plaintext, full.take cmacLen⟩, full,
      wrapMacOnly_eq_ok.mpr ⟨rfl, rfl, hf, rfl⟩⟩

theorem wrapEncrypt_atomic (tag : UInt32) (plaintext : Bytes) (blockNumber : UInt32) :
    (wrapEncrypt C keys tag plaintext blockNumber).Atomic := by
  intro chaining
  rw [wrapEncrypt_eq_bind]
  cases henc : Cbc128.encrypt C keys.sEnc plaintext blockNumber with
  | ok ciphertext => exact wrapMacOnly_atomic tag ciphertext chaining
  | err e => exact .inr ⟨e, rfl⟩
  | panic => exact absurd henc (Cbc128.encrypt_ne_panic C)

theorem unwrapMacOnly_atomic (tlv : ProtectedTlv) : (unwrapMacOnly C keys tlv).Atomic := by
  intro chaining
  by_cases hadv : ∃ next, Advances C keys chaining tlv next
  · obtain ⟨next, hadv⟩ := hadv
    exact .inl ⟨_, _, unwrapMacOnly_of_advances hadv⟩
  · exact .inr (unwrapMacOnly_of_not_advances (not_exists.mp hadv))

theorem unwrapEncrypt_atomic (tlv : ProtectedTlv) (blockNumber : UInt32) :
    (unwrapEncrypt C keys tlv blockNumber).Atomic := by
  intro chaining
  by_cases hadv : ∃ next, Advances C keys chaining tlv next
  · obtain ⟨next, hadv⟩ := hadv
    rw [unwrapEncrypt_of_advances hadv]
    cases hdec : Cbc128.decrypt C keys.sEnc tlv.data blockNumber with
    | ok plaintext => exact .inl ⟨_, _, rfl⟩
    | err e => exact .inr ⟨e, rfl⟩
    | panic => exact absurd hdec (Cbc128.decrypt_ne_panic C)
  · exact .inr (unwrapEncrypt_of_not_advances (not_exists.mp hadv))

end Atomic

/-! ### Tags, encoding and decoding

A tag is a number in the crate and its identifier octets on the wire. `encodedTag` drops zero
octets in front, and `read_tlv` reads one or two octets, so that the tags that survive are those
of `IsTag`. That is what `decode_encode` asks of a tag. -/

section Encoding

/-- A tag that is one or two BER identifier octets, read as a big-endian number. -/
def IsTag (tag : UInt32) : Prop := ∃ ts, TagOctets tag.toNat ts

theorem isTag_iff {tag : UInt32} : IsTag tag ↔
    (tag.toNat < 0x100 ∧ tag.toNat % 32 ≠ 31) ∨
      (tag.toNat < 0x10000 ∧ tag.toNat / 0x100 % 32 = 31) := by
  constructor
  · rintro ⟨ts, hts⟩
    generalize tag.toNat = n at hts
    cases hts with
    | @one b hb => exact .inl ⟨b.toNat_lt, hb⟩
    | @two a b ha =>
        have hlta := a.toNat_lt
        have hltb := b.toNat_lt
        exact .inr ⟨by omega, by omega⟩
  · rintro (⟨hlt, hlow⟩ | ⟨hlt, hhigh⟩)
    · have hb : (UInt8.ofNat tag.toNat).toNat = tag.toNat := by simp; omega
      exact ⟨_, hb ▸ TagOctets.one (b := UInt8.ofNat tag.toNat) (by rw [hb]; exact hlow)⟩
    · have ha : (UInt8.ofNat (tag.toNat / 0x100)).toNat = tag.toNat / 0x100 := by simp; omega
      have hb : (UInt8.ofNat tag.toNat).toNat = tag.toNat % 0x100 := by simp
      have htag : tag.toNat = (UInt8.ofNat (tag.toNat / 0x100)).toNat * 256 +
          (UInt8.ofNat tag.toNat).toNat := by rw [ha, hb]; omega
      have htwo := TagOctets.two (a := UInt8.ofNat (tag.toNat / 0x100))
        (b := UInt8.ofNat tag.toNat) (by rw [ha]; exact hhigh)
      rw [← htag] at htwo
      exact ⟨_, htwo⟩

instance : DecidablePred IsTag := fun _ => decidable_of_iff _ isTag_iff.symm

/-- `encoded_tag` writes the identifier octets back. -/
theorem encodedTag_eq {tag : UInt32} {ts : Bytes} (h : TagOctets tag.toNat ts) :
    encodedTag tag = ts := by
  generalize hn : tag.toNat = n at h
  have hle : ∀ m : UInt32, tag ≤ m ↔ n ≤ m.toNat := fun m => by rw [UInt32.le_iff_toNat_le, hn]
  cases h with
  | @one b hb =>
      have hlt := b.toNat_lt
      rw [encodedTag, if_pos ((hle _).mpr (by simp; omega))]
      congr 1
      rw [← UInt8.toNat_inj, UInt32.toNat_toUInt8, hn]
      omega
  | @two a b ha =>
      have hlta := a.toNat_lt
      have hltb := b.toNat_lt
      rw [encodedTag, if_neg (by rw [hle]; simp; omega), if_pos ((hle _).mpr (by simp; omega))]
      congr 1
      · rw [← UInt8.toNat_inj, UInt32.toNat_toUInt8, UInt32.toNat_shiftRight, hn]
        simp [Nat.shiftRight_eq_div_pow]
        omega
      · congr 1
        rw [← UInt8.toNat_inj, UInt32.toNat_toUInt8, hn]
        omega

theorem IsTag.tagOctets {tag : UInt32} (h : IsTag tag) :
    TagOctets tag.toNat (encodedTag tag) := by
  obtain ⟨ts, hts⟩ := h
  rwa [encodedTag_eq hts]

/-- What is fed to CMAC determines the chaining value, the tag, the final length and the data. -/
theorem cmacInput_inj {chaining chaining' data data' : Bytes} {tag tag' : UInt32} {n n' : Nat}
    (hc : chaining.length = chaining'.length) (ht : IsTag tag) (ht' : IsTag tag')
    (hn : n ≤ 0xFFFF) (hn' : n' ≤ 0xFFFF)
    (h : cmacInput chaining tag n data = cmacInput chaining' tag' n' data') :
    chaining = chaining' ∧ tag = tag' ∧ n = n' ∧ data = data' := by
  -- Peel the fields off one by one: the chaining values are equally long, tags and lengths are
  -- self-delimiting, and what remains is the data.
  simp only [cmacInput, List.append_assoc] at h
  obtain ⟨hchain, hrest⟩ := List.append_inj h hc
  obtain ⟨htag, -, hbody⟩ := ht.tagOctets.append_inj ht'.tagOctets hrest
  obtain ⟨hlen, -, hdata⟩ := (Der.derLength_spec hn).append_inj (Der.derLength_spec hn') hbody
  exact ⟨hchain, UInt32.toNat_inj.mp htag, hlen, hdata⟩

/-- The C-MAC input determines the chaining value, the tag and the data, whatever their
lengths. -/
theorem macInput_inj {chaining chaining' data data' : Bytes} {tag tag' : UInt32}
    (hc : chaining.length = chaining'.length) (ht : IsTag tag) (ht' : IsTag tag')
    (hd : data.length + cmacLen ≤ 0xFFFF) (hd' : data'.length + cmacLen ≤ 0xFFFF)
    (h : macInput chaining tag data = macInput chaining' tag' data') :
    chaining = chaining' ∧ tag = tag' ∧ data = data' := by
  obtain ⟨hchain, htag, -, hdata⟩ := cmacInput_inj hc ht ht' hd hd' h
  exact ⟨hchain, htag, hdata⟩

/-- `decode` reads the element its input starts with, and takes the last 8 octets of the content
for the C-MAC. -/
theorem decode_eq_ok {bytes : Bytes} {tlv : ProtectedTlv} : decode bytes = .ok tlv ↔
    ∃ ts os rest, bytes = ts ++ os ++ (tlv.data ++ tlv.cmac) ++ rest ∧
      TagOctets tlv.tag.toNat ts ∧ LengthOctets (tlv.data ++ tlv.cmac).length os ∧
      tlv.cmac.length = cmacLen := by
  constructor
  · intro h
    simp only [decode, Exec.bind_eq_ok, Exec.mapErr_eq_ok, Prod.exists, readTlv_eq_ok,
      Exec.ite_err_eq_ok, slice_eq_ok, sliceFrom_eq_ok] at h
    obtain ⟨tag, value, _, ⟨ts, os, rest, rfl, hts, hos, -⟩, hlen, _, ⟨-, rfl⟩, _, ⟨-, rfl⟩, h⟩ := h
    cases h
    have hvalue : (value.drop 0).take (value.length - cmacLen - 0) ++
        value.drop (value.length - cmacLen) = value := by
      rw [List.drop_zero, Nat.sub_zero, List.take_append_drop]
    refine ⟨ts, os, rest, ?_, ?_, ?_, ?_⟩
    · rw [hvalue]
    · rwa [UInt16.toNat_toUInt32]
    · rwa [hvalue]
    · rw [List.length_drop]
      omega
  · rintro ⟨ts, os, rest, rfl, hts, hos, hc⟩
    have htag : tlv.tag.toUInt16.toNat = tlv.tag.toNat := by
      have hlt := hts.lt
      rw [UInt32.toNat_toUInt16]
      omega
    have hread : readTlv (ts ++ os ++ (tlv.data ++ tlv.cmac) ++ rest) =
        .ok (tlv.tag.toUInt16, tlv.data ++ tlv.cmac,
          ts.length + os.length + (tlv.data ++ tlv.cmac).length) :=
      readTlv_eq_ok.mpr ⟨ts, os, rest, rfl, htag ▸ hts, hos, rfl⟩
    have hback : tlv.tag.toUInt16.toUInt32 = tlv.tag := by
      rw [← UInt32.toNat_inj, UInt16.toNat_toUInt32, htag]
    rw [decode, hread]
    simp [hc, hback, cmacLen]

theorem decode_ne_panic (bytes : Bytes) : decode bytes ≠ .panic := by
  intro h
  simp only [decode, Exec.bind_eq_panic, Exec.mapErr_eq_panic, readTlv_ne_panic,
    Exec.ite_err_eq_panic, slice_eq_panic, sliceFrom_eq_panic, false_or] at h
  obtain ⟨_, -, -, h | ⟨_, -, h | ⟨_, -, h⟩⟩⟩ := h
  · omega
  · omega
  · cases h

/-- Decoding undoes encoding, whatever follows on the wire. -/
theorem decode_encode {tlv : ProtectedTlv} (ht : IsTag tlv.tag) (hc : tlv.cmac.length = cmacLen)
    (hd : tlv.data.length + cmacLen ≤ 0xFFFF) (rest : Bytes) :
    decode (encode tlv ++ rest) = .ok tlv := by
  refine decode_eq_ok.mpr ⟨encodedTag tlv.tag, derLength (tlv.data ++ tlv.cmac).length, rest, rfl,
    ht.tagOctets, ?_, hc⟩
  exact Der.derLength_spec (by rw [List.length_append, hc]; exact hd)

/-- The tags `decode` returns are the BER tags of one or two octets. -/
theorem decode_isTag {bytes : Bytes} {tlv : ProtectedTlv} (h : decode bytes = .ok tlv) :
    IsTag tlv.tag := by
  obtain ⟨ts, _, _, -, hts, -⟩ := decode_eq_ok.mp h
  exact ⟨ts, hts⟩

end Encoding
end Bsp
end EuiccCrypto
