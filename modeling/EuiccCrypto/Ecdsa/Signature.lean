import EuiccCrypto.Ecdsa
import EuiccCrypto.Wire

/-!
# Raw signatures

The part of `ecdsa.rs` that SGP.22 uses: signatures as 64 octets `r‖s`, beside the DER of
certificates, and the `5F37` field of `wire.rs` that carries them. `RawLib` is the raw form in the
elliptic-curve crates, and `RawLib.Documented` what they promise of it.

* `forms_agree`: a `Signature` that the crate hands out is valid, and its raw and its DER form are
  accepted by the same keys for the same messages.
* `parseSignatureOn_exact`: what is accepted as a signature field.
-/

namespace EuiccCrypto

open Octets Tlv

/-- `SIGNATURE_LEN`: two 32-octet scalars. -/
abbrev signatureLen : Nat := 64

/-- The raw form of signatures in the elliptic-curve crates. -/
structure RawLib (E : EcLib) where
  fromSlice : ∀ c, Bytes → Option (E.Signature c)
  toBytes : ∀ c, E.Signature c → Bytes

/-- What the crates promise of the two forms of a signature: each is read back, the raw one has 64
octets, and the DER one is not empty. -/
structure RawLib.Documented {E : EcLib} (R : RawLib E) : Prop where
  fromSlice_toBytes : ∀ c sig, R.fromSlice c (R.toBytes c sig) = some sig
  length_toBytes : ∀ c sig, (R.toBytes c sig).length = signatureLen
  fromDer_toDer : ∀ c sig, E.fromDer c (E.toDer c sig) = some sig
  toDer_ne_nil : ∀ c sig, E.toDer c sig ≠ []

/-! ### Keys and signatures on either curve -/

/-- `VerifyingKey`: a verifying key on either curve. -/
structure VerifyingKey (E : EcLib) where
  curve : CurveKind
  inner : E.VerifyingKey curve

/-- `CurveSignature`: an ECDSA signature on either curve. -/
structure CurveSignature (E : EcLib) where
  curve : CurveKind
  inner : E.Signature curve

/-- A raw `r‖s` signature, tagged with the curve it is valid on. -/
structure Signature where
  curve : CurveKind
  bytes : Bytes
  deriving DecidableEq

section Api

variable {E : EcLib} (R : RawLib E)

/-- `CurveSignature::from_slice`: parse a raw `r‖s` signature for `curve`. -/
def CurveSignature.fromSlice (curve : CurveKind) (raw : Bytes) : Exec (CurveSignature E) := do
  let inner ← Exec.okOr (.malformed "signature scalars out of range") (R.fromSlice curve raw)
  .ok { curve, inner }

/-- `CurveSignature::from_der`: parse an ASN.1 DER signature for `curve`. -/
def CurveSignature.fromDer (curve : CurveKind) (der : Bytes) : Exec (CurveSignature E) := do
  let inner ← Exec.okOr (.malformed "invalid DER signature") (E.fromDer curve der)
  .ok { curve, inner }

/-- `CurveSignature::to_bytes`. -/
def CurveSignature.toBytes (sig : CurveSignature E) : Bytes := R.toBytes sig.curve sig.inner

/-- `CurveSignature::to_der`. -/
def CurveSignature.toDer (sig : CurveSignature E) : Exec Bytes :=
  .ok (E.toDer sig.curve sig.inner)

/-- `VerifyingKey::verify`. -/
def VerifyingKey.verify (key : VerifyingKey E) (message : Bytes) (sig : CurveSignature E) :
    Exec Unit :=
  match key, sig with
  | ⟨.p256, k⟩, ⟨.p256, s⟩ =>
    if E.verify .p256 k message s then .ok () else .err .verificationFailed
  | ⟨.brainpoolP256r1, k⟩, ⟨.brainpoolP256r1, s⟩ =>
    if E.verify .brainpoolP256r1 k message s then .ok () else .err .verificationFailed
  -- A curve mismatch is a caller error, not a bad signature.
  | _, _ => .err (.malformed "signature curve does not match the public key curve")

namespace PublicKey

/-- `PublicKey::verifying_key`. -/
def verifyingKey (E : EcLib) (key : PublicKey) : Exec (VerifyingKey E) := do
  let inner ← key.curve.verifyingKey E key.point
  .ok { curve := key.curve, inner }

/-- `PublicKey::parse_signature`. -/
def parseSignature (key : PublicKey) (raw : Bytes) : Exec (CurveSignature E) :=
  if raw.length ≠ signatureLen then
    .err (.malformed ("raw signature must be " ++ toString signatureLen ++ " bytes, got " ++
      toString raw.length))
  else CurveSignature.fromSlice R key.curve raw

/-- `PublicKey::verify`: verify a raw `r‖s` signature over `message`. -/
def verify (key : PublicKey) (message rawSignature : Bytes) : Exec Unit := do
  let sig ← key.parseSignature R rawSignature
  let verifying ← key.verifyingKey E
  verifying.verify message sig

end PublicKey

namespace Signature

/-- `Signature::from_raw`: wrap raw `r‖s` bytes for `curve`. -/
def fromRaw (curve : CurveKind) (bytes : Bytes) : Exec Signature :=
  if bytes.length ≠ signatureLen then
    .err (.malformed ("signature must be " ++ toString signatureLen ++ " bytes, got " ++
      toString bytes.length))
  else do
    let _ ← CurveSignature.fromSlice R curve bytes
    .ok { curve, bytes }

/-- `Signature::try_to_der`: the ASN.1 DER form, reporting failure. -/
def tryToDer (sig : Signature) : Exec Bytes := do
  let s ← CurveSignature.fromSlice R sig.curve sig.bytes
  s.toDer

/-- `Signature::to_der`: the ASN.1 DER form, empty on failure. -/
def toDer (sig : Signature) : Bytes := (sig.tryToDer R).ok?.getD []

end Signature

/-- `KeyPair::sign`: sign `message`, producing a raw `r‖s` signature. -/
def KeyPair.sign (kp : KeyPair E) (message : Bytes) : Exec Signature :=
  let sig : CurveSignature E := { curve := kp.curve, inner := E.sign kp.curve kp.inner message }
  .ok { curve := kp.curve, bytes := sig.toBytes R }

/-- `wire::encode_signature`: encode a signature as a `5F37` OCTET STRING. -/
def Wire.encodeSignature (sig : Signature) : Bytes := Wire.encodeSignatureBytes sig.bytes

/-- `wire::parse_signature_on`: parse a `5F37` OCTET STRING back to a signature on `curve`. -/
def Wire.parseSignatureOn (curve : CurveKind) (data : Bytes) : Exec Signature := do
  Signature.fromRaw R curve (← Wire.parseSignatureBytes data)

/-- `wire::parse_signature`: the same on P-256. -/
def Wire.parseSignature (data : Bytes) : Exec Signature := Wire.parseSignatureOn R .p256 data

end Api

/-! ### When the calls return -/

section Specs

variable {E : EcLib} {R : RawLib E}

theorem CurveSignature.fromSlice_eq_ok {curve : CurveKind} {raw : Bytes} {s : CurveSignature E} :
    CurveSignature.fromSlice R curve raw = .ok s ↔
      ∃ inner, R.fromSlice curve raw = some inner ∧ s = ⟨curve, inner⟩ := by
  simp only [fromSlice, Exec.bind_eq_ok, Exec.okOr_eq_ok, Exec.ok.injEq]
  exact exists_congr fun _ => and_congr_right fun _ => eq_comm

theorem Signature.fromRaw_eq_ok {curve : CurveKind} {bytes : Bytes} {sig : Signature} :
    Signature.fromRaw R curve bytes = .ok sig ↔
      sig = ⟨curve, bytes⟩ ∧ bytes.length = signatureLen ∧ (R.fromSlice curve bytes).isSome := by
  simp only [fromRaw, Exec.ite_err_eq_ok, not_not, Exec.bind_eq_ok,
    CurveSignature.fromSlice_eq_ok, Exec.ok.injEq, Option.isSome_iff_exists]
  constructor
  · rintro ⟨hlen, _, ⟨inner, hinner, -⟩, rfl⟩
    exact ⟨rfl, hlen, inner, hinner⟩
  · rintro ⟨rfl, hlen, inner, hinner⟩
    exact ⟨hlen, _, ⟨inner, hinner, rfl⟩, rfl⟩

theorem Wire.parseSignatureOn_eq_ok_iff {curve : CurveKind} {data : Bytes} {sig : Signature} :
    Wire.parseSignatureOn R curve data = .ok sig ↔
      Wire.parseSignatureBytes data = .ok sig.bytes ∧
        Signature.fromRaw R curve sig.bytes = .ok sig := by
  rw [Wire.parseSignatureOn, Exec.bind_eq_ok]
  constructor
  · rintro ⟨bytes, hparse, hraw⟩
    obtain ⟨rfl, -⟩ := Signature.fromRaw_eq_ok.mp hraw
    exact ⟨hparse, hraw⟩
  · rintro ⟨hparse, hraw⟩
    exact ⟨_, hparse, hraw⟩

/-- Key and signature are read for one curve, so the mismatch does not occur. -/
theorem VerifyingKey.verify_same (curve : CurveKind) (k : E.VerifyingKey curve) (message : Bytes)
    (s : E.Signature curve) :
    VerifyingKey.verify ⟨curve, k⟩ message ⟨curve, s⟩ =
      if E.verify curve k message s then .ok () else .err .verificationFailed := by
  cases curve <;> rfl

/-- `verify_der` is the call on keys and signatures of either curve. -/
theorem PublicKey.verifyDer_eq (key : PublicKey) (message derSignature : Bytes) :
    key.verifyDer E message derSignature = (do
      let sig ← CurveSignature.fromDer key.curve derSignature
      let verifying ← key.verifyingKey E
      verifying.verify message sig) := by
  rw [verifyDer, CurveSignature.fromDer]
  cases Exec.okOr (.malformed "invalid DER signature") (E.fromDer key.curve derSignature) with
  | ok s =>
      rw [Exec.ok_bind, Exec.ok_bind, Exec.ok_bind, PublicKey.verifyingKey]
      cases key.curve.verifyingKey E key.point with
      | ok k => exact (VerifyingKey.verify_same _ _ _ _).symm
      | err e => rfl
      | panic => rfl
  | err e => rfl
  | panic => rfl

end Specs

/-! ### The two forms of a signature

The raw form and the DER form are both written from the library's own signature, and read back
into it. `Signature.Obtained` has the ways to come by a signature, and each of them leaves octets
that the library reads back (`Signature.Obtained.valid`). From there on a verification of either
form is that of the library. -/

section Forms

variable {E : EcLib} {R : RawLib E}

/-- The signatures the crate hands out. -/
inductive Signature.Obtained (R : RawLib E) : Signature → Prop
  | fromRaw {curve : CurveKind} {bytes : Bytes} {sig : Signature} :
      Signature.fromRaw R curve bytes = .ok sig → Obtained R sig
  | sign {kp : KeyPair E} {message : Bytes} {sig : Signature} :
      kp.sign R message = .ok sig → Obtained R sig
  | parsed {curve : CurveKind} {data : Bytes} {sig : Signature} :
      Wire.parseSignatureOn R curve data = .ok sig → Obtained R sig

/-- `sign` does not check what it returns, but that is valid too. -/
theorem Signature.Obtained.valid (hR : R.Documented) {sig : Signature} (h : sig.Obtained R) :
    sig.bytes.length = signatureLen ∧ ∃ inner, R.fromSlice sig.curve sig.bytes = some inner := by
  have hraw : ∀ {curve : CurveKind} {bytes : Bytes}, Signature.fromRaw R curve bytes = .ok sig →
      sig.bytes.length = signatureLen ∧
        ∃ inner, R.fromSlice sig.curve sig.bytes = some inner := by
    intro curve bytes h
    obtain ⟨rfl, hlen, hvalid⟩ := Signature.fromRaw_eq_ok.mp h
    exact ⟨hlen, Option.isSome_iff_exists.mp hvalid⟩
  cases h with
  | fromRaw h => exact hraw h
  | sign h =>
      cases h
      exact ⟨hR.length_toBytes _ _, _, hR.fromSlice_toBytes _ _⟩
  | parsed h => exact hraw (Wire.parseSignatureOn_eq_ok_iff.mp h).2

theorem Signature.tryToDer_of_fromSlice {sig : Signature} {inner : E.Signature sig.curve}
    (h : R.fromSlice sig.curve sig.bytes = some inner) :
    sig.tryToDer R = .ok (E.toDer sig.curve inner) ∧ sig.toDer R = E.toDer sig.curve inner := by
  have htry : sig.tryToDer R = .ok (E.toDer sig.curve inner) := by
    rw [tryToDer, CurveSignature.fromSlice, h]
    rfl
  exact ⟨htry, by rw [toDer, htry]; rfl⟩

/-- The key of a signature's curve reads the two forms as one signature. -/
theorem PublicKey.verify_eq_verifyDer (hR : R.Documented) {sig : Signature}
    (h : sig.Obtained R) {key : PublicKey} (hcurve : key.curve = sig.curve) (message : Bytes) :
    key.verify R message sig.bytes = key.verifyDer E message (sig.toDer R) := by
  obtain ⟨hlen, inner, hinner⟩ := h.valid hR
  have hraw : key.parseSignature R sig.bytes = .ok ⟨sig.curve, inner⟩ := by
    rw [parseSignature, if_neg (by rw [not_not]; exact hlen), hcurve]
    exact CurveSignature.fromSlice_eq_ok.mpr ⟨inner, hinner, rfl⟩
  have hder : CurveSignature.fromDer key.curve (sig.toDer R) =
      .ok (⟨sig.curve, inner⟩ : CurveSignature E) := by
    rw [(Signature.tryToDer_of_fromSlice hinner).2, hcurve, CurveSignature.fromDer,
      hR.fromDer_toDer]
    rfl
  rw [verify, verifyDer_eq, hraw, hder]

/-- `sign` and `sign_der` make the two forms of one signature. -/
theorem KeyPair.signDer_eq (hR : R.Documented) {kp : KeyPair E} {message : Bytes}
    {sig : Signature} (h : kp.sign R message = .ok sig) :
    kp.signDer message = .ok (sig.toDer R) := by
  cases h
  have hinner := hR.fromSlice_toBytes kp.curve (E.sign kp.curve kp.inner message)
  rw [KeyPair.signDer]
  exact congrArg Exec.ok (@Signature.tryToDer_of_fromSlice E R ⟨kp.curve, _⟩ _ hinner).2.symm

/-- **The raw and the DER form agree.** A signature the crate hands out, from raw octets, from a
signature field or by signing, has 64 valid octets and a DER form that is not empty; a key on its
curve decides alike on the two forms, for every message; and signing gives both of them. -/
theorem forms_agree (hR : R.Documented) {sig : Signature} (h : sig.Obtained R) :
    sig.bytes.length = signatureLen ∧ Signature.fromRaw R sig.curve sig.bytes = .ok sig ∧
    sig.tryToDer R = .ok (sig.toDer R) ∧ sig.toDer R ≠ [] ∧
    (∀ key : PublicKey, key.curve = sig.curve → ∀ message,
      key.verify R message sig.bytes = key.verifyDer E message (sig.toDer R)) ∧
    ∀ (kp : KeyPair E) (message : Bytes), kp.sign R message = .ok sig →
      kp.signDer message = .ok (sig.toDer R) := by
  obtain ⟨hlen, inner, hinner⟩ := h.valid hR
  obtain ⟨htry, hder⟩ := Signature.tryToDer_of_fromSlice hinner
  refine ⟨hlen, ?_, ?_, ?_, ?_, fun kp message hsign => KeyPair.signDer_eq hR hsign⟩
  · exact Signature.fromRaw_eq_ok.mpr ⟨rfl, hlen, Option.isSome_iff_exists.mpr ⟨inner, hinner⟩⟩
  · rw [htry, hder]
  · rw [hder]
    exact hR.toDer_ne_nil _ _
  · exact fun key hcurve message => PublicKey.verify_eq_verifyDer hR h hcurve message

/-- A key pair whose DER signatures verify makes raw ones that do. -/
theorem KeyPair.SignaturesVerify.verify (hR : R.Documented) {kp : KeyPair E}
    (h : kp.SignaturesVerify) {message : Bytes} {sig : Signature}
    (hsign : kp.sign R message = .ok sig) :
    kp.publicKey.verify R message sig.bytes = .ok () := by
  have hcurve : kp.publicKey.curve = sig.curve := by
    cases hsign
    rfl
  rw [PublicKey.verify_eq_verifyDer hR (.sign hsign) hcurve]
  exact h message _ (KeyPair.signDer_eq hR hsign)

end Forms

/-! ### Libraries with given signatures

A library that knows finitely many signatures, each by its key and its message. It keeps what a
library promises (`RawLib.ofMade_documented`), so that the results of this development can be
tried with it. -/

/-- A signature with its key and message. -/
structure MadeSignature where
  key : Bytes
  message : Bytes
  raw : Bytes

/-- The INTEGER with the big-endian value `b`, which is not zero. -/
def integerDer (b : Bytes) : Bytes :=
  let digits := b.dropWhile (· = 0)
  encode 0x02 (if 0x80 ≤ digits.headD 0 then 0x00 :: digits else digits)

/-- The DER form: a SEQUENCE of the two scalars. -/
def MadeSignature.der (made : MadeSignature) : Bytes :=
  encode 0x30 (integerDer (made.raw.take 32) ++ integerDer (made.raw.drop 32))

section Made

variable {n : Nat} (made : Fin (n + 1) → MadeSignature)

/-- The signature over the message with the key, or the first one if there is none. -/
def signMade (key message : Bytes) : Fin (n + 1) :=
  ((List.finRange (n + 1)).find? fun i => (made i).key = key ∧ (made i).message = message).getD 0

/-- A library with the signatures `made`, which verifies a signature by making it again. -/
abbrev EcLib.ofMade : EcLib where
  VerifyingKey _ := Bytes
  Signature _ := Fin (n + 1)
  SigningKey _ := Bytes
  fromSec1Bytes c point := if c.onCurve point then some point else none
  toSec1Point _ key := key
  fromDer _ der := (List.finRange (n + 1)).find? fun i => (made i).der = der
  toDer _ i := (made i).der
  verify _ key message i := signMade made key message = i
  fromPkcs8Der _ _ := .error "ASN.1 DER message malformed"
  verifyingKey _ key := key
  sign _ key message := signMade made key message

def RawLib.ofMade : RawLib (EcLib.ofMade made) where
  fromSlice _ raw := (List.finRange (n + 1)).find? fun i => (made i).raw = raw
  toBytes _ i := (made i).raw

variable {made}

/-- The search for what a signature is made of finds it. -/
theorem find?_made {f : Fin (n + 1) → Bytes} (hf : ∀ i j, f i = f j → i = j) (i : Fin (n + 1)) :
    (List.finRange (n + 1)).find? (fun j => f j = f i) = some i := by
  obtain ⟨as, bs, hsplit⟩ := List.append_of_mem (List.mem_finRange i)
  have hnodup : (as ++ i :: bs).Nodup := hsplit ▸ List.nodup_finRange (n + 1)
  refine List.find?_eq_some_iff_append.mpr ⟨by simp, as, bs, hsplit, ?_⟩
  intro j hj
  have hji : j ≠ i := (List.nodup_append.mp hnodup).2.2 j hj i (by simp)
  simpa using fun h => hji (hf _ _ h)

theorem RawLib.ofMade_documented (hraw : ∀ i j, (made i).raw = (made j).raw → i = j)
    (hder : ∀ i j, (made i).der = (made j).der → i = j)
    (hlen : ∀ i, (made i).raw.length = signatureLen) (hne : ∀ i, (made i).der ≠ []) :
    (RawLib.ofMade made).Documented where
  fromSlice_toBytes _ := find?_made hraw
  length_toBytes _ := hlen
  fromDer_toDer _ := find?_made hder
  toDer_ne_nil _ := hne

theorem EcLib.ofMade_signaturesVerify {kp : KeyPair (EcLib.ofMade made)}
    (hder : ∀ i j, (made i).der = (made j).der → i = j)
    (h : kp.curve.onCurve kp.publicKey.point = true) : kp.SignaturesVerify := by
  rintro message _ ⟨⟩
  have hpoint : (EcLib.ofMade made).fromSec1Bytes kp.curve kp.publicKey.point =
      some kp.publicKey.point := if_pos h
  have hsig : (EcLib.ofMade made).fromDer kp.curve (made (signMade made kp.inner message)).der =
      some (signMade made kp.inner message) := find?_made hder _
  rw [PublicKey.verifyDer, KeyPair.publicKey_curve, CurveKind.verifyingKey, hpoint, hsig]
  exact if_pos (decide_eq_true rfl)

end Made

/-- A signature over the word sample. -/
def madeSample : MadeSignature where
  key :=
    [0x04, 0x60, 0xfe, 0xd4, 0xba, 0x25, 0x5a, 0x9d, 0x31, 0xc9, 0x61, 0xeb, 0x74, 0xc6, 0x35,
     0x6d, 0x68, 0xc0, 0x49, 0xb8, 0x92, 0x3b, 0x61, 0xfa, 0x6c, 0xe6, 0x69, 0x62, 0x2e, 0x60,
     0xf2, 0x9f, 0xb6, 0x79, 0x03, 0xfe, 0x10, 0x08, 0xb8, 0xbc, 0x99, 0xa4, 0x1a, 0xe9, 0xe9,
     0x56, 0x28, 0xbc, 0x64, 0xf2, 0xf1, 0xb2, 0x0c, 0x2d, 0x7e, 0x9f, 0x51, 0x77, 0xa3, 0xc2,
     0x94, 0xd4, 0x46, 0x22, 0x99]
  message := "sample".toUTF8.toList
  raw :=
    [0xef, 0xd4, 0x8b, 0x2a, 0xac, 0xb6, 0xa8, 0xfd, 0x11, 0x40, 0xdd, 0x9c, 0xd4, 0x5e, 0x81,
     0xd6, 0x9d, 0x2c, 0x87, 0x7b, 0x56, 0xaa, 0xf9, 0x91, 0xc3, 0x4d, 0x0e, 0xa8, 0x4e, 0xaf,
     0x37, 0x16, 0xf7, 0xcb, 0x1c, 0x94, 0x2d, 0x65, 0x7c, 0x41, 0xd4, 0x36, 0xc7, 0xa1, 0xb6,
     0xe2, 0x9f, 0x65, 0xf3, 0xe9, 0x00, 0xdb, 0xb9, 0xaf, 0xf4, 0x06, 0x4d, 0xc4, 0xab, 0x2f,
     0x84, 0x3a, 0xcd, 0xa8]

/-- Both scalars are negative without a leading zero. -/
example : madeSample.der =
    [0x30, 0x46, 0x02, 0x21, 0x00] ++ madeSample.raw.take 32 ++ [0x02, 0x21, 0x00] ++
      madeSample.raw.drop 32 := by
  decide +kernel

/-- The raw octets that are signed are accepted with the key, as is the DER form. -/
theorem forms_agree_sample :
    let R := RawLib.ofMade fun _ : Fin 1 => madeSample
    let key : PublicKey := { curve := .p256, point := madeSample.key }
    key.verify R madeSample.message madeSample.raw = .ok () ∧
      key.verifyDer (EcLib.ofMade fun _ : Fin 1 => madeSample) madeSample.message
        madeSample.der = .ok () := by
  intro R key
  have hR : R.Documented := RawLib.ofMade_documented (fun _ _ _ => Fin.ext (by omega))
    (fun _ _ _ => Fin.ext (by omega)) (fun _ => rfl) (fun _ => by decide +kernel)
  let kp : KeyPair (EcLib.ofMade fun _ : Fin 1 => madeSample) := ⟨.p256, madeSample.key⟩
  have hsign : kp.sign R madeSample.message = .ok ⟨.p256, madeSample.raw⟩ := rfl
  have hder : (⟨.p256, madeSample.raw⟩ : Signature).toDer R = madeSample.der := by
    decide +kernel
  have hverify : key.verify R madeSample.message madeSample.raw = .ok () := by decide +kernel
  obtain ⟨-, -, -, -, hforms, -⟩ := forms_agree hR (.sign hsign)
  have hboth := hforms key rfl madeSample.message
  rw [hder] at hboth
  exact ⟨hverify, hboth.symm.trans hverify⟩

/-! ### The signature field

A field is two tag octets, a length and the signature. The length is 64, of which the reader takes
two spellings, `40` and `81 40` (`lengthOctets_signatureLen`); one of them is written. -/

section Field

variable {E : EcLib} {R : RawLib E}

/-- The length 64 has two spellings. -/
theorem lengthOctets_signatureLen {os : Bytes} :
    LengthOctets signatureLen os ↔ os = [0x40] ∨ os = [0x81, 0x40] := by
  constructor
  · intro h
    generalize hn : signatureLen = n at h
    cases h with
    | @short b hb =>
        left
        rw [← UInt8.ofNat_toNat (x := b), ← hn]
        rfl
    | @long m d ds hm hle hd =>
        right
        -- The octets after the marker are the shortest spelling of 64.
        have hoctets := beOctets_beValue ds hd
        rw [← hn] at hoctets
        obtain ⟨rfl, rfl⟩ : d = 0x40 ∧ ds = [] := by
          have h64 : beOctets signatureLen = [0x40] := by simp [beOctets, signatureLen]
          rw [h64] at hoctets
          exact ⟨(List.cons.inj hoctets).1.symm, (List.cons.inj hoctets).2.symm⟩
        rw [← UInt8.ofNat_toNat (x := m), hm]
        rfl
  · rintro (rfl | rfl)
    · exact LengthOctets.short (b := 0x40) (by decide)
    · exact @LengthOctets.long 0x81 0x40 [] rfl (by decide) (by decide)

theorem Wire.encodeSignature_eq {sig : Signature} (h : sig.bytes.length = signatureLen) :
    Wire.encodeSignature sig = [0x5f, 0x37, 0x40] ++ sig.bytes := by
  rw [Wire.encodeSignature, Wire.encodeSignatureBytes, h]
  rfl

/-- **What is a signature field.** Exactly the encoding of a signature is accepted, or that with its
length in the long form, whatever follows; and it is the signature with those octets, on the curve
that was asked for, if they are valid there. -/
theorem parseSignatureOn_exact (R : RawLib E) (curve : CurveKind) (data : Bytes)
    (sig : Signature) :
    Wire.parseSignatureOn R curve data = .ok sig ↔
      (sig.curve = curve ∧ sig.bytes.length = signatureLen ∧
        (R.fromSlice curve sig.bytes).isSome) ∧
      ∃ rest, data = Wire.encodeSignature sig ++ rest ∨
        data = [0x5f, 0x37, 0x81, 0x40] ++ sig.bytes ++ rest := by
  rw [Wire.parseSignatureOn_eq_ok_iff, Wire.parseSignatureBytes_eq_ok, Signature.fromRaw_eq_ok]
  constructor
  · rintro ⟨⟨os, rest, hdata, hos⟩, hsig, hlen, hvalid⟩
    refine ⟨⟨by rw [hsig], hlen, hvalid⟩, rest, ?_⟩
    rw [hlen, lengthOctets_signatureLen] at hos
    rw [Wire.encodeSignature_eq hlen, hdata]
    rcases hos with rfl | rfl
    · exact .inl rfl
    · exact .inr rfl
  · rintro ⟨⟨hcurve, hlen, hvalid⟩, rest, hdata⟩
    rw [Wire.encodeSignature_eq hlen] at hdata
    refine ⟨?_, by rw [← hcurve], hlen, hvalid⟩
    rcases hdata with rfl | rfl
    · exact ⟨[0x40], rest, rfl, hlen ▸ lengthOctets_signatureLen.mpr (.inl rfl)⟩
    · exact ⟨[0x81, 0x40], rest, rfl, hlen ▸ lengthOctets_signatureLen.mpr (.inr rfl)⟩

/-- The field of a signature the crate hands out has 67 octets and is read back. -/
theorem Signature.Obtained.field_round_trip (hR : R.Documented) {sig : Signature}
    (h : sig.Obtained R) : (Wire.encodeSignature sig).length = 67 ∧
      ∀ rest, Wire.parseSignatureOn R sig.curve (Wire.encodeSignature sig ++ rest) = .ok sig := by
  obtain ⟨hlen, inner, hinner⟩ := h.valid hR
  constructor
  · rw [Wire.encodeSignature_eq hlen, List.length_append, hlen]
    rfl
  · intro rest
    exact Wire.parseSignatureOn_eq_ok_iff.mpr ⟨Wire.parseSignatureBytes_eq_ok.mpr
        ⟨[0x40], rest, by rw [Wire.encodeSignature_eq hlen]; rfl,
          hlen ▸ lengthOctets_signatureLen.mpr (.inl rfl)⟩,
      Signature.fromRaw_eq_ok.mpr
        ⟨rfl, hlen, Option.isSome_iff_exists.mpr ⟨inner, hinner⟩⟩⟩

end Field

end EuiccCrypto
