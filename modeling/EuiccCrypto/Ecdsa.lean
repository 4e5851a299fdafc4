import EuiccCrypto.Exec

/-!
# Keys and certificate signatures

The part of `ecdsa.rs` that certificates use: public keys as uncompressed points, key pairs, and
ASN.1 DER signatures. The curve arithmetic comes from the `p256` and `bp256` crates, which are
the parameter `EcLib`; nothing is assumed of it here.
-/

namespace EuiccCrypto

open Octets

/-- Which curve a key or signature is defined over. -/
inductive CurveKind
  | p256
  | brainpoolP256r1
  deriving DecidableEq, Repr

/-- `CurveKind::oid`: the OID of the curve as it appears in an `AlgorithmIdentifier`. -/
def CurveKind.oid : CurveKind → Bytes
  | .p256 => [0x2A, 0x86, 0x48, 0xCE, 0x3D, 0x03, 0x01, 0x07]
  | .brainpoolP256r1 => [0x2B, 0x24, 0x03, 0x03, 0x02, 0x08, 0x01, 0x01, 0x07]

/-- The name a curve has in error texts. -/
def CurveKind.name : CurveKind → String
  | .p256 => "P-256"
  | .brainpoolP256r1 => "brainpoolP256r1"

/-- `PUBLIC_KEY_LEN`: `0x04` and two 32-octet coordinates. -/
abbrev publicKeyLen : Nat := 65

/-- The types and operations of the elliptic-curve crates, for each curve. -/
structure EcLib where
  VerifyingKey : CurveKind → Type
  Signature : CurveKind → Type
  SigningKey : CurveKind → Type
  fromSec1Bytes : ∀ c, Bytes → Option (VerifyingKey c)
  toSec1Point : ∀ c, VerifyingKey c → Bytes
  fromDer : ∀ c, Bytes → Option (Signature c)
  toDer : ∀ c, Signature c → Bytes
  verify : ∀ c, VerifyingKey c → Bytes → Signature c → Bool
  fromPkcs8Der : ∀ c, Bytes → Except String (SigningKey c)
  verifyingKey : ∀ c, SigningKey c → VerifyingKey c
  sign : ∀ c, SigningKey c → Bytes → Signature c

/-- A public key on a known curve, stored as an SEC1 uncompressed point. -/
structure PublicKey where
  curve : CurveKind
  point : Bytes
  deriving DecidableEq

variable (E : EcLib)

/-- `CurveKind::verifying_key`: parse a point, rejecting anything not on the curve. -/
def CurveKind.verifyingKey (c : CurveKind) (point : Bytes) : Exec (E.VerifyingKey c) :=
  Exec.okOr (.malformed ("public key is not a valid point on " ++ c.name))
    (E.fromSec1Bytes c point)

/-- `PublicKey::from_bytes`: wrap an uncompressed point, rejecting anything not on `curve`. -/
def PublicKey.fromBytes (curve : CurveKind) (bytes : Bytes) : Exec PublicKey :=
  if bytes.length ≠ publicKeyLen ∨ bytes.head? ≠ some 0x04 then
    .err (.malformed ("uncompressed public key must be " ++ toString publicKeyLen ++
      " bytes starting 0x04, got " ++ toString bytes.length ++ " bytes starting " ++
      hexPrefixed (bytes.headD 0)))
  else do
    let _ ← curve.verifyingKey E bytes
    .ok { curve, point := bytes }

/-- `PublicKey::verify_der`: verify an ASN.1 DER signature over `message`. Signature and key
are read for one curve, so the mismatch arm of `VerifyingKey::verify` cannot be reached. -/
def PublicKey.verifyDer (key : PublicKey) (message derSignature : Bytes) : Exec Unit := do
  let sig ← Exec.okOr (.malformed "invalid DER signature") (E.fromDer key.curve derSignature)
  let verifying ← key.curve.verifyingKey E key.point
  if E.verify key.curve verifying message sig then .ok () else .err .verificationFailed

/-- A signing key pair. -/
structure KeyPair where
  curve : CurveKind
  inner : E.SigningKey curve

variable {E}

/-- `KeyPair::from_pkcs8`: load a key pair from PKCS#8 DER on `curve`. -/
def KeyPair.fromPkcs8 (curve : CurveKind) (pkcs8 : Bytes) : Exec (KeyPair E) :=
  match E.fromPkcs8Der curve pkcs8 with
  | .ok inner => .ok { curve, inner }
  | .error e => .err (.malformed ("invalid PKCS#8 private key: " ++ e))

/-- `KeyPair::public_key`: the public half. -/
def KeyPair.publicKey (kp : KeyPair E) : PublicKey where
  curve := kp.curve
  point := E.toSec1Point kp.curve (E.verifyingKey kp.curve kp.inner)

/-- `KeyPair::sign_der`: sign `message`, producing an ASN.1 DER signature. -/
def KeyPair.signDer (kp : KeyPair E) (message : Bytes) : Exec Bytes :=
  .ok (E.toDer kp.curve (E.sign kp.curve kp.inner message))

/-- The key pair's signatures verify under its public key. -/
def KeyPair.SignaturesVerify (kp : KeyPair E) : Prop :=
  ∀ message signature, kp.signDer message = .ok signature →
    kp.publicKey.verifyDer E message signature = .ok ()

@[simp] theorem KeyPair.publicKey_curve (kp : KeyPair E) : kp.publicKey.curve = kp.curve := rfl

/-! ### Points -/

/-- `from_bytes` keeps the curve and the octets it is given. -/
theorem PublicKey.fromBytes_eq_ok {curve : CurveKind} {bytes : Bytes} {pk : PublicKey} :
    PublicKey.fromBytes E curve bytes = .ok pk ↔
      bytes.length = publicKeyLen ∧ bytes.head? = some 0x04 ∧
        (E.fromSec1Bytes curve bytes).isSome ∧ pk = { curve, point := bytes } := by
  simp only [fromBytes, CurveKind.verifyingKey, Exec.ite_err_eq_ok, Exec.bind_eq_ok,
    Exec.okOr_eq_ok, not_or, not_not, Option.isSome_iff_exists, Exec.ok.injEq]
  constructor
  · rintro ⟨⟨hlen, hhead⟩, k, hk, rfl⟩
    exact ⟨hlen, hhead, ⟨k, hk⟩, rfl⟩
  · rintro ⟨hlen, hhead, ⟨k, hk⟩, rfl⟩
    exact ⟨⟨hlen, hhead⟩, k, hk, rfl⟩

theorem PublicKey.fromBytes_ne_panic {curve : CurveKind} {bytes : Bytes} :
    PublicKey.fromBytes E curve bytes ≠ .panic := by
  simp [fromBytes, CurveKind.verifyingKey, Exec.bind_eq_panic]

theorem PublicKey.verifyDer_ne_panic {key : PublicKey} {message derSignature : Bytes} :
    key.verifyDer E message derSignature ≠ .panic := by
  intro h
  simp only [verifyDer, CurveKind.verifyingKey, Exec.bind_eq_panic, Exec.okOr_ne_panic,
    false_or] at h
  obtain ⟨_, -, _, -, h⟩ := h
  split at h <;> cases h

theorem KeyPair.fromPkcs8_ne_panic {curve : CurveKind} {pkcs8 : Bytes} :
    (KeyPair.fromPkcs8 curve pkcs8 : Exec (KeyPair E)) ≠ .panic := by
  unfold fromPkcs8
  split <;> simp

/-! ### The curve equation -/

/-- The field of a curve and the coefficients of `y² = x³ + a·x + b` over it. -/
def CurveKind.equation : CurveKind → Nat × Nat × Nat
  | .p256 =>
    (0xffffffff00000001000000000000000000000000ffffffffffffffffffffffff,
      0xffffffff00000001000000000000000000000000fffffffffffffffffffffffc,
      0x5ac635d8aa3a93e7b3ebbd55769886bc651d06b0cc53b0f63bce3c3e27d2604b)
  | .brainpoolP256r1 =>
    (0xa9fb57dba1eea9bc3e660a909d838d726e3bf623d52620282013481d1f6e5377,
      0x7d5a0975fc2c3057eef67530417affe7fb8055c126dc5c6ce94a4b44f330b5d9,
      0x26dc5c6ce94a4b44f330b5d9bbd77cbf958416295cf7e1ce6bccdc18ff8c07b6)

/-- Whether `point` is the uncompressed encoding of a point on the curve. -/
def CurveKind.onCurve (c : CurveKind) (point : Bytes) : Bool :=
  let (p, a, b) := c.equation
  let x := beValue ((point.drop 1).take 32)
  let y := beValue (point.drop 33)
  point.length = publicKeyLen && point.head? = some 0x04 && x < p && y < p &&
    y * y % p = (x * x * x + a * x + b) % p

/-- A library with the points of the curve equation, in which the signatures listed in `table`
(key, message, signature) are the ones there are. A signing key is given by its point. -/
def EcLib.ofTable (table : List (Bytes × Bytes × Bytes)) : EcLib where
  VerifyingKey _ := Bytes
  Signature _ := Bytes
  SigningKey _ := Bytes
  fromSec1Bytes c point := if c.onCurve point then some point else none
  toSec1Point _ key := key
  fromDer _ der := if table.any fun e => e.2.2 = der then some der else none
  toDer _ sig := sig
  verify _ key message sig := table.contains (key, message, sig)
  fromPkcs8Der _ _ := .error "ASN.1 DER message malformed"
  verifyingKey _ key := key
  sign _ key message :=
    ((table.find? fun e => e.1 = key ∧ e.2.1 = message).map fun e => e.2.2).getD []

/-- A library that signs with the function `sign` of point and message, and verifies a signature
by making it again. -/
def EcLib.ofSigner (sign : Bytes → Bytes → Bytes) : EcLib where
  VerifyingKey _ := Bytes
  Signature _ := Bytes
  SigningKey _ := Bytes
  fromSec1Bytes c point := if c.onCurve point then some point else none
  toSec1Point _ key := key
  fromDer _ der := some der
  toDer _ sig := sig
  verify _ key message sig := sign key message = sig
  fromPkcs8Der _ _ := .error "ASN.1 DER message malformed"
  verifyingKey _ key := key
  sign _ key message := sign key message

theorem EcLib.ofSigner_signaturesVerify {sign : Bytes → Bytes → Bytes}
    {kp : KeyPair (EcLib.ofSigner sign)} (h : kp.curve.onCurve kp.publicKey.point = true) :
    kp.SignaturesVerify := by
  rintro message _ ⟨⟩
  have hpoint : (EcLib.ofSigner sign).fromSec1Bytes kp.curve kp.publicKey.point =
      some kp.publicKey.point := if_pos h
  rw [PublicKey.verifyDer, KeyPair.publicKey_curve, CurveKind.verifyingKey, hpoint]
  exact if_pos (decide_eq_true rfl)

end EuiccCrypto
