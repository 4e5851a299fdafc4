import EuiccCrypto.Pem
import EuiccCrypto.X509.WellFormed

/-!
# Loading the SGP.26 material

`Sgp26VariantO::load_curve_from` of `sgp26.rs` and the key readers it uses. The search for the
point in a public key panics on a body that is too short (`extractSec1Point_eq_panic`), and
`load_ne_panic_iff` says for which files loading does. `load_panics` is a set of files for which
it does.
-/

namespace EuiccCrypto

open Octets

/-- `CurveKind::sgp26_suffix`. -/
def CurveKind.sgp26Suffix : CurveKind → String
  | .p256 => "NIST"
  | .brainpoolP256r1 => "BRP"

namespace Sgp26

open Pem X509

/-! ### Keys -/

/-- `der_length`: encode a DER definite length. -/
def derLength (len : Nat) : Exec Bytes :=
  if len < 0x80 then .ok [UInt8.ofNat len]
  else if len ≤ 0xFF then .ok [0x81, UInt8.ofNat len]
  else if len ≤ 0xFFFF then .ok [0x82, UInt8.ofNat (len >>> 8), UInt8.ofNat len]
  else .err (.certificate "DER length too large")

/-- `sec1_private_to_pkcs8`: wrap a SEC1 `ECPrivateKey` in a PKCS#8 `PrivateKeyInfo`. -/
def sec1PrivateToPkcs8 (curve : CurveKind) (sec1 : Bytes) : Exec Bytes := do
  let algId : Bytes := [0x06, 0x07] ++ idEcPublicKey ++ [0x06, UInt8.ofNat curve.oid.length] ++
    curve.oid
  let algLength ← derLength algId.length
  let sec1Length ← derLength sec1.length
  let inner : Bytes :=
    [0x02, 0x01, 0x00, 0x30] ++ algLength ++ algId ++ [0x04] ++ sec1Length ++ sec1
  let innerLength ← derLength inner.length
  .ok ([0x30] ++ innerLength ++ inner)

section Keys

variable (E : EcLib)

/-- The loop of `extract_sec1_point` over the start positions that are left. -/
def sec1PointFrom (curve : CurveKind) (spki : Bytes) : List Nat → Exec Bytes
  | [] => .err (.certificate "no uncompressed point found in the public key")
  | start :: later => do
    let first ← index spki start
    if first = 0x04 then do
      let candidate ← slice spki start (start + publicKeyLen)
      match PublicKey.fromBytes E curve candidate with
      | .ok _ => .ok candidate
      | .err _ => sec1PointFrom curve spki later
      | .panic => .panic
    else sec1PointFrom curve spki later

/-- `extract_sec1_point`: find the uncompressed point inside a SubjectPublicKeyInfo. -/
def extractSec1Point (curve : CurveKind) (spki : Bytes) : Exec Bytes :=
  sec1PointFrom E curve spki (List.range (spki.length - publicKeyLen + 1))

variable (fmt : Fmt)

/-- `public_key_from_pem`. -/
def publicKeyFromPem (curve : CurveKind) (pem : Bytes) : Exec PublicKey := do
  let der ← pemToDer fmt pem
  let point ← extractSec1Point E curve der
  PublicKey.fromBytes E curve point

/-- `private_key_from_pem`. -/
def privateKeyFromPem (curve : CurveKind) (pem : Bytes) : Exec (KeyPair E) := do
  let der ← pemToDer fmt pem
  match KeyPair.fromPkcs8 curve der with
  | .ok k => .ok k
  | .err _ => do
    -- The published keys are SEC1: wrapped, they are read by the second attempt.
    let pkcs8 ← sec1PrivateToPkcs8 curve der
    KeyPair.fromPkcs8 curve pkcs8
  | .panic => .panic

end Keys

/-! ### Files -/

/-- The fixture directory: how the path of a file is displayed, and what reading it gives. -/
structure Dir where
  display : String → String
  read : String → Except String Bytes

/-- `read`: a file of the directory. -/
def Dir.readFile (dir : Dir) (name : String) : Exec Bytes :=
  match dir.read name with
  | .ok bytes => .ok bytes
  | .error e => .err (.certificate ("SGP.26 fixture " ++ dir.display name ++ ": " ++ e))

/-- The published SGP.26 Variant O material for one curve. -/
structure Sgp26VariantO (E : EcLib) where
  curve : CurveKind
  ci : Certificate E
  eum : Certificate E
  euicc : Certificate E
  euiccPublic : PublicKey
  euiccPrivate : KeyPair E
  eimPublic : PublicKey
  eimPrivate : KeyPair E
  dpAuthPublic : Option PublicKey
  dpAuthPrivate : Option (KeyPair E)
  eumPrivate : Option (KeyPair E)
  dpPb : Option (Certificate E)
  dpPbPrivate : Option (KeyPair E)
  dpAuthCert : Option (Certificate E)
  dsAuthInvalidSignatureCert : Option (Certificate E)
  dsAuthInvalidCurveCertDer : Option Bytes
  dsAuthCert : Option (Certificate E)
  dsAuthPrivate : Option (KeyPair E)
  dpPbAsAuthCert : Option (Certificate E)
  dpPbAsAuthPrivate : Option (KeyPair E)

section Load

variable (E : EcLib) (webpki : Bytes → Bool) (fmt : Fmt) (curve : CurveKind) (dir : Dir)

def loadCertificate (name : String) : Exec (Certificate E) := do
  Certificate.fromDer webpki (← dir.readFile name)

def loadPublicKey (name : String) : Exec PublicKey := do
  publicKeyFromPem E fmt curve (← dir.readFile name)

def loadPrivateKey (name : String) : Exec (KeyPair E) := do
  privateKeyFromPem E fmt curve (← dir.readFile name)

/-- The DPauth certificate: the first of its two names that can be read. -/
def loadDpAuthCertificate (sfx : String) : Exec (Option (Certificate E)) :=
  match (dir.readFile ("CERT_S_SM_DPauth_ECDSA_" ++ sfx ++ ".der")).ok? <|>
      (dir.readFile ("CERT_S_SM_DP2auth_ECDSA_" ++ sfx ++ ".der")).ok? with
  | some der => (Certificate.fromDer webpki der).toOption
  | none => .ok none

/-- `load_curve_from`: load one curve's material from a directory. -/
def loadCurveFrom : Exec (Sgp26VariantO E) := do
  let sfx := curve.sgp26Suffix
  let euicc ← loadCertificate E webpki dir ("CERT_EUICC_ECDSA_" ++ sfx ++ ".der")
  let euiccPublic ← loadPublicKey E fmt curve dir ("PK_EUICC_ECDSA_" ++ sfx ++ ".pem")
  let dpAuthPublic ←
    (loadPublicKey E fmt curve dir ("PK_S_SM_DPauth_ECDSA_" ++ sfx ++ ".pem")).toOption
  let dpAuthPrivate ←
    (loadPrivateKey E fmt curve dir ("SK_S_SM_DPauth_ECDSA_" ++ sfx ++ ".pem")).toOption
  let eumPrivate ← (loadPrivateKey E fmt curve dir ("SK_EUM_ECDSA_" ++ sfx ++ ".pem")).toOption
  let dpPb ← (loadCertificate E webpki dir ("CERT_S_SM_DPpb_ECDSA_" ++ sfx ++ ".der")).toOption
  let dpPbPrivate ←
    (loadPrivateKey E fmt curve dir ("SK_S_SM_DPpb_ECDSA_" ++ sfx ++ ".pem")).toOption
  let dpAuthCert ← loadDpAuthCertificate E webpki dir sfx
  let dsAuthInvalidSignatureCert ←
    (loadCertificate E webpki dir ("CERT_S_SM_DSauth_INV_SIGN_" ++ sfx ++ ".der")).toOption
  let dpPbAsAuthCert ←
    (loadCertificate E webpki dir ("CERT_S_SM_DPpb_VARA_SIG_" ++ sfx ++ ".der")).toOption
  let dpPbAsAuthPrivate ←
    (loadPrivateKey E fmt curve dir ("SK_S_SM_DPpb_SIG_" ++ sfx ++ ".pem")).toOption
  let dsAuthCert ←
    (loadCertificate E webpki dir ("CERT_S_SM_DSauth_VARA_SIG_" ++ sfx ++ ".der")).toOption
  let dsAuthPrivate ←
    (loadPrivateKey E fmt curve dir ("SK_S_SM_DSauth_SIG_" ++ sfx ++ ".pem")).toOption
  let dsAuthInvalidCurveCertDer ← (dir.readFile ("CERT_S_SM_DSauth_INV_CURVE_" ++
    (if curve = .brainpoolP256r1 then "BRP" else "NIST") ++ "192.der")).toOption
  let ci ← loadCertificate E webpki dir ("CERT_CI_ECDSA_" ++ sfx ++ ".der")
  let eum ← loadCertificate E webpki dir ("CERT_EUM_ECDSA_" ++ sfx ++ ".der")
  let euiccPrivate ← loadPrivateKey E fmt curve dir ("SK_EUICC_ECDSA_" ++ sfx ++ ".pem")
  let eimPublic ← loadPublicKey E fmt curve dir ("PK_S_EIMsign_ECDSA_" ++ sfx ++ ".pem")
  let eimPrivate ← loadPrivateKey E fmt curve dir ("SK_S_EIMsign_ECDSA_" ++ sfx ++ ".pem")
  .ok { curve, ci, eum, euicc, euiccPublic, euiccPrivate, eimPublic, eimPrivate, dpAuthPublic,
        dpAuthPrivate, eumPrivate, dpPb, dpPbPrivate, dpAuthCert, dsAuthInvalidSignatureCert,
        dsAuthInvalidCurveCertDer, dsAuthCert, dsAuthPrivate, dpPbAsAuthCert, dpPbAsAuthPrivate }

end Load

/-! ### The search for the point -/

variable {E : EcLib} {fmt : Fmt}

/-- A search that starts nowhere near the end does not panic. -/
theorem sec1PointFrom_ne_panic {curve : CurveKind} {spki : Bytes} {starts : List Nat}
    (h : ∀ start ∈ starts, start + publicKeyLen ≤ spki.length) :
    sec1PointFrom E curve spki starts ≠ .panic := by
  induction starts with
  | nil => simp [sec1PointFrom]
  | cons start later ih =>
      have hstart := h start (by simp)
      have hlater := ih fun s hs => h s (by simp [hs])
      intro hpanic
      simp only [sec1PointFrom, Exec.bind_eq_panic, index_eq_panic] at hpanic
      rcases hpanic with hlen | ⟨first, -, hpanic⟩
      · have : publicKeyLen = 65 := rfl
        omega
      · split at hpanic
        · rw [Exec.bind_eq_panic, slice_eq_panic] at hpanic
          rcases hpanic with hlen | ⟨candidate, -, hpanic⟩
          · omega
          · split at hpanic
            · cases hpanic
            · exact hlater hpanic
            · next hkey => exact PublicKey.fromBytes_ne_panic hkey
        · exact hlater hpanic

/-- The body of a key that is too short to look for a point in. -/
def TooShort (der : Bytes) : Prop :=
  der = [] ∨ der.length < publicKeyLen ∧ der.head? = some 0x04

instance (der : Bytes) : Decidable (TooShort der) := by
  unfold TooShort
  infer_instance

/-- The search for the point panics on a body that is empty, or that starts like a point and
breaks off. -/
theorem extractSec1Point_eq_panic {curve : CurveKind} {spki : Bytes} :
    extractSec1Point E curve spki = .panic ↔ TooShort spki := by
  have hlen65 : publicKeyLen = 65 := rfl
  by_cases hlen : publicKeyLen ≤ spki.length
  · have hstarts : ∀ start ∈ List.range (spki.length - publicKeyLen + 1),
        start + publicKeyLen ≤ spki.length := by
      intro start hs
      have := List.mem_range.mp hs
      omega
    apply iff_of_false (sec1PointFrom_ne_panic hstarts)
    rintro (rfl | ⟨hshort, -⟩)
    · simp at hlen
    · omega
  · -- The subtraction saturates, which leaves one start position, `0`, in a short body.
    have hrange : List.range (spki.length - publicKeyLen + 1) = [0] := by
      rw [Nat.sub_eq_zero_of_le (by omega)]
      rfl
    rw [extractSec1Point, hrange]
    cases spki with
    | nil => exact iff_of_true rfl (.inl rfl)
    | cons b rest =>
        have hindex : index (b :: rest) 0 = .ok b := rfl
        have hslice : slice (b :: rest) 0 (0 + publicKeyLen) = .panic :=
          slice_eq_panic.mpr (by omega)
        rw [sec1PointFrom, hindex, Exec.ok_bind, hslice]
        by_cases hb : b = 0x04
        · rw [if_pos hb]
          exact iff_of_true rfl (.inr ⟨by omega, by rw [hb]; rfl⟩)
        · rw [if_neg hb]
          apply iff_of_false (by simp [sec1PointFrom])
          rintro (h | ⟨-, h⟩)
          · cases h
          · exact hb (by simpa using h)

/-- What the search finds is a part of its input that is a point. -/
theorem sec1PointFrom_eq_ok {curve : CurveKind} {spki p : Bytes} {starts : List Nat}
    (h : sec1PointFrom E curve spki starts = .ok p) :
    p <:+: spki ∧ ∃ pk, PublicKey.fromBytes E curve p = .ok pk := by
  induction starts with
  | nil => cases h
  | cons start later ih =>
      simp only [sec1PointFrom, Exec.bind_eq_ok] at h
      obtain ⟨first, -, h⟩ := h
      split at h
      · obtain ⟨candidate, hslice, h⟩ := Exec.bind_eq_ok.mp h
        split at h
        · next pk hpk =>
            cases h
            obtain ⟨-, rfl⟩ := slice_eq_ok.mp hslice
            exact ⟨(List.take_prefix _ _).isInfix.trans (List.drop_suffix _ _).isInfix, pk, hpk⟩
        · exact ih h
        · cases h
      · exact ih h

theorem publicKeyFromPem_eq_panic {curve : CurveKind} {pem : Bytes} :
    publicKeyFromPem E fmt curve pem = .panic ↔
      ∃ der, pemToDer fmt pem = .ok der ∧ TooShort der := by
  simp only [publicKeyFromPem, Exec.bind_eq_panic, pemToDer_ne_panic, extractSec1Point_eq_panic,
    PublicKey.fromBytes_ne_panic, and_false, exists_false, or_false, false_or]

theorem privateKeyFromPem_ne_panic {curve : CurveKind} {pem : Bytes} :
    privateKeyFromPem E fmt curve pem ≠ .panic := by
  have hlength : ∀ n, derLength n ≠ .panic := by
    intro n
    rw [derLength]
    split
    · simp
    · split
      · simp
      · split <;> simp
  intro h
  simp only [privateKeyFromPem, Exec.bind_eq_panic, pemToDer_ne_panic, false_or] at h
  obtain ⟨der, -, h⟩ := h
  split at h
  · cases h
  · simp [Exec.bind_eq_panic, sec1PrivateToPkcs8, hlength, KeyPair.fromPkcs8_ne_panic] at h
  · next hpanic => exact KeyPair.fromPkcs8_ne_panic hpanic

/-! ### Which files make loading panic -/

section Panics

variable {webpki : Bytes → Bool} {curve : CurveKind} {dir : Dir}

theorem readFile_eq_ok {name : String} {bytes : Bytes} :
    dir.readFile name = .ok bytes ↔ dir.read name = .ok bytes := by
  rw [Dir.readFile]
  cases dir.read name <;> simp

theorem readFile_ne_panic {name : String} : dir.readFile name ≠ .panic := by
  rw [Dir.readFile]
  cases dir.read name <;> simp

theorem loadCertificate_ne_panic {name : String} :
    loadCertificate E webpki dir name ≠ .panic := by
  simp [loadCertificate, Exec.bind_eq_panic, readFile_ne_panic, Certificate.fromDer_ne_panic]

theorem loadPrivateKey_ne_panic {name : String} :
    loadPrivateKey E fmt curve dir name ≠ .panic := by
  simp [loadPrivateKey, Exec.bind_eq_panic, readFile_ne_panic, privateKeyFromPem_ne_panic]

/-- A call whose error is ignored returns if it does not panic. -/
theorem exists_toOption_eq_ok {α : Type} {x : Exec α} :
    (∃ o, x.toOption = .ok o) ↔ x ≠ .panic := by
  cases x <;> simp [Exec.toOption]

theorem exists_loadDpAuthCertificate_eq_ok (sfx : String) :
    ∃ o, loadDpAuthCertificate E webpki dir sfx = .ok o := by
  rw [loadDpAuthCertificate]
  split
  · exact exists_toOption_eq_ok.mpr Certificate.fromDer_ne_panic
  · exact ⟨none, rfl⟩

theorem loadDpAuthCertificate_ne_panic {sfx : String} :
    loadDpAuthCertificate E webpki dir sfx ≠ .panic := by
  obtain ⟨o, ho⟩ : ∃ o, loadDpAuthCertificate E webpki dir sfx = .ok o :=
    exists_loadDpAuthCertificate_eq_ok sfx
  simp [ho]

/-- The file `name` is a PEM file with a key that is too short to look for a point in. -/
def HasShortKey (fmt : Fmt) (dir : Dir) (name : String) : Prop :=
  ∃ pem der, dir.read name = .ok pem ∧ pemToDer fmt pem = .ok der ∧ TooShort der

theorem loadPublicKey_eq_panic {name : String} :
    loadPublicKey E fmt curve dir name = .panic ↔ HasShortKey fmt dir name := by
  simp only [loadPublicKey, Exec.bind_eq_panic, readFile_ne_panic, false_or, readFile_eq_ok,
    publicKeyFromPem_eq_panic, HasShortKey, exists_and_left]

/-- Loading comes to a public key that is too short to look for a point in: the eUICC's, after
its certificate; the DPauth key, after the eUICC's; or the eIM's, after the certificates of the CI
and the EUM and the eUICC's private key. -/
def ReadsShortKey (E : EcLib) (webpki : Bytes → Bool) (fmt : Fmt) (curve : CurveKind)
    (dir : Dir) : Prop :=
  let sfx := curve.sgp26Suffix
  (∃ c, loadCertificate E webpki dir ("CERT_EUICC_ECDSA_" ++ sfx ++ ".der") = .ok c) ∧
    (HasShortKey fmt dir ("PK_EUICC_ECDSA_" ++ sfx ++ ".pem") ∨
      (∃ k, loadPublicKey E fmt curve dir ("PK_EUICC_ECDSA_" ++ sfx ++ ".pem") = .ok k) ∧
        (HasShortKey fmt dir ("PK_S_SM_DPauth_ECDSA_" ++ sfx ++ ".pem") ∨
          (∃ c, loadCertificate E webpki dir ("CERT_CI_ECDSA_" ++ sfx ++ ".der") = .ok c) ∧
          (∃ c, loadCertificate E webpki dir ("CERT_EUM_ECDSA_" ++ sfx ++ ".der") = .ok c) ∧
          (∃ k, loadPrivateKey E fmt curve dir ("SK_EUICC_ECDSA_" ++ sfx ++ ".pem") = .ok k) ∧
          HasShortKey fmt dir ("PK_S_EIMsign_ECDSA_" ++ sfx ++ ".pem")))

theorem loadCurveFrom_eq_panic :
    loadCurveFrom E webpki fmt curve dir = .panic ↔ ReadsShortKey E webpki fmt curve dir := by
  simp only [loadCurveFrom, Exec.bind_eq_panic, loadCertificate_ne_panic, loadPrivateKey_ne_panic,
    loadDpAuthCertificate_ne_panic, loadPublicKey_eq_panic, Exec.toOption_eq_panic,
    readFile_ne_panic, false_or, or_false, and_false, exists_false, exists_and_right,
    exists_toOption_eq_ok, ne_eq, not_false_eq_true, true_and,
    exists_loadDpAuthCertificate_eq_ok, ReadsShortKey, reduceCtorEq]
  tauto

/-- **Loading never panics** exactly when it does not come to a public key that is too short; the
key reader does not exactly when its PEM body is not too short, and then it fails on a body with
no point in it. -/
theorem load_ne_panic_iff (E : EcLib) (webpki : Bytes → Bool) (fmt : Fmt) (curve : CurveKind) :
    (∀ dir, loadCurveFrom E webpki fmt curve dir ≠ .panic ↔
      ¬ ReadsShortKey E webpki fmt curve dir) ∧
    (∀ pem, publicKeyFromPem E fmt curve pem ≠ .panic ↔
      ∀ der, pemToDer fmt pem = .ok der → ¬ TooShort der) ∧
    ∀ pem der, pemToDer fmt pem = .ok der →
      (∀ p, p <:+: der → ∀ pk, PublicKey.fromBytes E curve p ≠ .ok pk) →
        ((∃ e, publicKeyFromPem E fmt curve pem = .err e) ↔ ¬ TooShort der) := by
  refine ⟨?_, ?_, ?_⟩
  · intro dir
    exact not_congr loadCurveFrom_eq_panic
  · intro pem
    rw [ne_eq, publicKeyFromPem_eq_panic]
    simp
  · intro pem der hder hno
    have hpanic : publicKeyFromPem E fmt curve pem = .panic ↔ TooShort der := by
      rw [publicKeyFromPem_eq_panic, hder]
      simp
    cases h : publicKeyFromPem E fmt curve pem with
    | ok pk =>
        simp only [publicKeyFromPem, Exec.bind_eq_ok, hder, Exec.ok.injEq] at h
        obtain ⟨_, rfl, p, hp, hpk⟩ := h
        exact absurd hpk (hno p (sec1PointFrom_eq_ok hp).1 pk)
    | err e =>
        -- An `Err` is no panic, so the body was long enough.
        rw [h] at hpanic
        have hlong : ¬ TooShort der := by
          intro hshort
          cases hpanic.mpr hshort
        exact iff_of_true ⟨e, rfl⟩ hlong
    | panic => exact iff_of_false (by simp) fun hlong => hlong (hpanic.mp h)

end Panics

/-! ### A key that makes loading panic -/

def sampleFmt : Fmt where
  debugStr s := "\"" ++ s ++ "\""
  debugChar c := "'" ++ c.toString ++ "'"
  utf8Error _ := "invalid utf-8 sequence of 1 bytes from index 0"

/-- A PEM file with one block. -/
def publicKeyPem (body : String) : Bytes :=
  ("-----BEGIN PUBLIC KEY-----\n" ++ body ++ "-----END PUBLIC KEY-----\n").toUTF8.toList

/-- The eUICC's certificate, and a public key file that is empty between its two lines. -/
def shortKeyDir : Dir where
  display name := "fixtures/sgp26/variant-o/" ++ name
  read name :=
    if name = "CERT_EUICC_ECDSA_NIST.der" then .ok serverFields.encode
    else if name = "PK_EUICC_ECDSA_NIST.pem" then .ok (publicKeyPem "")
    else .error "No such file or directory (os error 2)"

/-- Loading panics on an empty key; so does the key reader, also on a body that starts like a
point and breaks off. -/
theorem load_panics :
    loadCurveFrom (.ofTable []) (fun _ => false) sampleFmt .p256 shortKeyDir = .panic ∧
      publicKeyFromPem (.ofTable []) sampleFmt .p256 (publicKeyPem "") = .panic ∧
      publicKeyFromPem (.ofTable []) sampleFmt .p256 (publicKeyPem "BAAA\n") = .panic := by
  refine ⟨?_, by decide +kernel, by decide +kernel⟩
  let c : Certificate (.ofTable []) :=
    ⟨serverFields.encode, { curve := .p256, point := serverPoint }, false, by decide +kernel⟩
  have hcert : shortKeyDir.readFile "CERT_EUICC_ECDSA_NIST.der" = .ok serverFields.encode := by
    decide +kernel
  have hkey : shortKeyDir.readFile "PK_EUICC_ECDSA_NIST.pem" = .ok (publicKeyPem "") := by
    decide +kernel
  have hload : loadCertificate (.ofTable []) (fun _ => false) shortKeyDir
      "CERT_EUICC_ECDSA_NIST.der" = .ok c := by
    rw [loadCertificate, hcert, Exec.ok_bind]
    exact Certificate.fromDer_eq_ok.mpr ⟨rfl, rfl⟩
  exact loadCurveFrom_eq_panic.mpr
    ⟨⟨c, hload⟩, .inl ⟨publicKeyPem "", [], readFile_eq_ok.mp hkey, by decide +kernel, .inl rfl⟩⟩

end Sgp26
end EuiccCrypto
