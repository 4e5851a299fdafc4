import EuiccCrypto.Sgp26
import EuiccCrypto.X509.Readers
import EuiccCrypto.X509.Signed

/-!
# Checking the SGP.26 material

`Sgp26VariantO::verify` of `sgp26.rs`. `verify_eq_ok` says what it checks, and `verify_pairs_iff`
what is missing for all nine pairs of keys to match. `mismatched_accepted` is material that passes
with a private key that does not belong to its certificate.
-/

namespace EuiccCrypto
namespace Sgp26

open Octets Tlv X509

/-! ### verify -/

namespace Sgp26VariantO

variable {E : EcLib} (m : Sgp26VariantO E)

/-- The check of the EUM's private key, if there is one. -/
def verifyEumPrivate : Exec Unit :=
  let sfx := m.curve.sgp26Suffix
  match m.eumPrivate with
  | some k =>
    if k.publicKey.point ≠ m.eum.publicKey.point then
      .err (.certificate ("SK_EUM_ECDSA_" ++ sfx ++ ".pem does not match the key in CERT_EUM_ECDSA_" ++
        sfx ++ ".der"))
    else .ok ()
  | none => .ok ()

/-- The checks of the DPpb pair, if both halves are there. -/
def verifyDpPb : Exec Unit :=
  let sfx := m.curve.sgp26Suffix
  match m.dpPbPrivate, m.dpPb with
  | some k, some cert =>
    if k.publicKey.point ≠ cert.publicKey.point then
      .err (.certificate ("SK_S_SM_DPpb_ECDSA_" ++ sfx ++ ".pem does not match the key in " ++
        "CERT_S_SM_DPpb_ECDSA_" ++ sfx ++ ".der"))
    else if cert.indicatesDpPbRole = some false then
      .err (.certificate ("CERT_S_SM_DPpb_ECDSA_" ++ sfx ++
        ".der does not indicate id-rspRole-dp-pb"))
    else .ok ()
  | _, _ => .ok ()

/-- `verify`: check the loaded material is internally consistent. -/
def verify : Exec Unit :=
  if m.euiccPrivate.publicKey.point ≠ m.euicc.publicKey.point then
    .err (.certificate
      "SK_EUICC_ECDSA_NIST.pem does not match the key in CERT_EUICC_ECDSA_NIST.der")
  else do
    m.euicc.verifySignedBy m.eum
    m.eum.verifySignedBy m.ci
    if m.eimPrivate.publicKey.point ≠ m.eimPublic.point then
      .err (.certificate "SK_S_EIMsign_ECDSA_NIST.pem does not match PK_S_EIMsign_ECDSA_NIST.pem")
    else do
      m.verifyEumPrivate
      m.verifyDpPb
      .ok ()

end Sgp26VariantO

/-! ### Pairs of keys

Nine pairs of the material belong together. The source compares four of them, and the two
structures list them apart, for any relation between the two halves of a pair: the source compares
points, and two keys are the same if their points and their curves are (`checkedPairs_eq_iff`). -/

/-- Two keys that may be missing stand in a relation if both are there. -/
def BothPresent (r : PublicKey → PublicKey → Prop) (a b : Option PublicKey) : Prop :=
  ∀ k ∈ a, ∀ k' ∈ b, r k k'

instance (r : PublicKey → PublicKey → Prop) [DecidableRel r] (a b : Option PublicKey) :
    Decidable (BothPresent r a b) := by
  unfold BothPresent
  infer_instance

theorem bothPresent_and {r s : PublicKey → PublicKey → Prop} {a b : Option PublicKey} :
    BothPresent (fun k k' => r k k' ∧ s k k') a b ↔ BothPresent r a b ∧ BothPresent s a b :=
  ⟨fun h => ⟨fun k hk k' hk' => (h k hk k' hk').1, fun k hk k' hk' => (h k hk k' hk').2⟩,
    fun h k hk k' hk' => ⟨h.1 k hk k' hk', h.2 k hk k' hk'⟩⟩

/-- A key is its curve and its point. -/
theorem publicKey_eq_iff {k k' : PublicKey} :
    k = k' ↔ k.point = k'.point ∧ k.curve = k'.curve := by
  cases k
  cases k'
  simp [and_comm]

variable {E : EcLib} (m : Sgp26VariantO E)

/-- The pairs that `verify` compares stand in the relation `r`. -/
structure CheckedPairs (r : PublicKey → PublicKey → Prop) : Prop where
  euicc : r m.euiccPrivate.publicKey m.euicc.publicKey
  eim : r m.eimPrivate.publicKey m.eimPublic
  eum : BothPresent r (m.eumPrivate.map KeyPair.publicKey) (some m.eum.publicKey)
  dpPb : BothPresent r (m.dpPbPrivate.map KeyPair.publicKey) (m.dpPb.map Certificate.publicKey)

/-- The other pairs stand in the relation `r`. -/
structure UncheckedPairs (r : PublicKey → PublicKey → Prop) : Prop where
  euiccPublic : r m.euiccPublic m.euicc.publicKey
  dpAuthCert : BothPresent r (m.dpAuthPrivate.map KeyPair.publicKey)
    (m.dpAuthCert.map Certificate.publicKey)
  dpAuthPublic : BothPresent r (m.dpAuthPrivate.map KeyPair.publicKey) m.dpAuthPublic
  dsAuth : BothPresent r (m.dsAuthPrivate.map KeyPair.publicKey)
    (m.dsAuthCert.map Certificate.publicKey)
  dpPbAsAuth : BothPresent r (m.dpPbAsAuthPrivate.map KeyPair.publicKey)
    (m.dpPbAsAuthCert.map Certificate.publicKey)

/-- Of all nine pairs, each whose halves are both present is one key. -/
def AllPairsMatch : Prop := CheckedPairs m (· = ·) ∧ UncheckedPairs m (· = ·)

variable {m}

theorem checkedPairs_eq_iff :
    CheckedPairs m (· = ·) ↔
      CheckedPairs m (·.point = ·.point) ∧ CheckedPairs m (·.curve = ·.curve) := by
  have heq : ((· = ·) : PublicKey → PublicKey → Prop) =
      fun k k' => k.point = k'.point ∧ k.curve = k'.curve := by
    funext k k'
    exact propext publicKey_eq_iff
  rw [heq]
  constructor
  · rintro ⟨heuicc, heim, heum, hdpPb⟩
    rw [bothPresent_and] at heum hdpPb
    exact ⟨⟨heuicc.1, heim.1, heum.1, hdpPb.1⟩, heuicc.2, heim.2, heum.2, hdpPb.2⟩
  · rintro ⟨hpoint, hcurve⟩
    exact ⟨⟨hpoint.euicc, hcurve.euicc⟩, ⟨hpoint.eim, hcurve.eim⟩,
      bothPresent_and.mpr ⟨hpoint.eum, hcurve.eum⟩, bothPresent_and.mpr ⟨hpoint.dpPb, hcurve.dpPb⟩⟩

/-! ### What verify checks -/

theorem verifyEumPrivate_eq_ok :
    m.verifyEumPrivate = .ok () ↔
      BothPresent (·.point = ·.point) (m.eumPrivate.map KeyPair.publicKey) (some m.eum.publicKey) := by
  rw [Sgp26VariantO.verifyEumPrivate]
  cases m.eumPrivate <;> simp [BothPresent]

theorem verifyDpPb_eq_ok :
    m.verifyDpPb = .ok () ↔
      BothPresent (·.point = ·.point) (m.dpPbPrivate.map KeyPair.publicKey)
        (m.dpPb.map Certificate.publicKey) ∧
      (m.dpPbPrivate.isSome → ∀ cert ∈ m.dpPb, cert.indicatesDpPbRole ≠ some false) := by
  rw [Sgp26VariantO.verifyDpPb]
  cases m.dpPbPrivate with
  | none => simp [BothPresent]
  | some k =>
      cases m.dpPb with
      | none => simp [BothPresent]
      | some cert =>
          dsimp only
          rw [Exec.ite_err_eq_ok, Exec.ite_err_eq_ok, not_not]
          simp [BothPresent]

/-- `verify` compares the points of four pairs, checks two signatures, and looks at the role of
the DPpb certificate. -/
theorem verify_eq_ok :
    m.verify = .ok () ↔
      CheckedPairs m (·.point = ·.point) ∧ m.euicc.verifySignedBy m.eum = .ok () ∧
        m.eum.verifySignedBy m.ci = .ok () ∧
        (m.dpPbPrivate.isSome → ∀ cert ∈ m.dpPb, cert.indicatesDpPbRole ≠ some false) := by
  simp only [Sgp26VariantO.verify, Exec.ite_err_eq_ok, Exec.bind_eq_ok, not_not]
  constructor
  · rintro ⟨heuicc, ⟨⟩, hsigned, ⟨⟩, hsigned', heim, ⟨⟩, heum, ⟨⟩, hdpPb, -⟩
    obtain ⟨hdpPb, hrole⟩ := verifyDpPb_eq_ok.mp hdpPb
    exact ⟨⟨heuicc, heim, verifyEumPrivate_eq_ok.mp heum, hdpPb⟩, hsigned, hsigned', hrole⟩
  · rintro ⟨⟨heuicc, heim, heum, hdpPb⟩, hsigned, hsigned', hrole⟩
    exact ⟨heuicc, (), hsigned, (), hsigned', heim, (), verifyEumPrivate_eq_ok.mpr heum, (),
      verifyDpPb_eq_ok.mpr ⟨hdpPb, hrole⟩, trivial⟩

/-- **The pairs in material that passes** all match exactly when those match that `verify` does
not compare, and those it compares, by their octets only, are on one curve. -/
theorem verify_pairs_iff (h : m.verify = .ok ()) :
    AllPairsMatch m ↔ UncheckedPairs m (· = ·) ∧ CheckedPairs m (·.curve = ·.curve) := by
  have hpoint := (verify_eq_ok.mp h).1
  rw [AllPairsMatch, checkedPairs_eq_iff]
  constructor
  · rintro ⟨⟨-, hcurve⟩, hunchecked⟩
    exact ⟨hunchecked, hcurve⟩
  · rintro ⟨hunchecked, hcurve⟩
    exact ⟨⟨hpoint, hcurve⟩, hunchecked⟩

/-! ### Material that passes -/

/-- The key of an eUICC. -/
def euiccKey : PublicKey where
  curve := .p256
  point :=
    [0x04, 0x71, 0x10, 0xee, 0x92, 0xbf, 0x8c, 0x5f, 0xce, 0x94, 0x4c, 0x1b, 0x7d, 0xfd, 0x44,
     0x61, 0xca, 0x86, 0x40, 0x77, 0x8b, 0xa3, 0x21, 0x13, 0xdc, 0x7d, 0xd9, 0x62, 0xee, 0xac,
     0x80, 0xc8, 0x3b, 0xc7, 0x83, 0x7d, 0x3c, 0xc8, 0x26, 0xd1, 0x55, 0x82, 0x35, 0xd1, 0x0e,
     0x19, 0x44, 0xb2, 0xe5, 0x36, 0xe6, 0xd1, 0xf4, 0x78, 0x2b, 0xd8, 0xd0, 0xc1, 0x9f, 0x21,
     0xce, 0x81, 0x52, 0x88, 0x80]

/-- Its certificate, issued by the holder of the certificate `serverDer`. -/
def euiccFields : CertFields :=
  { serverFields with
    issuer := [commonName "server A"], subject := [commonName "eUICC"], point := euiccKey.point }

def euiccTbs : Bytes := encode 0x30 (encodeAll euiccFields.members)

/-- The signature over it. -/
def euiccSignature : Bytes :=
  [0x30, 0x44, 0x02, 0x20, 0x12, 0xb2, 0x20, 0x53, 0xef, 0xde, 0xcd, 0x03, 0x96, 0x3b, 0x69,
   0x53, 0x4a, 0x34, 0xf5, 0x73, 0x51, 0x2e, 0x81, 0x98, 0x82, 0xe8, 0xcc, 0xdd, 0x8c, 0xa9,
   0x30, 0xf9, 0x85, 0x4a, 0xcb, 0x4e, 0x02, 0x20, 0x1f, 0x47, 0x7b, 0x14, 0xe1, 0x36, 0x74,
   0x17, 0xa8, 0x51, 0xe4, 0xc0, 0xa9, 0xf3, 0x39, 0xc1, 0x7d, 0x8e, 0x6b, 0xab, 0x6d, 0x51,
   0x43, 0x1c, 0x3c, 0xa9, 0xfe, 0x60, 0x92, 0x33, 0xce, 0xcf]

/-- A library in which the two signatures of the chain are the only ones. -/
abbrev chainLib : EcLib :=
  .ofTable [(issuerKey.point, serverTbs, serverSignature), (serverPoint, euiccTbs, euiccSignature)]

def ciCert : Certificate chainLib where
  der := { serverFields with subject := [commonName "CI"], point := issuerKey.point : CertFields }.encode
  publicKey := issuerKey
  webpkiParsed := false
  extracted := by decide +kernel

def eumCert : Certificate chainLib where
  der := serverDer
  publicKey := { curve := .p256, point := serverPoint }
  webpkiParsed := false
  extracted := by decide +kernel

def euiccCert : Certificate chainLib where
  der := certificateDer euiccFields.members
    (encode 0x30 (encode 0x06 euiccFields.signatureOid) ++ encode 0x03 (0x00 :: euiccSignature))
  publicKey := euiccKey
  webpkiParsed := false
  extracted := by decide +kernel

/-- The material of one chain, with `point` for the point of the DPauth private key. The DPauth
certificate is the one of the EUM. -/
def material (point : Bytes) : Sgp26VariantO chainLib where
  curve := .p256
  ci := ciCert
  eum := eumCert
  euicc := euiccCert
  euiccPublic := euiccKey
  euiccPrivate := { curve := .p256, inner := euiccKey.point }
  eimPublic := issuerKey
  eimPrivate := { curve := .p256, inner := issuerKey.point }
  dpAuthPublic := none
  dpAuthPrivate := some { curve := .p256, inner := point }
  eumPrivate := some { curve := .p256, inner := serverPoint }
  dpPb := none
  dpPbPrivate := none
  dpAuthCert := some eumCert
  dsAuthInvalidSignatureCert := none
  dsAuthInvalidCurveCertDer := none
  dsAuthCert := none
  dsAuthPrivate := none
  dpPbAsAuthCert := none
  dpPbAsAuthPrivate := none

theorem verify_pairs_iff_material : AllPairsMatch (material serverPoint) := by
  have hverify : (material serverPoint).verify = .ok () := by decide +kernel
  refine (verify_pairs_iff hverify).mpr ⟨⟨?_, ?_, ?_, ?_, ?_⟩, ?_, ?_, ?_, ?_⟩
  all_goals decide +kernel

/-- Material that passes with a DPauth private key that is not the one of its certificate. -/
theorem mismatched_accepted :
    (material attackerPoint).verify = .ok () ∧ ¬ AllPairsMatch (material attackerPoint) := by
  refine ⟨by decide +kernel, ?_⟩
  intro h
  have hdpAuth := h.2.dpAuthCert _ rfl _ rfl
  exact absurd hdpAuth (by decide +kernel)

end Sgp26
end EuiccCrypto
