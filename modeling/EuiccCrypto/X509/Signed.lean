import EuiccCrypto.X509.WellFormed

/-!
# Which bytes a certificate signature is checked over

`extract_tbs_and_signature` computes where the signed bytes start from the length of the whole
input, `der.len() - cert_body.len()`. `extractTbsAndSignature_eq_ok` says what it returns, and
`checksTbs_iff` that this is tbsCertificate exactly when nothing trails the certificate.
`forged_accepted` is a certificate with a tail that verifies over the tbsCertificate of another
one.
-/

namespace EuiccCrypto
namespace X509

open Octets Tlv

variable {E : EcLib} {der : Bytes}

/-! ### Where the signed bytes are taken from -/

/-- `tbs_start` is the offset of tbsCertificate plus the length of what trails the
certificate. -/
theorem tbsBounds_eq (l : Layout der) :
    tbsBounds der = .ok (l.body, l.tbsStart + l.trailing.length, l.tbsTlv.length) := by
  have hder := l.der_eq
  have hcert : readTlv der 0x30 = .ok (l.body, l.outer.length) :=
    readTlv_eq_ok.mpr ⟨l.outer, l.trailing, hder, l.outer_isTlv, rfl⟩
  have htbs : readTlv l.body 0x30 = .ok (l.tbs, l.tbsTlv.length) :=
    readTlv_eq_ok.mpr ⟨l.tbsTlv, l.after, l.body_eq, l.tbs_isTlv, rfl⟩
  have hlen : der.length = l.outer.length + l.trailing.length :=
    (congrArg List.length hder).trans List.length_append
  have hbody := l.length_body_le
  rw [tbsBounds, tbsBoundsWith, hcert, Exec.mapErr_ok, Exec.ok_bind]
  dsimp only
  -- `der.len() - cert_body.len()` counts the outer header and what trails the certificate.
  rw [if_neg (by omega), htbs, Exec.mapErr_ok, Exec.ok_bind, Layout.tbsStart]
  congr 3
  omega

/-- The signature is looked for after tbsCertificate; the signed bytes are as many as
tbsCertificate has, at `tbs_start`. -/
theorem extractTbsAndSignature_eq_ok {tbsWire sig : Bytes} (l : Layout der) :
    extractTbsAndSignature der = .ok (tbsWire, sig) ↔
      slice der (l.tbsStart + l.trailing.length)
        (l.tbsStart + l.trailing.length + l.tbsTlv.length) = .ok tbsWire ∧
      signatureAfterTbs l.after = .ok sig := by
  have hfits : ¬ l.body.length < l.tbsTlv.length := by
    rw [l.body_eq, List.length_append]
    omega
  have hafter : sliceFrom l.body l.tbsTlv.length = .ok l.after := by
    rw [l.body_eq]
    exact sliceFrom_append _ _
  rw [extractTbsAndSignature, extractTbsAndSignatureWith, tbsBounds_eq l, Exec.ok_bind]
  dsimp only
  rw [Exec.ok_bind, Exec.ite_err_eq_ok, Exec.bind_eq_ok]
  constructor
  · rintro ⟨-, wire, hwire, h⟩
    rw [if_neg hfits, hafter, Exec.ok_bind, Exec.bind_eq_ok] at h
    obtain ⟨s, hs, h⟩ := h
    cases h
    exact ⟨hwire, hs⟩
  · rintro ⟨hwire, hs⟩
    refine ⟨Nat.not_lt.mpr (slice_eq_ok.mp hwire).1.2, tbsWire, hwire, ?_⟩
    rw [if_neg hfits, hafter, Exec.ok_bind, hs, Exec.ok_bind]

theorem signatureAfterTbs_ne_panic (afterTbs : Bytes) : signatureAfterTbs afterTbs ≠ .panic := by
  intro h
  simp only [signatureAfterTbs, signatureAfterTbsWith, Exec.bind_eq_panic, Exec.mapErr_eq_panic,
    readTlv_ne_panic, Exec.mapErr_eq_ok, Prod.exists, readTlv_eq_ok, sliceFrom_eq_panic, sliceFrom_eq_ok,
    Exec.ite_err_eq_panic, index_eq_panic, false_or] at h
  obtain ⟨_, used, ⟨e, r, hafter, -, rfl⟩, h | ⟨_, -, bits, -, -, hne, h⟩⟩ := h
  · rw [hafter, List.length_append] at h
    omega
  · rw [List.isEmpty_iff, ← List.length_eq_zero_iff] at hne
    rcases h with h | ⟨_, -, -, h⟩ <;> omega

theorem tbsBounds_ne_panic (der : Bytes) : tbsBounds der ≠ .panic := by
  intro h
  simp only [tbsBounds, tbsBoundsWith, Exec.bind_eq_panic, Exec.mapErr_eq_panic,
    readTlv_ne_panic, Exec.ite_err_eq_panic, false_or] at h
  obtain ⟨_, -, -, _, -, h⟩ := h
  cases h

theorem extractTbsAndSignature_ne_panic (der : Bytes) : extractTbsAndSignature der ≠ .panic := by
  intro h
  simp only [extractTbsAndSignature, extractTbsAndSignatureWith, Exec.bind_eq_panic,
    Exec.ok_bind, tbsBounds_ne_panic, Prod.exists, Exec.ite_err_eq_panic, slice_eq_panic, sliceFrom_eq_panic, signatureAfterTbs_ne_panic,
    false_or] at h
  obtain ⟨_, _, _, -, hfits, h | ⟨_, -, hbody, h | ⟨_, -, _, -, h⟩⟩⟩ := h
  · omega
  · exact hbody h
  · cases h

theorem Certificate.verifySignedByKey_ne_panic (c : Certificate E) (key : PublicKey) :
    c.verifySignedByKey key ≠ .panic := by
  simp [verifySignedByKey, Exec.bind_eq_panic, extractTbsAndSignature_ne_panic,
    PublicKey.verifyDer_ne_panic]

/-- The signature in a signatureAlgorithm and a signatureValue. -/
theorem signatureAfterTbs_append {alg sig eAlg eBits : Bytes} (hAlg : IsTlv 0x30 alg eAlg)
    (hBits : IsTlv 0x03 (0x00 :: sig) eBits) (rest : Bytes) :
    signatureAfterTbs (eAlg ++ (eBits ++ rest)) = .ok sig := by
  rw [signatureAfterTbs, signatureAfterTbsWith, readTlv_append hAlg, Exec.mapErr_ok, Exec.ok_bind]
  dsimp only
  rw [sliceFrom_append, Exec.ok_bind, readTlv_append hBits, Exec.mapErr_ok, Exec.ok_bind]
  rfl

/-- tbsCertificate and signature are extracted from the DER of every certificate with nothing
after it. -/
theorem extractTbsAndSignature_certificateDer {members : List (UInt8 × Bytes)} {alg sig : Bytes}
    (h : (encode 0x30 (encodeAll members) ++
      (encode 0x30 alg ++ encode 0x03 (0x00 :: sig))).length < 2 ^ 32) :
    extractTbsAndSignature (certificateDer members (encode 0x30 alg ++ encode 0x03 (0x00 :: sig))) =
      .ok (encode 0x30 (encodeAll members), sig) := by
  let l : Layout (certificateDer members (encode 0x30 alg ++ encode 0x03 (0x00 :: sig))) :=
    .ofMembers members _ [] h (List.append_nil _).symm
  have halgLen := length_lt_length_encode 0x30 alg
  have hbitsLen := length_lt_length_encode 0x03 (0x00 :: sig)
  simp only [List.length_append] at h
  have halg : IsTlv 0x30 alg (encode 0x30 alg) := isTlv_encode 0x30 (by omega)
  have hbits : IsTlv 0x03 (0x00 :: sig) (encode 0x03 (0x00 :: sig)) := isTlv_encode 0x03 (by omega)
  have hafter := signatureAfterTbs_append halg hbits []
  rw [List.append_nil] at hafter
  exact (extractTbsAndSignature_eq_ok l).mpr ⟨l.slice_tbs, hafter⟩

/-! ### The signed bytes and tbsCertificate -/

/-- The signature of the certificate is checked over tbsCertificate, which is taken from where
it lies in `der`. -/
def ChecksTbs (E : EcLib) (l : Layout der) (key : PublicKey) : Prop :=
  (∃ sig, extractTbsAndSignature der = .ok (l.tbsTlv, sig) ∧
    key.verifyDer E l.tbsTlv sig = .ok ()) ∧
  ∃ body len, tbsBounds der = .ok (body, l.tbsStart, len)

/-- **Signed bytes and extracted key** belong together in a certificate that verifies exactly
when the certificate is one SEQUENCE and nothing more. -/
theorem checksTbs_iff {webpki : Bytes → Bool} {c : Certificate E} {key : PublicKey}
    (hc : Certificate.fromDer webpki der = .ok c) (hv : c.verifySignedByKey key = .ok ()) :
    ∃ (l : Layout der) (spki : Bytes), l.spki? = some (0x30, spki) ∧
      publicKeyOfSpki E spki = .ok c.publicKey ∧
      (ChecksTbs E l key ↔ ∃ body, IsTlv 0x30 body der) := by
  obtain ⟨rfl, -⟩ := Certificate.fromDer_eq_ok.mp hc
  obtain ⟨l, spki, hspki, hkey⟩ := c.exists_layout
  refine ⟨l, spki, hspki, hkey, ?_⟩
  rw [← l.trailing_eq_nil_iff]
  constructor
  · rintro ⟨-, body, len, hbounds⟩
    rw [tbsBounds_eq l, Exec.ok.injEq, Prod.mk.injEq, Prod.mk.injEq] at hbounds
    exact List.eq_nil_of_length_eq_zero (by omega)
  · intro htrailing
    obtain ⟨⟨wire, sig⟩, hext, hverify⟩ := Exec.bind_eq_ok.mp hv
    have hwire := ((extractTbsAndSignature_eq_ok l).mp hext).1
    have hslice := l.slice_tbs
    rw [htrailing, List.length_nil, Nat.add_zero, hslice] at hwire
    cases hwire
    refine ⟨⟨sig, hext, hverify⟩, l.body, l.tbsTlv.length, ?_⟩
    rw [tbsBounds_eq l, htrailing, List.length_nil, Nat.add_zero]

/-! ### A genuine signature on a forged certificate -/

section Forgery

/-- The key of a certificate issuer. -/
def issuerKey : PublicKey where
  curve := .p256
  point :=
    [0x04, 0xd9, 0xec, 0x39, 0x40, 0xde, 0x64, 0x95, 0x18, 0x3f, 0x16, 0x02, 0x4d, 0x4d, 0xe9,
      0x1b, 0x9b, 0x3f, 0x0d, 0xf0, 0x82, 0x9c, 0x51, 0x5c, 0x65, 0x79, 0x13, 0x2f, 0x12, 0x50,
      0xe2, 0xa7, 0x01, 0x17, 0xf6, 0xe6, 0x9d, 0x0b, 0xf0, 0xa9, 0x36, 0xce, 0xe0, 0x0b, 0x24,
      0x8a, 0x33, 0x76, 0x38, 0x16, 0x24, 0x64, 0x85, 0xb0, 0x9c, 0x63, 0x0d, 0x14, 0x5d, 0x7d,
      0x8e, 0xe6, 0x02, 0x60, 0x0d]

/-- A key the issuer never certified. -/
def attackerPoint : Bytes :=
  [0x04, 0x79, 0xcd, 0x16, 0x5e, 0x08, 0xfa, 0xbd, 0x0b, 0x66, 0xf2, 0x62, 0x69, 0x19, 0xac,
    0x92, 0xfe, 0x11, 0x5d, 0x1c, 0xf3, 0x2e, 0x40, 0x96, 0xab, 0x76, 0x73, 0xc2, 0xf7, 0x2c,
    0xe9, 0xe6, 0x79, 0x54, 0x8b, 0x5a, 0xff, 0x17, 0xfe, 0x47, 0x6e, 0x2b, 0xde, 0x19, 0x47,
    0x06, 0xb6, 0x6a, 0x60, 0x1a, 0x6e, 0xf3, 0xbc, 0x2a, 0xb2, 0x56, 0x44, 0x3d, 0x21, 0x05,
    0xa9, 0xcf, 0x79, 0x34, 0xf6]

/-- The tbsCertificate the issuer signed. -/
def serverTbs : Bytes := encode 0x30 (encodeAll serverFields.members)

/-- The issuer's signature over it. -/
def serverSignature : Bytes :=
  [0x30, 0x44, 0x02, 0x20, 0x04, 0xbd, 0x55, 0x04, 0x16, 0x25, 0xd7, 0xf2, 0x18, 0x97, 0x4e,
    0xa0, 0xb5, 0x78, 0x2f, 0xad, 0x33, 0x18, 0xc7, 0x8c, 0x8a, 0xe1, 0x01, 0x9e, 0x9a, 0x6a,
    0xb1, 0xa5, 0x66, 0x6a, 0x70, 0x63, 0x02, 0x20, 0x4a, 0xbc, 0x78, 0x24, 0x08, 0x8d, 0xce,
    0xcf, 0x81, 0xb4, 0xb1, 0x6d, 0x60, 0xa2, 0x59, 0xbf, 0x73, 0x60, 0x23, 0xac, 0x82, 0x3a,
    0x8f, 0xda, 0x0b, 0xd2, 0x41, 0x55, 0xdf, 0xe7, 0x3c, 0x9c]

/-- A library in which that is the only signature. -/
abbrev serverLib : EcLib := .ofTable [(issuerKey.point, serverTbs, serverSignature)]

/-- The certificate the issuer made. -/
def serverDer : Bytes :=
  certificateDer serverFields.members
    (encode 0x30 (encode 0x06 serverFields.signatureOid) ++ encode 0x03 (0x00 :: serverSignature))

/-- Another subject and another key. -/
def attackerFields : CertFields :=
  { serverFields with subject := [commonName "server M"], point := attackerPoint }

/-- The attacker's tbsCertificate, the issuer's in the place of the signature algorithm, the
issuer's signature, and a tail as long as a tbsCertificate, which moves `tbs_start` from the
first to the second. -/
def forgedDer : Bytes :=
  certificateDer attackerFields.members (serverTbs ++ encode 0x03 (0x00 :: serverSignature)) ++
    List.replicate serverTbs.length 0x00

theorem checksTbs_iff_server :
    ∃ l : Layout serverDer, ChecksTbs serverLib l issuerKey := by
  let c : Certificate serverLib :=
    ⟨serverDer, { curve := .p256, point := serverPoint }, false, by decide +kernel⟩
  have hc : Certificate.fromDer (fun _ => false) serverDer = .ok c :=
    Certificate.fromDer_eq_ok.mpr ⟨rfl, rfl⟩
  have hv : c.verifySignedByKey issuerKey = .ok () := by decide +kernel
  obtain ⟨l, -, -, -, hl⟩ := checksTbs_iff hc hv
  exact ⟨l, hl.mpr ⟨_, isTlv_encode 0x30 (by decide +kernel)⟩⟩

/-- The forged certificate is accepted with the attacker's key and verifies under the issuer's,
over the tbsCertificate of another certificate. -/
theorem forged_accepted : ∃ c : Certificate serverLib,
    Certificate.fromDer (fun _ => false) forgedDer = .ok c ∧
      c.publicKey = { curve := .p256, point := attackerPoint } ∧
      c.verifySignedByKey issuerKey = .ok () ∧
      extractTbsAndSignature forgedDer = .ok (serverTbs, serverSignature) ∧
      ∀ l : Layout forgedDer, l.tbsTlv ≠ serverTbs ∧ ¬ ChecksTbs serverLib l issuerKey := by
  refine ⟨⟨forgedDer, { curve := .p256, point := attackerPoint }, false, by decide +kernel⟩,
    Certificate.fromDer_eq_ok.mpr ⟨rfl, rfl⟩, rfl, by decide +kernel, by decide +kernel, ?_⟩
  intro l
  have htbs : l.tbsTlv = encode 0x30 (encodeAll attackerFields.members) := by
    rw [Subsingleton.elim l (.ofMembers attackerFields.members
      (serverTbs ++ encode 0x03 (0x00 :: serverSignature)) (List.replicate serverTbs.length 0x00)
      (by decide +kernel) rfl)]
    rfl
  have hne : l.tbsTlv ≠ serverTbs := by
    rw [htbs]
    decide +kernel
  refine ⟨hne, ?_⟩
  intro hchecks
  apply hne
  obtain ⟨⟨sig, hext, -⟩, -⟩ := hchecks
  have hserver : extractTbsAndSignature forgedDer = .ok (serverTbs, serverSignature) := by
    decide +kernel
  rw [hserver, Exec.ok.injEq, Prod.mk.injEq] at hext
  exact hext.1.symm

end Forgery

end X509
end EuiccCrypto
