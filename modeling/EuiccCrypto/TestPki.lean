import EuiccCrypto.X509.Readers
import EuiccCrypto.X509.Signed

/-!
# Issuing test certificates

`build_certificate` of `testpki.rs`. Its output is the DER of a certificate as `x509.rs` reads
it (`buildCertificate_eq`), so that issuing and parsing agree: `fromDer_buildCertificate`.
-/

namespace EuiccCrypto
namespace TestPki

open Octets Tlv X509

/-! ### Encoding -/

/-- `der_length`. -/
def derLength (len : Nat) : Bytes := Der.derLength len

/-- `tlv`: encode a DER TLV with a short-form or long-form length as needed. -/
def tlv (tag : UInt8) (value : Bytes) : Bytes := tag :: (derLength value.length ++ value)

theorem length_lt_length_tlv (tag : UInt8) (value : Bytes) :
    value.length < (tlv tag value).length := by
  simp only [tlv, List.length_cons, List.length_append]
  omega

theorem tlv_eq_encode {tag : UInt8} {value : Bytes} (h : value.length ≤ 0xffff) :
    tlv tag value = encode tag value := by
  rw [tlv, derLength, Der.derLength_eq h]
  rfl

/-- The elements `fs` one after another. -/
def tlvAll (fs : List (UInt8 × Bytes)) : Bytes := fs.flatMap fun f => tlv f.1 f.2

theorem tlvAll_eq_encodeAll : ∀ {fs : List (UInt8 × Bytes)}, (tlvAll fs).length ≤ 0xffff →
    tlvAll fs = encodeAll fs
  | [], _ => rfl
  | f :: fs, h => by
      have hcons : tlvAll (f :: fs) = tlv f.1 f.2 ++ tlvAll fs := rfl
      rw [hcons, List.length_append] at h
      have hlt := length_lt_length_tlv f.1 f.2
      rw [hcons, encodeAll_cons, tlv_eq_encode (by omega), tlvAll_eq_encodeAll (by omega)]

/-! ### The certificate -/

def oidEcdsaSha256 : Bytes := [0x2a, 0x86, 0x48, 0xce, 0x3d, 0x04, 0x03, 0x02]
def oidEcPublicKey : Bytes := [0x2a, 0x86, 0x48, 0xce, 0x3d, 0x02, 0x01]

/-- `UTC_TIME`: a fixed UTC time. -/
def utcTime : Bytes := "250101000000Z".toUTF8.toList

/-- `TEST_CN_PREFIX`. -/
def testCnPrefix : String := "SGP.33 TEST ONLY"

/-- The signature AlgorithmIdentifier. -/
def sigAlg : Bytes := tlv 0x30 ([tlv 0x06 oidEcdsaSha256, tlv 0x05 []].flatten)

/-- The name of issuer and subject. -/
def name (label : String) : Bytes :=
  let cn := testCnPrefix ++ " " ++ label
  tlv 0x30 (tlv 0x31 (tlv 0x30 ([tlv 0x06 [0x55, 0x04, 0x03], tlv 0x0c cn.toUTF8.toList].flatten)))

def validity : Bytes := tlv 0x30 ([tlv 0x17 utcTime, tlv 0x17 utcTime].flatten)

/-- subjectPublicKeyInfo, with the OID of the curve the key is on. -/
def spki (subjectKey : PublicKey) : Bytes :=
  let spkiAlg := tlv 0x30 ([tlv 0x06 oidEcPublicKey, tlv 0x06 subjectKey.curve.oid].flatten)
  tlv 0x30 ([spkiAlg, tlv 0x03 (0x00 :: subjectKey.point)].flatten)

section Build

variable (sha256 : Bytes → Vector UInt8 32)

/-- The content of serialNumber: derived from the subject key, with a leading zero octet where
the INTEGER would be negative otherwise. -/
def serialBytes (subjectKey : PublicKey) : Bytes :=
  let bytes := (sha256 subjectKey.point).toList.take 8
  if bytes.headD 0 &&& 0x80 ≠ 0 then 0x00 :: bytes else bytes

def authorityKeyIdentifier (issuerKey : PublicKey) : Bytes :=
  let aki := (sha256 issuerKey.point).toList.take 20
  tlv 0x30 ([tlv 0x06 [0x55, 0x1D, 0x23], tlv 0x04 (tlv 0x30 (tlv 0x80 aki))].flatten)

/-- certificatePolicies with one role, critical. -/
def certificatePolicies (role : Bytes) : Bytes :=
  tlv 0x30 ([tlv 0x06 [0x55, 0x1D, 0x20], tlv 0x01 [0xFF],
    tlv 0x04 (tlv 0x30 (tlv 0x30 (tlv 0x06 role)))].flatten)

/-- subjectAltName with one registeredID. -/
def subjectAltName (oid : Bytes) : Bytes :=
  tlv 0x30 ([tlv 0x06 [0x55, 0x1D, 0x11], tlv 0x04 (tlv 0x30 (tlv 0x88 oid))].flatten)

def extensions (issuerKey : PublicKey) (sanOid roleOid : Option Bytes) : Bytes :=
  let list := authorityKeyIdentifier sha256 issuerKey ::
    ((roleOid.map certificatePolicies).toList ++ (sanOid.map subjectAltName).toList)
  tlv 0xA3 (tlv 0x30 list.flatten)

/-- The tbsCertificate that `build_certificate` signs. -/
def tbsCertificate (label : String) (subjectKey issuerKey : PublicKey)
    (sanOid roleOid : Option Bytes) : Bytes :=
  let version := tlv 0xa0 (tlv 0x02 [0x02])
  let serial := tlv 0x02 (serialBytes sha256 subjectKey)
  tlv 0x30 ([version, serial, sigAlg, name label, validity, name label, spki subjectKey,
    extensions sha256 issuerKey sanOid roleOid].flatten)

variable {E : EcLib}

/-- `build_certificate`. -/
def buildCertificate (label : String) (subjectKey : PublicKey) (issuer : KeyPair E)
    (sanOid roleOid : Option Bytes) : Exec Bytes := do
  let tbs := tbsCertificate sha256 label subjectKey issuer.publicKey sanOid roleOid
  let signature ← issuer.signDer tbs
  .ok (tlv 0x30 ([tbs, sigAlg, tlv 0x03 (0x00 :: signature)].flatten))

/-! ### The certificate as the parser sees it

`tlv` writes an element in DER up to 65535 octets of content, and a certificate of that size has
no longer element in it. So what `build_certificate` returns is `certificateDer` of the members of
its tbsCertificate (`buildCertificate_eq`), and the results about such certificates apply. -/

variable (label : String) (subjectKey issuerKey : PublicKey) (sanOid roleOid : Option Bytes)

/-- The content of subjectPublicKeyInfo. -/
theorem spki_eq (h : subjectKey.point.length = publicKeyLen) :
    spki subjectKey = tlv 0x30 (spkiContent subjectKey.curve.oid subjectKey.point) := by
  have halg : tlv 0x30 ([tlv 0x06 oidEcPublicKey, tlv 0x06 subjectKey.curve.oid].flatten) =
      encode 0x30 (encode 0x06 idEcPublicKey ++ encode 0x06 subjectKey.curve.oid) := by
    cases subjectKey.curve <;> decide +kernel
  have hbits : tlv 0x03 (0x00 :: subjectKey.point) = encode 0x03 (0x00 :: subjectKey.point) :=
    tlv_eq_encode (by rw [List.length_cons, h]; decide)
  rw [spki, halg, hbits, spkiContent]
  simp

/-- The elements of tbsCertificate. -/
def tbsMembers : List (UInt8 × Bytes) :=
  let rdn := tlv 0x31 (tlv 0x30 ([tlv 0x06 [0x55, 0x04, 0x03],
    tlv 0x0c (testCnPrefix ++ " " ++ label).toUTF8.toList].flatten))
  [(0xa0, tlv 0x02 [0x02]), (0x02, serialBytes sha256 subjectKey),
    (0x30, [tlv 0x06 oidEcdsaSha256, tlv 0x05 []].flatten), (0x30, rdn),
    (0x30, [tlv 0x17 utcTime, tlv 0x17 utcTime].flatten), (0x30, rdn),
    (0x30, spkiContent subjectKey.curve.oid subjectKey.point),
    (0xA3, tlv 0x30 (authorityKeyIdentifier sha256 issuerKey ::
      ((roleOid.map certificatePolicies).toList ++ (sanOid.map subjectAltName).toList)).flatten)]

theorem tbsCertificate_eq (h : subjectKey.point.length = publicKeyLen) :
    tbsCertificate sha256 label subjectKey issuerKey sanOid roleOid =
      tlv 0x30 (tlvAll (tbsMembers sha256 label subjectKey issuerKey sanOid roleOid)) := by
  rw [tbsCertificate, spki_eq subjectKey h]
  rfl

variable {label subjectKey sanOid roleOid} {issuer : KeyPair E} {der : Bytes}

/-- Issuing a certificate is encoding one in DER, as long as `der_length` can spell its
length. -/
theorem buildCertificate_eq
    (hbuild : buildCertificate sha256 label subjectKey issuer sanOid roleOid = .ok der)
    (hder : der.length ≤ 0xffff) (h : subjectKey.point.length = publicKeyLen) :
    let members := tbsMembers sha256 label subjectKey issuer.publicKey sanOid roleOid
    let tbs := tbsCertificate sha256 label subjectKey issuer.publicKey sanOid roleOid
    tbs = encode 0x30 (encodeAll members) ∧ ∃ alg signature, issuer.signDer tbs = .ok signature ∧
      der = certificateDer members (encode 0x30 alg ++ encode 0x03 (0x00 :: signature)) := by
  intro members tbs
  obtain ⟨signature, hsign, hcert⟩ := Exec.bind_eq_ok.mp hbuild
  obtain rfl : tlv 0x30 ([tbs, sigAlg, tlv 0x03 (0x00 :: signature)].flatten) = der :=
    Exec.ok.inj hcert
  -- Every element is shorter than the certificate, so `der_length` spells all the lengths.
  have hbody := length_lt_length_tlv 0x30 ([tbs, sigAlg, tlv 0x03 (0x00 :: signature)].flatten)
  have hbits := length_lt_length_tlv 0x03 (0x00 :: signature)
  have htbs := length_lt_length_tlv 0x30 (tlvAll members)
  have htbsTlv : tbs = tlv 0x30 (tlvAll members) :=
    tbsCertificate_eq sha256 label subjectKey issuer.publicKey sanOid roleOid h
  have hflat : [tbs, sigAlg, tlv 0x03 (0x00 :: signature)].flatten =
      tbs ++ (sigAlg ++ tlv 0x03 (0x00 :: signature)) := by simp
  rw [hflat] at hder hbody ⊢
  simp only [List.length_append] at hbody
  rw [← htbsTlv] at htbs
  have htbsEq : tbs = encode 0x30 (encodeAll members) := by
    rw [htbsTlv, tlv_eq_encode (by omega), tlvAll_eq_encodeAll (by omega)]
  have hsigAlg : sigAlg = encode 0x30 ([tlv 0x06 oidEcdsaSha256, tlv 0x05 []].flatten) :=
    tlv_eq_encode (by decide)
  refine ⟨htbsEq, [tlv 0x06 oidEcdsaSha256, tlv 0x05 []].flatten, signature, hsign, ?_⟩
  rw [tlv_eq_encode (by simp only [List.length_append]; omega),
    tlv_eq_encode (by omega : (0x00 :: signature).length ≤ 0xffff), htbsEq, hsigAlg, certificateDer]

theorem length_body_lt {members : List (UInt8 × Bytes)} {after : Bytes}
    (h : (certificateDer members after).length ≤ 0xffff) :
    (encode 0x30 (encodeAll members) ++ after).length < 2 ^ 32 := by
  have := length_lt_length_encode 0x30 (encode 0x30 (encodeAll members) ++ after)
  rw [certificateDer] at h
  omega

/-- **Issuing and parsing agree.** A certificate of at most 65535 octets is accepted with the
subject's key, its tbsCertificate and signature are extracted as they were made, and it verifies
under the issuer's key. -/
theorem fromDer_buildCertificate {webpki : Bytes → Bool}
    (hbuild : buildCertificate sha256 label subjectKey issuer sanOid roleOid = .ok der)
    (hder : der.length ≤ 65535)
    (hsubject : PublicKey.fromBytes E subjectKey.curve subjectKey.point = .ok subjectKey)
    (hverify : issuer.SignaturesVerify) :
    let tbs := tbsCertificate sha256 label subjectKey issuer.publicKey sanOid roleOid
    ∃ c : Certificate E, Certificate.fromDer webpki der = .ok c ∧ c.publicKey = subjectKey ∧
      (∃ signature, issuer.signDer tbs = .ok signature ∧
        extractTbsAndSignature der = .ok (tbs, signature)) ∧
      c.verifySignedByKey issuer.publicKey = .ok () := by
  intro tbs
  have hpoint := (PublicKey.fromBytes_eq_ok.mp hsubject).1
  obtain ⟨htbs, alg, signature, hsign, rfl⟩ := buildCertificate_eq sha256 hbuild hder hpoint
  set members := tbsMembers sha256 label subjectKey issuer.publicKey sanOid roleOid
  set after := encode 0x30 alg ++ encode 0x03 (0x00 :: signature)
  have hbody := length_body_lt hder
  have hkey : extractSpkiPublicKey E (certificateDer members after) = .ok subjectKey :=
    extractSpkiPublicKey_certificateDer hbody rfl hsubject
  have hextract : extractTbsAndSignature (certificateDer members after) = .ok (tbs, signature) :=
    (extractTbsAndSignature_certificateDer hbody).trans (by rw [← htbs])
  refine ⟨⟨_, subjectKey, webpki _, hkey⟩, Certificate.fromDer_eq_ok.mpr ⟨rfl, rfl⟩, rfl,
    ⟨signature, hsign, hextract⟩, ?_⟩
  rw [Certificate.verifySignedByKey, hextract, Exec.ok_bind]
  exact hverify _ _ hsign

end Build

/-! ### A certificate -/

/-- SHA-256 where it is needed: on the issuer's point and on the subject's. -/
def sha256Sample (input : Bytes) : Vector UInt8 32 :=
  if input = issuerKey.point then
    #v[0xb9, 0x5a, 0x3b, 0x26, 0xd8, 0x2d, 0x04, 0x7d, 0x4a, 0xc2, 0xaf, 0x83, 0x62, 0x91, 0x5e,
      0xe7, 0x0c, 0x8c, 0x3a, 0x1a, 0x59, 0x5b, 0x55, 0x1d, 0xd2, 0xb4, 0x9c, 0xb2, 0x25, 0x87,
      0xd6, 0xb5]
  else
    #v[0x1d, 0xab, 0xcb, 0x0b, 0x31, 0x3c, 0xbc, 0x8c, 0xe6, 0xd9, 0x01, 0xca, 0xe1, 0x12, 0xde,
      0x86, 0xe8, 0xe2, 0xf2, 0x51, 0x68, 0x68, 0x47, 0xc5, 0xc3, 0x61, 0xe4, 0x6c, 0x3c, 0xb9,
      0x5d, 0xcd]

/-- The subject key of the certificate. -/
def eumKey : PublicKey where
  curve := .p256
  point := serverPoint

/-- Its tbsCertificate. -/
def eumTbs : Bytes :=
  tbsCertificate sha256Sample "eum" eumKey issuerKey (some [0x83, 0x37, 0x81, 0x67])
    (some oidRspRoleDpAuth)

/-- The issuer's signature over `eumTbs`. -/
def eumSignature : Bytes :=
  [0x30, 0x45, 0x02, 0x21, 0x00, 0xc8, 0x70, 0xe4, 0x18, 0x8e, 0x08, 0x21, 0x33, 0xe9, 0x5d,
   0x65, 0x50, 0x66, 0xf3, 0xe3, 0x0c, 0x3b, 0x68, 0x4e, 0xec, 0x0b, 0x8c, 0x74, 0x4f, 0xf1,
   0x50, 0x4e, 0xc3, 0x64, 0x7a, 0x38, 0x2e, 0x02, 0x20, 0x1c, 0x91, 0xeb, 0x59, 0x4a, 0x46,
   0xe4, 0xf2, 0x5e, 0xd5, 0x22, 0xe0, 0x4d, 0xb0, 0x0c, 0x5a, 0x78, 0x7a, 0xfe, 0x1f, 0x99,
   0xc4, 0xfe, 0xc7, 0xd9, 0x73, 0x16, 0xd7, 0xf4, 0xb6, 0x30, 0xcf]

/-- A library in which the issuer's signature over `eumTbs` is that one. -/
abbrev signingLib : EcLib :=
  .ofSigner fun key message =>
    if key = issuerKey.point ∧ message = eumTbs then eumSignature else []

def sampleIssuer : KeyPair signingLib where
  curve := .p256
  inner := issuerKey.point

/-- The certificate. -/
def eumDer : Bytes :=
  tlv 0x30 ([eumTbs, sigAlg, tlv 0x03 (0x00 :: eumSignature)].flatten)

theorem buildCertificate_eumDer :
    buildCertificate sha256Sample "eum" eumKey sampleIssuer (some [0x83, 0x37, 0x81, 0x67])
      (some oidRspRoleDpAuth) = .ok eumDer := by
  have hsign : sampleIssuer.signDer eumTbs = .ok eumSignature := by decide +kernel
  exact congrArg (· >>= _) hsign

theorem fromDer_buildCertificate_eum :
    ∃ c : Certificate signingLib, Certificate.fromDer (fun _ => false) eumDer = .ok c ∧
      c.publicKey = eumKey ∧ c.verifySignedByKey issuerKey = .ok () := by
  have hsubject : PublicKey.fromBytes signingLib eumKey.curve eumKey.point = .ok eumKey := by
    decide +kernel
  have hverify : sampleIssuer.SignaturesVerify :=
    EcLib.ofSigner_signaturesVerify (by decide +kernel)
  obtain ⟨c, hc, hkey, -, hverify⟩ := fromDer_buildCertificate sha256Sample buildCertificate_eumDer
    (by decide +kernel) hsubject hverify
  exact ⟨c, hc, hkey, hverify⟩

end TestPki
end EuiccCrypto
