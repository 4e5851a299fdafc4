import EuiccCrypto.X509.NamedCurve

/-!
# Well-formed certificates

`CertFields` is an X.509 certificate for an EC key as a value, with the fields other than
subjectPublicKeyInfo as general as X.509 allows, and `CertFields.encode` is its DER.
`wellFormed_key` says what the two readers get out of every such certificate.
-/

namespace EuiccCrypto
namespace X509

open Octets Tlv

/-- `Time`: UTCTime or GeneralizedTime, with arbitrary content. -/
inductive Time
  | utcTime (content : Bytes)
  | generalizedTime (content : Bytes)

def Time.encode : Time → Bytes
  | .utcTime content => Tlv.encode 0x17 content
  | .generalizedTime content => Tlv.encode 0x18 content

/-- The content of a `Name`: a SEQUENCE of SETs, given by their contents. -/
def nameContent (sets : List Bytes) : Bytes := encodeAll (sets.map fun s => (0x31, s))

/-- The fields of a certificate. `signatureParams` is what follows the OID in the `signature`
member, `trailing` the unique identifiers and extensions, and `after` the two members after
tbsCertificate. -/
structure CertFields where
  version : Option Bytes
  serial : Bytes
  signatureOid : Bytes
  signatureParams : Bytes
  issuer : List Bytes
  notBefore : Time
  notAfter : Time
  subject : List Bytes
  curveOid : Bytes
  point : Bytes
  trailing : List (UInt8 × Bytes)
  after : Bytes

namespace CertFields

variable (f : CertFields)

/-- The elements in front of subjectPublicKeyInfo, after the version. -/
def identification : List (UInt8 × Bytes) :=
  [(0x02, f.serial), (0x30, Tlv.encode 0x06 f.signatureOid ++ f.signatureParams),
    (0x30, nameContent f.issuer), (0x30, f.notBefore.encode ++ f.notAfter.encode),
    (0x30, nameContent f.subject)]

/-- The elements of tbsCertificate. -/
def members : List (UInt8 × Bytes) :=
  (f.version.map fun v => (0xa0, v)).toList ++ f.identification ++
    (0x30, spkiContent f.curveOid f.point) :: f.trailing

/-- The content of the certificate. -/
def body : Bytes := Tlv.encode 0x30 (encodeAll f.members) ++ f.after

/-- The certificate in DER. -/
def encode : Bytes := certificateDer f.members f.after

variable {f}

theorem length_lt_of_mem {m : UInt8 × Bytes} (h : f.body.length < 2 ^ 32) (hm : m ∈ f.members) :
    m.2.length < 2 ^ 32 := by
  have hlt := length_lt_length_encodeAll hm
  have hbody := length_lt_length_encode 0x30 (encodeAll f.members)
  rw [body, List.length_append] at h
  omega

/-- The layout of a well-formed certificate. -/
def layout (f : CertFields) (h : f.body.length < 2 ^ 32) : Layout f.encode :=
  .ofMembers f.members f.after [] h (List.append_nil _).symm

/-- The element at the position of subjectPublicKeyInfo is subjectPublicKeyInfo, with and
without the version. -/
theorem spki?_layout (h : f.body.length < 2 ^ 32) :
    (f.layout h).spki? = some (0x30, spkiContent f.curveOid f.point) := by
  show f.members[spkiIndex (f.members.map Prod.fst)]? = _
  cases hv : f.version <;> simp [members, identification, hv, spkiIndex]

theorem isSpki (h : f.body.length < 2 ^ 32) :
    IsSpki (spkiContent f.curveOid f.point) f.curveOid f.point :=
  isSpki_spkiContent (length_lt_of_mem h (m := (0x30, spkiContent f.curveOid f.point))
    (by simp [members]))

end CertFields

/-! ### No other element has the shape -/

/-- What starts with an element that is not a SEQUENCE is not shaped like
subjectPublicKeyInfo. -/
theorem not_hasEcShape_of_isTlv {tag : UInt8} {val e rest oid : Bytes} (h : IsTlv tag val e)
    (htag : tag ≠ 0x30) : ¬ HasEcShape (e ++ rest) oid := by
  rintro ⟨alg, eAlg, rest', heq, hAlg, -⟩
  exact htag (h.append_inj hAlg heq).1

theorem not_hasEcShape_nil {oid : Bytes} : ¬ HasEcShape [] oid := by
  rintro ⟨alg, eAlg, rest, heq, hAlg, -⟩
  exact hAlg.ne_nil (List.append_eq_nil_iff.mp heq.symm).1

theorem not_hasEcShape_name {sets : List Bytes} {oid : Bytes}
    (h : (nameContent sets).length < 2 ^ 32) : ¬ HasEcShape (nameContent sets) oid := by
  cases sets with
  | nil => exact not_hasEcShape_nil
  | cons s sets =>
      have hs := length_lt_length_encode 0x31 s
      rw [nameContent, List.map_cons, encodeAll_cons, List.length_append] at h
      have hs32 : s.length < 2 ^ 32 := by dsimp only at h; omega
      exact not_hasEcShape_of_isTlv (isTlv_encode 0x31 hs32) (by decide)

theorem not_hasEcShape_time {t : Time} {rest oid : Bytes} (h : (t.encode ++ rest).length < 2 ^ 32) :
    ¬ HasEcShape (t.encode ++ rest) oid := by
  rw [List.length_append] at h
  cases t with
  | utcTime content =>
      have hc := length_lt_length_encode 0x17 content
      rw [Time.encode] at h
      exact not_hasEcShape_of_isTlv (isTlv_encode 0x17 (by omega)) (by decide)
  | generalizedTime content =>
      have hc := length_lt_length_encode 0x18 content
      rw [Time.encode] at h
      exact not_hasEcShape_of_isTlv (isTlv_encode 0x18 (by omega)) (by decide)

theorem CertFields.namedCurveOfMember_identification {f : CertFields}
    (h : f.body.length < 2 ^ 32) {m : UInt8 × Bytes} (hm : m ∈ f.identification) :
    namedCurveOfMember m = none := by
  have hlt := length_lt_of_mem h (m := m) (by simp [members, hm])
  apply Option.eq_none_iff_forall_not_mem.mpr
  intro oid hoid
  obtain ⟨htag, hshape⟩ := namedCurveOfMember_eq_some.mp hoid
  simp only [identification, List.mem_cons, List.not_mem_nil, or_false] at hm
  rcases hm with rfl | rfl | rfl | rfl | rfl
  · simp at htag
  · -- the signature algorithm starts with its OID
    rw [List.length_append] at hlt
    have hoid := length_lt_length_encode 0x06 f.signatureOid
    exact not_hasEcShape_of_isTlv (isTlv_encode 0x06 (by omega)) (by decide) hshape
  · exact not_hasEcShape_name hlt hshape
  · exact not_hasEcShape_time hlt hshape
  · exact not_hasEcShape_name hlt hshape

/-! ### What the readers get -/

variable {E : EcLib}

/-- **Key extraction is right on every well-formed certificate.** The named curve is read
whatever it is; a supported curve and a point on it are what `from_der` returns; on an
unsupported curve `from_der` fails. No other field matters. -/
theorem wellFormed_key (f : CertFields) (h : f.body.length < 2 ^ 32) (webpki : Bytes → Bool) :
    certificateNamedCurveOid f.encode = some f.curveOid ∧
    (∀ c : CurveKind, f.curveOid = c.oid →
      PublicKey.fromBytes E c f.point = .ok { curve := c, point := f.point } →
        ∃ cert : Certificate E, Certificate.fromDer webpki f.encode = .ok cert ∧
          cert.publicKey = { curve := c, point := f.point }) ∧
    ((∀ c : CurveKind, f.curveOid ≠ c.oid) →
      ∃ e, (Certificate.fromDer webpki f.encode : Exec (Certificate E)) = .err e) := by
  have hspki := CertFields.spki?_layout h
  have hkey := CertFields.isSpki h
  refine ⟨?_, ?_, ?_⟩
  · rw [certificateNamedCurveOid_eq (f.layout h)]
    show f.members.findSome? namedCurveOfMember = _
    have hversion : (f.version.map fun v => ((0xa0 : UInt8), v)).toList.findSome?
        namedCurveOfMember = none := by
      cases f.version <;> rfl
    have hident : f.identification.findSome? namedCurveOfMember = none :=
      List.findSome?_eq_none_iff.mpr fun m hm => CertFields.namedCurveOfMember_identification h hm
    rw [CertFields.members, List.findSome?_append, List.findSome?_append, hversion, hident,
      List.findSome?_cons, namedCurveOfMember_eq_some.mpr ⟨rfl, hkey.hasEcShape⟩]
    rfl
  · intro c hoid hpoint
    have hextract : extractSpkiPublicKey E f.encode = .ok { curve := c, point := f.point } :=
      extractSpkiPublicKey_eq_ok.mpr ⟨f.layout h, _, hspki,
        publicKeyOfSpki_eq_ok.mpr ⟨hoid ▸ hkey, hpoint⟩⟩
    exact ⟨⟨f.encode, _, webpki f.encode, hextract⟩, Certificate.fromDer_eq_ok.mpr ⟨rfl, rfl⟩, rfl⟩
  · intro hoid
    cases hextract : extractSpkiPublicKey E f.encode with
    | ok pk =>
        -- The key would be on the curve that is named, and no supported curve is.
        obtain ⟨l, spki, hl, hpk⟩ := extractSpkiPublicKey_eq_ok.mp hextract
        rw [Subsingleton.elim l (f.layout h), hspki] at hl
        cases hl
        exact absurd (hkey.hasEcShape.unique (publicKeyOfSpki_eq_ok.mp hpk).1.hasEcShape)
          (hoid pk.curve)
    | err e => exact Certificate.fromDer_of_err hextract
    | panic => exact absurd hextract (extractSpkiPublicKey_ne_panic f.encode)

/-- A small server certificate without extensions. -/
def serverFields : CertFields where
  version := none
  serial := [0x01]
  signatureOid := [0x2a, 0x86, 0x48, 0xce, 0x3d, 0x04, 0x03, 0x02]
  signatureParams := []
  issuer := [commonName "CI"]
  notBefore := .utcTime "250101000000Z".toUTF8.toList
  notAfter := .utcTime "350101000000Z".toUTF8.toList
  subject := [commonName "server A"]
  curveOid := CurveKind.p256.oid
  point := serverPoint
  trailing := []
  after := []

theorem wellFormed_key_server :
    certificateNamedCurveOid serverFields.encode = some CurveKind.p256.oid ∧
    ∃ cert : Certificate (EcLib.ofTable []),
      Certificate.fromDer (fun _ => false) serverFields.encode = .ok cert ∧
      cert.publicKey = { curve := .p256, point := serverPoint } := by
  have hkey := wellFormed_key (E := EcLib.ofTable []) serverFields (by decide +kernel)
    fun _ => false
  exact ⟨hkey.1, hkey.2.1 .p256 rfl (by decide +kernel)⟩

end X509
end EuiccCrypto
