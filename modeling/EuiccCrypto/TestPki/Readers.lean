import EuiccCrypto.TestPki
import EuiccCrypto.X509.Extensions

/-!
# Reading an issued certificate

What the readers of `x509.rs` return for a certificate that `build_certificate` has made. The
certificate is put in the form the readers are specified for: `issuedExtensions` are its
extensions, and `issued_items` says that these are the ones the layout of the certificate has.
-/

namespace EuiccCrypto
namespace TestPki

open Octets Tlv X509

variable (sha256 : Bytes → Vector UInt8 32)

/-- The keyIdentifier that is issued for a key. -/
def keyIdentifier (key : PublicKey) : Bytes := (sha256 key.point).toList.take 20

theorem length_keyIdentifier (key : PublicKey) : (keyIdentifier sha256 key).length = 20 := by
  simp [keyIdentifier]

/-- The extensions of an issued certificate. -/
def issuedExtensions (issuerKey : PublicKey) (sanOid roleOid : Option Bytes) : List Extension :=
  { oid := oidAuthorityKeyIdentifier
    critical := false
    value := encode 0x30 (encode 0x80 (keyIdentifier sha256 issuerKey)) } ::
  ((roleOid.map fun role =>
    { oid := oidCertificatePolicies
      critical := true
      value := policiesSequence [{ oid := role, qualifiers := [] }] : Extension }).toList ++
    (sanOid.map fun oid =>
      { oid := oidSubjectAltName
        critical := false
        value := encode 0x30 (encode 0x88 oid) : Extension }).toList)

section Lengths

variable {sha256} {issuerKey : PublicKey} {sanOid roleOid : Option Bytes}

theorem length_encode_of_lt (tag : UInt8) {val : Bytes} (h : val.length < 0x80) :
    (encode tag val).length = val.length + 2 := by
  rw [encode_of_lt h, List.length_cons, List.length_cons]

/-- The length of a SEQUENCE of one short element. -/
theorem length_sequence (tag : UInt8) {val : Bytes} (h : val.length ≤ 123) :
    (encode 0x30 (encode tag val)).length = val.length + 4 := by
  have hlen := length_encode_of_lt tag (Nat.lt_of_le_of_lt h (by decide))
  rw [length_encode_of_lt 0x30 (by omega), hlen]

theorem policiesSequence_singleton (role : Bytes) :
    policiesSequence [{ oid := role, qualifiers := [] }] =
      encode 0x30 (encode 0x30 (encode 0x06 role)) := by
  simp [policiesSequence, PolicyInformation.encode]

theorem length_policiesSequence_le {role : Bytes} (h : role.length ≤ 121) :
    (policiesSequence [{ oid := role, qualifiers := [] }]).length ≤ 0x7F := by
  have hinfo := length_sequence 0x06 (Nat.le_trans h (by decide))
  rw [policiesSequence_singleton, length_encode_of_lt 0x30 (by omega)]
  omega

theorem mem_issuedExtensions {e : Extension}
    (h : e ∈ issuedExtensions sha256 issuerKey sanOid roleOid) :
    e = ⟨oidAuthorityKeyIdentifier, false,
        encode 0x30 (encode 0x80 (keyIdentifier sha256 issuerKey))⟩ ∨
      (∃ role ∈ roleOid, e = ⟨oidCertificatePolicies, true,
        policiesSequence [{ oid := role, qualifiers := [] }]⟩) ∨
      ∃ oid ∈ sanOid, e = ⟨oidSubjectAltName, false, encode 0x30 (encode 0x88 oid)⟩ := by
  simp only [issuedExtensions, List.mem_cons, List.mem_append, Option.mem_toList,
    Option.map_eq_some_iff] at h
  grind

theorem length_oid_issued {e : Extension}
    (h : e ∈ issuedExtensions sha256 issuerKey sanOid roleOid) : e.oid.length = 5 := by
  rcases mem_issuedExtensions h with rfl | ⟨_, -, rfl⟩ | ⟨_, -, rfl⟩ <;> rfl

/-- With short contents all the values are short. -/
theorem length_value_issued (hsan : ∀ oid ∈ sanOid, oid.length ≤ 123)
    (hrole : ∀ role ∈ roleOid, role.length ≤ 121) {e : Extension}
    (h : e ∈ issuedExtensions sha256 issuerKey sanOid roleOid) : e.value.length ≤ 0x7F := by
  rcases mem_issuedExtensions h with rfl | ⟨role, hmem, rfl⟩ | ⟨oid, hmem, rfl⟩
  · have hlen := length_keyIdentifier sha256 issuerKey
    show (encode 0x30 _).length ≤ _
    rw [length_sequence 0x80 (by omega)]
    omega
  · exact length_policiesSequence_le (hrole role hmem)
  · have hlen := hsan oid hmem
    show (encode 0x30 _).length ≤ _
    rw [length_sequence 0x88 hlen]
    omega

theorem nodup_issued :
    ((issuedExtensions sha256 issuerKey sanOid roleOid).map Extension.oid).Nodup := by
  have hall : [oidAuthorityKeyIdentifier, oidCertificatePolicies, oidSubjectAltName].Nodup := by
    decide
  apply List.Nodup.sublist _ hall
  cases roleOid <;> cases sanOid <;> simp [issuedExtensions]

/-! The value that is issued under each OID. -/

theorem find?_subjectAltName :
    ((issuedExtensions sha256 issuerKey sanOid roleOid).find? fun e =>
      e.oid = oidSubjectAltName).map Extension.value =
    sanOid.map fun oid => encode 0x30 (encode 0x88 oid) := by
  have h1 : oidAuthorityKeyIdentifier ≠ oidSubjectAltName := by decide
  have h2 : oidCertificatePolicies ≠ oidSubjectAltName := by decide
  cases sanOid <;> cases roleOid <;> simp [issuedExtensions, h1, h2]

theorem find?_authorityKeyIdentifier :
    ((issuedExtensions sha256 issuerKey sanOid roleOid).find? fun e =>
      e.oid = oidAuthorityKeyIdentifier).map Extension.value =
    some (encode 0x30 (encode 0x80 (keyIdentifier sha256 issuerKey))) := by
  simp [issuedExtensions]

theorem find?_certificatePolicies :
    ((issuedExtensions sha256 issuerKey sanOid roleOid).find? fun e =>
      e.oid = oidCertificatePolicies).map Extension.value =
    roleOid.map fun role => policiesSequence [{ oid := role, qualifiers := [] }] := by
  have h1 : oidAuthorityKeyIdentifier ≠ oidCertificatePolicies := by decide
  have h2 : oidSubjectAltName ≠ oidCertificatePolicies := by decide
  cases sanOid <;> cases roleOid <;> simp [issuedExtensions, h1, h2]

end Lengths

/-! ### The extensions in the certificate -/

section Items

variable {sha256} {issuerKey : PublicKey} {sanOid roleOid : Option Bytes}

/-- `tlv` writes a SEQUENCE of one short element in DER. -/
theorem tlv_sequence (tag : UInt8) {val : Bytes} (h : val.length ≤ 123) :
    tlv 0x30 (tlv tag val) = encode 0x30 (encode tag val) := by
  have hlen := length_encode_of_lt tag (Nat.lt_of_le_of_lt h (by decide))
  have htag : tlv tag val = encode tag val := tlv_eq_encode (by omega)
  rw [htag, tlv_eq_encode (by omega)]

/-- `tlv` writes an extension in DER, if its value is short. -/
theorem tlv_extension {value : Bytes} {e : Extension} (oid between : Bytes)
    (hoid : tlv 0x06 oid = e.oid) (hlen : e.oid.length = 5)
    (hbetween : between = if e.critical then encode 0x01 [0xFF] else [])
    (hvalue : value = e.value) (hshort : e.value.length ≤ 0x7F) :
    tlv 0x30 (tlv 0x06 oid ++ (between ++ tlv 0x04 value)) = encode 0x30 e.content := by
  have hle : between.length ≤ 3 := by
    rw [hbetween]
    cases e.critical <;> decide
  have h04 : tlv 0x04 value = encode 0x04 e.value := by
    rw [hvalue]
    exact tlv_eq_encode (by omega)
  rw [hoid, h04, tlv_eq_encode]
  · rw [Extension.content, hbetween]
  · rw [List.length_append, List.length_append, length_encode_of_lt 0x04 (by omega)]
    omega

theorem authorityKeyIdentifier_eq : authorityKeyIdentifier sha256 issuerKey =
    encode 0x30 (Extension.content ⟨oidAuthorityKeyIdentifier, false,
      encode 0x30 (encode 0x80 (keyIdentifier sha256 issuerKey))⟩) := by
  have hshort : (keyIdentifier sha256 issuerKey).length ≤ 123 := by
    rw [length_keyIdentifier]
    decide
  have hlen := length_sequence 0x80 hshort
  rw [← tlv_extension [0x55, 0x1D, 0x23] [] rfl rfl rfl (tlv_sequence 0x80 hshort)
    (by dsimp only; omega)]
  simp [authorityKeyIdentifier, keyIdentifier]

theorem certificatePolicies_eq {role : Bytes} (h : role.length ≤ 121) :
    certificatePolicies role = encode 0x30 (Extension.content ⟨oidCertificatePolicies, true,
      policiesSequence [{ oid := role, qualifiers := [] }]⟩) := by
  have hshort : role.length ≤ 123 := by omega
  have hinfo := length_sequence 0x06 hshort
  have hvalue : tlv 0x30 (tlv 0x30 (tlv 0x06 role)) =
      policiesSequence [{ oid := role, qualifiers := [] }] := by
    rw [policiesSequence_singleton, tlv_sequence 0x06 hshort, tlv_eq_encode (by omega)]
  rw [← tlv_extension [0x55, 0x1D, 0x20] (tlv 0x01 [0xFF]) rfl rfl rfl hvalue
    (length_policiesSequence_le h)]
  simp [certificatePolicies]

theorem subjectAltName_eq {oid : Bytes} (h : oid.length ≤ 123) :
    subjectAltName oid = encode 0x30 (Extension.content ⟨oidSubjectAltName, false,
      encode 0x30 (encode 0x88 oid)⟩) := by
  have hlen := length_sequence 0x88 h
  rw [← tlv_extension [0x55, 0x1D, 0x11] [] rfl rfl rfl (tlv_sequence 0x88 h)
    (by dsimp only; omega)]
  simp [subjectAltName]

/-- The extensions of the certificate, one after another, are `issuedExtensions`. -/
theorem flatten_extensions (hsan : ∀ oid ∈ sanOid, oid.length ≤ 123)
    (hrole : ∀ role ∈ roleOid, role.length ≤ 121) :
    (authorityKeyIdentifier sha256 issuerKey ::
      ((roleOid.map certificatePolicies).toList ++ (sanOid.map subjectAltName).toList)).flatten =
    encodeAll ((issuedExtensions sha256 issuerKey sanOid roleOid).map Extension.item) := by
  have hpolicies : (roleOid.map certificatePolicies).toList.flatten =
      encodeAll ((roleOid.map fun role => (⟨oidCertificatePolicies, true,
        policiesSequence [{ oid := role, qualifiers := [] }]⟩ : Extension)).toList.map
          Extension.item) := by
    cases roleOid with
    | none => rfl
    | some role =>
        show certificatePolicies role ++ [] = _
        rw [certificatePolicies_eq (hrole role rfl)]
        rfl
  have haltName : (sanOid.map subjectAltName).toList.flatten =
      encodeAll ((sanOid.map fun oid => (⟨oidSubjectAltName, false,
        encode 0x30 (encode 0x88 oid)⟩ : Extension)).toList.map Extension.item) := by
    cases sanOid with
    | none => rfl
    | some oid =>
        show subjectAltName oid ++ [] = _
        rw [subjectAltName_eq (hsan oid rfl)]
        rfl
  rw [List.flatten_cons, List.flatten_append, hpolicies, haltName, authorityKeyIdentifier_eq,
    issuedExtensions, List.map_cons, encodeAll_cons, List.map_append, encodeAll_append]
  rfl

end Items

/-! ### Reading the values -/

theorem altNameOf_encode {oid : Bytes} (h : oid.length ≤ 123) :
    altNameOf (encode 0x30 (encode 0x88 oid)) = some oid := by
  have h88 := length_encode_of_lt 0x88 (Nat.lt_of_le_of_lt h (by decide))
  have hne : ¬ (encode 0x88 oid).isEmpty := by
    rw [List.isEmpty_iff_length_eq_zero]
    omega
  rw [altNameOf, unwrapSequence_encode (by omega), Option.bind_eq_bind, Option.bind_some,
    if_neg hne, readShortTlv_encode (by omega)]
  rfl

theorem authorityKeyIdOf_encode {keyId : Bytes} (h : keyId.length ≤ 123) :
    authorityKeyIdOf (encode 0x30 (encode 0x80 keyId)) = some keyId := by
  have h80 := length_encode_of_lt 0x80 (Nat.lt_of_le_of_lt h (by decide))
  have hne : ¬ (encode 0x80 keyId).isEmpty := by
    rw [List.isEmpty_iff_length_eq_zero]
    omega
  have hread := @readTlvConsumed_encode_self 0x80 keyId (by omega)
  rw [authorityKeyIdOf, unwrapSequence_encode (by omega), Option.bind_eq_bind, Option.bind_some,
    h80, keyIdentifierLoop, if_neg hne]
  simp only [hread, Option.bind_eq_bind, Option.bind_some]
  rw [if_pos trivial]

section Build

variable {E : EcLib} {label : String} {subjectKey : PublicKey} {sanOid roleOid : Option Bytes}
  {issuer : KeyPair E} {der : Bytes}

/-- No member but the last has the tag of the extensions element. -/
theorem extensions_tag_notMem {issuerKey : PublicKey} : (0xa3 : UInt8) ∉
    (tbsMembers sha256 label subjectKey issuerKey sanOid roleOid).dropLast.map Prod.fst := by
  show (0xa3 : UInt8) ∉ [0xa0, 0x02, 0x30, 0x30, 0x30, 0x30, 0x30]
  decide

/-- The certificate has an extensions element, and every reading of it gives
`issuedExtensions`. -/
theorem issued_items
    (hbuild : buildCertificate sha256 label subjectKey issuer sanOid roleOid = .ok der)
    (hder : der.length ≤ 0xffff) (hpoint : subjectKey.point.length = publicKeyLen)
    (hsan : ∀ oid ∈ sanOid, oid.length ≤ 123) (hrole : ∀ role ∈ roleOid, role.length ≤ 121) :
    ∃ (l : Layout der) (_ : Extensions l), ∀ x : Extensions l,
      x.items = (issuedExtensions sha256 issuer.publicKey sanOid roleOid).map Extension.item := by
  obtain ⟨-, alg, signature, -, rfl⟩ := buildCertificate_eq sha256 hbuild hder hpoint
  have hbody := length_body_lt hder
  set members := tbsMembers sha256 label subjectKey issuer.publicKey sanOid roleOid
  set items := (issuedExtensions sha256 issuer.publicKey sanOid roleOid).map Extension.item
  -- The extensions element is the last one, and its content is short enough for `tlv`.
  have hlast : members = members.dropLast ++ [(0xa3, tlv 0x30 (encodeAll items))] := by
    rw [← flatten_extensions hsan hrole]
    rfl
  have hcontent := length_lt_length_encodeAll
    (hlast ▸ List.mem_append_right _ (List.mem_singleton_self _) :
      (0xa3, tlv 0x30 (encodeAll items)) ∈ members)
  have hseq := length_lt_length_tlv 0x30 (encodeAll items)
  have htbs := length_lt_length_encode 0x30 (encodeAll members)
  have hcert := length_lt_length_encode 0x30 (encode 0x30 (encodeAll members) ++
    (encode 0x30 alg ++ encode 0x03 (0x00 :: signature)))
  rw [certificateDer] at hder
  rw [List.length_append] at hcert
  dsimp only at hcontent
  have htlv : tlv 0x30 (encodeAll items) = encode 0x30 (encodeAll items) :=
    tlv_eq_encode (by omega)
  rw [htlv] at hlast
  have hitems : (encodeAll items).length < 2 ^ 32 := by omega
  let l : Layout (certificateDer members (encode 0x30 alg ++ encode 0x03 (0x00 :: signature))) :=
    .ofMembers members _ [] hbody (List.append_nil _).symm
  refine ⟨l, ⟨members.dropLast, [], _, _, items, hlast, isTlv_encode 0x30 hitems,
    tlvSeq_encodeAll hitems⟩, ?_⟩
  intro x
  apply x.items_eq _ hitems
  intro content hmem
  have hmem' : (0xa3, content) ∈ members.dropLast ++ [(0xa3, encode 0x30 (encodeAll items))] :=
    hlast ▸ hmem
  rcases List.mem_append.mp hmem' with h | h
  · exact absurd (List.mem_map_of_mem h) (extensions_tag_notMem sha256)
  · cases List.mem_singleton.mp h
    rfl

/-- **The readers recover what was issued.** The certificate is accepted, and its name, its
issuer's keyIdentifier and its role are read as they were put in, if the OIDs of the three
extensions stand nowhere else. -/
theorem readers_recover_issued {webpki : Bytes → Bool}
    (hbuild : buildCertificate sha256 label subjectKey issuer sanOid roleOid = .ok der)
    (hder : der.length ≤ 65535)
    (hsubject : PublicKey.fromBytes E subjectKey.curve subjectKey.point = .ok subjectKey)
    (hsan : ∀ oid ∈ sanOid, oid.length ≤ 123) (hrole : ∀ role ∈ roleOid, role.length ≤ 121)
    (honly : ∀ oid ∈ [oidSubjectAltName, oidAuthorityKeyIdentifier, oidCertificatePolicies],
      OccursOnlyInExtension der oid) :
    ∃ c : Certificate E, Certificate.fromDer webpki der = .ok c ∧
      c.subjectAltName = sanOid ∧
      c.authorityKeyIdentifier = some ((sha256 issuer.publicKey.point).toList.take 20) ∧
      c.certificatePolicies = roleOid.map fun role => [role] := by
  have hpoint := (PublicKey.fromBytes_eq_ok.mp hsubject).1
  obtain ⟨l, x, hitems⟩ := issued_items sha256 hbuild hder hpoint hsan hrole
  have hvalue : ∀ oid ∈ [oidSubjectAltName, oidAuthorityKeyIdentifier, oidCertificatePolicies],
      extensionValue der oid = ((issuedExtensions sha256 issuer.publicKey sanOid roleOid).find?
        fun e => e.oid = oid).map Extension.value := by
    intro oid hoid
    have hlen : oid.length = 5 := by
      revert oid
      decide
    exact extensionValue_eq_find? x hitems (fun e he => (length_oid_issued he).trans hlen.symm)
      (fun e he => length_value_issued hsan hrole he) nodup_issued (honly oid hoid)
  obtain ⟨-, alg, signature, -, rfl⟩ := buildCertificate_eq sha256 hbuild hder hpoint
  have hkey := extractSpkiPublicKey_certificateDer (length_body_lt hder) rfl hsubject
  refine ⟨⟨_, subjectKey, webpki _, hkey⟩, Certificate.fromDer_eq_ok.mpr ⟨rfl, rfl⟩, ?_, ?_, ?_⟩
  · rw [Certificate.subjectAltName, Certificate.extensionValue, hvalue _ (by simp),
      find?_subjectAltName]
    cases sanOid with
    | none => rfl
    | some oid => exact altNameOf_encode (hsan oid rfl)
  · rw [Certificate.authorityKeyIdentifier, Certificate.extensionValue, hvalue _ (by simp),
      find?_authorityKeyIdentifier]
    exact authorityKeyIdOf_encode (by rw [length_keyIdentifier]; decide)
  · rw [Certificate.certificatePolicies, Certificate.extensionValue, hvalue _ (by simp),
      find?_certificatePolicies]
    cases roleOid with
    | none => rfl
    | some role =>
        rw [Option.map_some, Option.bind_eq_bind, Option.bind_some,
          policiesOf_policiesSequence (length_policiesSequence_le (hrole role rfl))]
        rfl

end Build

theorem occursOnlyInExtension_eum {oid : Bytes} (n : Nat)
    (hoid : oid ∈ (issuedExtensions sha256Sample issuerKey (some [0x83, 0x37, 0x81, 0x67])
      (some oidRspRoleDpAuth)).map Extension.oid)
    (huniq : ∀ t ∈ eumDer.tails, oid <+: t → t.length = n) : OccursOnlyInExtension eumDer oid := by
  obtain ⟨e, he, rfl⟩ := List.mem_map.mp hoid
  obtain ⟨l, x, hitems⟩ := issued_items sha256Sample buildCertificate_eumDer (by decide +kernel)
    (by decide +kernel) (by decide) (by decide)
  have hmem : e.item ∈ x.items := by
    rw [hitems x]
    exact List.mem_map_of_mem he
  exact occursOnlyInExtension_of_unique hmem n huniq

theorem readers_recover_issued_eum :
    ∃ c : Certificate signingLib, Certificate.fromDer (fun _ => false) eumDer = .ok c ∧
      c.subjectAltName = some [0x83, 0x37, 0x81, 0x67] ∧
      c.authorityKeyIdentifier = some ((sha256Sample issuerKey.point).toList.take 20) ∧
      c.certificatePolicies = some [oidRspRoleDpAuth] := by
  apply readers_recover_issued sha256Sample buildCertificate_eumDer (by decide +kernel)
    (by decide +kernel) (by decide) (by decide)
  intro oid hoid
  simp only [List.mem_cons, List.not_mem_nil, or_false] at hoid
  rcases hoid with rfl | rfl | rfl
  · exact occursOnlyInExtension_eum 103 (by decide) (by decide +kernel)
  · exact occursOnlyInExtension_eum 164 (by decide) (by decide +kernel)
  · exact occursOnlyInExtension_eum 131 (by decide) (by decide +kernel)

end TestPki
end EuiccCrypto
