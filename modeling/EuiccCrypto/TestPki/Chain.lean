import EuiccCrypto.Ci
import EuiccCrypto.Ecdsa.Signature
import EuiccCrypto.TestPki.Readers

/-!
# A test chain

`TestPki` of `testpki.rs`: five key pairs, the certificates the CI issues for four of them, and the
identifier under which an eUICC knows the CI. The keys are drawn by the system RNG; `Drawn` is a
draw.

`chain_trusted` says what the chain is good for: whatever is drawn, the certificates it has and those
it issues later are accepted with the keys they are for, verify under the CI certificate, and are
trusted by an eUICC that knows the CI under its identifier.
-/

namespace EuiccCrypto

open Octets Tlv X509 Ci

/-- A self-consistent test chain. -/
structure TestPki (E : EcLib) where
  ci : KeyPair E
  eum : KeyPair E
  euicc : KeyPair E
  dpPb : KeyPair E
  eim : KeyPair E
  dpPbCert : Bytes
  eumCert : Bytes
  euiccCert : Bytes
  ciCert : Bytes
  ciPkId : Bytes

namespace TestPki

variable {E : EcLib}

/-- `KeyPair::generate_on`, given the key that is drawn. -/
def generateOn (curve : CurveKind) (drawn : E.SigningKey curve) : Exec (KeyPair E) :=
  .ok { curve, inner := drawn }

/-- The keys that are drawn for a chain. -/
structure Drawn (E : EcLib) (curve : CurveKind) where
  ci : E.SigningKey curve
  eum : E.SigningKey curve
  euicc : E.SigningKey curve
  dpPb : E.SigningKey curve
  eim : E.SigningKey curve

/-! ### Entities and roles -/

/-- `EUM_SAN_OID`: 2.999.231. -/
def eumSanOid : Bytes := [0x83, 0x37, 0x81, 0x67]

/-- `EUICC_SAN_OID`: 2.999.232. -/
def euiccSanOid : Bytes := [0x83, 0x37, 0x81, 0x68]

/-- `CI_SAN_OID`: 2.999.233. -/
def ciSanOid : Bytes := [0x83, 0x37, 0x81, 0x69]

/-- `RSP_ROLE_EUICC_OID`. -/
def rspRoleEuiccOid : Bytes :=
  [0x67, 0x81, 0x12, 0x01, 0x02, 0x01, 0x00, 0x00, 0x00, 0x00, 0x00]

/-- `RSP_ROLE_CI_OID`. -/
def rspRoleCiOid : Bytes := [0x67, 0x81, 0x12, 0x01, 0x02, 0x01, 0x00, 0x00]

/-- `RSP_ROLE_DP_AUTH_OID`. -/
def rspRoleDpAuthOid : Bytes := [0x67, 0x81, 0x12, 0x01, 0x02, 0x01, 0x00, 0x00, 0x01, 0x01]

/-! ### The chain -/

/-- `expect`: an `Err` panics. -/
def expect {α : Type} : Exec α → Exec α
  | .ok a => .ok a
  | .err _ => .panic
  | .panic => .panic

section Issue

variable (sha256 : Bytes → Vector UInt8 32)

/-- `try_new_on`: a fresh chain on a chosen curve. -/
def tryNewOn (curve : CurveKind) (drawn : Drawn E curve) : Exec (TestPki E) := do
  let ci ← generateOn curve drawn.ci
  let eum ← generateOn curve drawn.eum
  let euicc ← generateOn curve drawn.euicc
  let dpPb ← generateOn curve drawn.dpPb
  let eim ← generateOn curve drawn.eim
  let ciPkId ← slice (sha256 ci.publicKey.point).toList 0 20
  let eumCert ← buildCertificate sha256 "eum" eum.publicKey ci (some eumSanOid)
    (some rspRoleDpAuthOid)
  let euiccCert ← buildCertificate sha256 "euicc" euicc.publicKey ci (some euiccSanOid)
    (some rspRoleEuiccOid)
  let ciCert ← buildCertificate sha256 "ci" ci.publicKey ci (some ciSanOid) (some rspRoleCiOid)
  -- The same entity as in the EUM's certificate, in another role.
  let dpPbCert ← buildCertificate sha256 "dp-pb" dpPb.publicKey ci (some eumSanOid)
    (some oidRspRoleDpPb)
  .ok { ci, eum, euicc, dpPb, eim, dpPbCert, eumCert, euiccCert, ciCert, ciPkId }

variable (pki : TestPki E)

/-- `issue_for_entity`: issue a certificate naming a given entity. -/
def issueForEntity (subject : KeyPair E) (label : String) (sanOid : Bytes) : Exec Bytes :=
  expect (buildCertificate sha256 label subject.publicKey pki.ci (some sanOid)
    (some oidRspRoleDpPb))

/-- `issue_for`: issue a certificate for an arbitrary subject key. -/
def issueFor (subject : KeyPair E) (label : String) : Exec Bytes :=
  pki.issueForEntity sha256 subject label eumSanOid

/-- `issue_with_role`: issue a certificate carrying a given role. -/
def issueWithRole (subject : KeyPair E) (label : String) (roleOid : Bytes) : Exec Bytes :=
  expect (buildCertificate sha256 label subject.publicKey pki.ci (some eumSanOid) (some roleOid))

/-- The certificates of the chain, each with the key pair it is for. -/
def certificates : List (Bytes × KeyPair E) :=
  [(pki.eumCert, pki.eum), (pki.euiccCert, pki.euicc), (pki.ciCert, pki.ci),
    (pki.dpPbCert, pki.dpPb)]

end Issue

/-! ### How long certificates get

`from_der` needs lengths that `der_length` can write, and `build_certificate` does not look. Every
part of a certificate has a bound, in its label, its identifiers and its signature; the sum of the
bounds is one for the certificate (`length_le_of_build`). -/

section Length

variable (sha256 : Bytes → Vector UInt8 32)

theorem length_tlv_le (tag : UInt8) (value : Bytes) :
    (tlv tag value).length ≤ value.length + 4 := by
  have hlen : (derLength value.length).length ≤ 3 := by
    rw [derLength, Der.derLength]
    split
    · simp
    · split <;> simp
  simp only [tlv, List.length_cons, List.length_append]
  omega

theorem length_tlv_flatten_le (tag : UInt8) (parts : List Bytes) :
    (tlv tag parts.flatten).length ≤ (parts.map List.length).sum + 4 := by
  rw [← List.length_flatten]
  exact length_tlv_le tag parts.flatten

theorem length_spki_le {subjectKey : PublicKey} (h : subjectKey.point.length = publicKeyLen) :
    (spki subjectKey).length ≤ 120 := by
  have halg : (tlv 0x30 ([tlv 0x06 oidEcPublicKey, tlv 0x06 subjectKey.curve.oid].flatten)).length ≤
      40 := by
    cases subjectKey.curve <;> decide
  have hbits := length_tlv_le 0x03 (0x00 :: subjectKey.point)
  rw [List.length_cons, h] at hbits
  refine (length_tlv_flatten_le _ _).trans ?_
  simp only [List.map_cons, List.map_nil, List.sum_cons, List.sum_nil, publicKeyLen] at hbits ⊢
  omega

theorem length_authorityKeyIdentifier_le (issuerKey : PublicKey) :
    (authorityKeyIdentifier sha256 issuerKey).length ≤ 50 := by
  have hkey := length_keyIdentifier sha256 issuerKey
  have h80 := length_tlv_le 0x80 (keyIdentifier sha256 issuerKey)
  have h30 := length_tlv_le 0x30 (tlv 0x80 (keyIdentifier sha256 issuerKey))
  have h04 := length_tlv_le 0x04 (tlv 0x30 (tlv 0x80 (keyIdentifier sha256 issuerKey)))
  have h06 : (tlv 0x06 [0x55, 0x1D, 0x23]).length = 5 := rfl
  refine (length_tlv_flatten_le _ _).trans ?_
  rw [keyIdentifier] at *
  simp only [List.map_cons, List.map_nil, List.sum_cons, List.sum_nil]
  omega

theorem length_certificatePolicies_le (role : Bytes) :
    (certificatePolicies role).length ≤ role.length + 40 := by
  have h06 := length_tlv_le 0x06 role
  have h30 := length_tlv_le 0x30 (tlv 0x06 role)
  have h30' := length_tlv_le 0x30 (tlv 0x30 (tlv 0x06 role))
  have h04 := length_tlv_le 0x04 (tlv 0x30 (tlv 0x30 (tlv 0x06 role)))
  have hoid : (tlv 0x06 [0x55, 0x1D, 0x20]).length = 5 := rfl
  have hcritical : (tlv 0x01 [0xFF]).length = 3 := rfl
  refine (length_tlv_flatten_le _ _).trans ?_
  simp only [List.map_cons, List.map_nil, List.sum_cons, List.sum_nil]
  omega

theorem length_subjectAltName_le (oid : Bytes) :
    (subjectAltName oid).length ≤ oid.length + 40 := by
  have h88 := length_tlv_le 0x88 oid
  have h30 := length_tlv_le 0x30 (tlv 0x88 oid)
  have h04 := length_tlv_le 0x04 (tlv 0x30 (tlv 0x88 oid))
  have hoid : (tlv 0x06 [0x55, 0x1D, 0x11]).length = 5 := rfl
  refine (length_tlv_flatten_le _ _).trans ?_
  simp only [List.map_cons, List.map_nil, List.sum_cons, List.sum_nil]
  omega

theorem length_extensions_le (issuerKey : PublicKey) (sanOid roleOid : Option Bytes) :
    (extensions sha256 issuerKey sanOid roleOid).length ≤
      (sanOid.getD []).length + (roleOid.getD []).length + 150 := by
  have haki := length_authorityKeyIdentifier_le sha256 issuerKey
  have hrole : ((roleOid.map certificatePolicies).toList.map List.length).sum ≤
      (roleOid.getD []).length + 40 := by
    cases roleOid with
    | none => simp
    | some role => simpa using length_certificatePolicies_le role
  have hsan : ((sanOid.map subjectAltName).toList.map List.length).sum ≤
      (sanOid.getD []).length + 40 := by
    cases sanOid with
    | none => simp
    | some oid => simpa using length_subjectAltName_le oid
  refine (length_tlv_le _ _).trans ?_
  refine Nat.le_trans (Nat.add_le_add_right (length_tlv_flatten_le _ _) 4) ?_
  rw [List.map_cons, List.map_append, List.sum_cons, List.sum_append]
  omega

theorem length_name_le (label : String) : (name label).length ≤ label.toUTF8.size + 50 := by
  have hoid : (tlv 0x06 [0x55, 0x04, 0x03]).length = 5 := rfl
  have hcn : (testCnPrefix ++ " " ++ label).toUTF8.toList.length = label.toUTF8.size + 17 := by
    have hprefixLen : testCnPrefix.toUTF8.size + " ".toUTF8.size = 17 := by decide
    rw [length_byteArray_toList]
    simp only [String.toUTF8_eq_toByteArray, String.toByteArray_append,
      ByteArray.size_append] at hprefixLen ⊢
    omega
  have h0c := length_tlv_le 0x0c (testCnPrefix ++ " " ++ label).toUTF8.toList
  refine (length_tlv_le _ _).trans ?_
  refine Nat.le_trans (Nat.add_le_add_right (length_tlv_le _ _) 4) ?_
  refine Nat.le_trans (Nat.add_le_add_right (Nat.add_le_add_right (length_tlv_flatten_le _ _) 4) 4)
    ?_
  simp only [List.map_cons, List.map_nil, List.sum_cons, List.sum_nil]
  omega

/-- The label stands in a certificate twice; the rest is short. -/
theorem length_le_of_build {label : String} {subjectKey : PublicKey} {issuer : KeyPair E}
    {sanOid roleOid : Option Bytes} {der signature : Bytes}
    (hbuild : buildCertificate sha256 label subjectKey issuer sanOid roleOid = .ok der)
    (hpoint : subjectKey.point.length = publicKeyLen)
    (hsign : issuer.signDer (tbsCertificate sha256 label subjectKey issuer.publicKey sanOid
      roleOid) = .ok signature) :
    der.length ≤ 2 * (name label).length + (sanOid.getD []).length + (roleOid.getD []).length +
      signature.length + 400 := by
  simp only [buildCertificate, hsign, Exec.ok_bind, Exec.ok.injEq] at hbuild
  subst hbuild
  have hversion : (tlv 0xa0 (tlv 0x02 [0x02])).length = 5 := rfl
  have hserial : (tlv 0x02 (serialBytes sha256 subjectKey)).length ≤ 13 := by
    refine (length_tlv_le _ _).trans ?_
    rw [serialBytes]
    split <;> simp
  have halg : sigAlg.length = 14 := by decide
  have hvalidity : validity.length = 32 := by decide +kernel
  have hspki := length_spki_le hpoint
  have hext := length_extensions_le sha256 issuer.publicKey sanOid roleOid
  have hbits := length_tlv_le 0x03 (0x00 :: signature)
  have htbs : (tbsCertificate sha256 label subjectKey issuer.publicKey sanOid roleOid).length ≤
      2 * (name label).length + (sanOid.getD []).length + (roleOid.getD []).length + 340 := by
    refine (length_tlv_flatten_le _ _).trans ?_
    simp only [List.map_cons, List.map_nil, List.sum_cons, List.sum_nil]
    omega
  refine (length_tlv_flatten_le _ _).trans ?_
  simp only [List.map_cons, List.map_nil, List.sum_cons, List.sum_nil, List.length_cons] at hbits ⊢
  omega

end Length

/-! ### What is issued is accepted -/

/-- What the elliptic-curve crates promise of a key pair they make: its point is one of the curve,
its signatures verify, and in DER they have at most 72 octets. -/
structure KeyPairSound (kp : KeyPair E) : Prop where
  point : PublicKey.fromBytes E kp.curve kp.publicKey.point = .ok kp.publicKey
  signatures : kp.SignaturesVerify
  length_signDer : ∀ message signature, kp.signDer message = .ok signature → signature.length ≤ 72

section Accepted

variable (sha256 : Bytes → Vector UInt8 32) (webpki : Bytes → Bool) {label : String}
  {subjectKey : PublicKey} {issuer : KeyPair E} {sanOid roleOid : Option Bytes} {der : Bytes}

theorem exists_build (label : String) (subjectKey : PublicKey) (issuer : KeyPair E)
    (sanOid roleOid : Option Bytes) :
    ∃ der signature, buildCertificate sha256 label subjectKey issuer sanOid roleOid = .ok der ∧
      issuer.signDer (tbsCertificate sha256 label subjectKey issuer.publicKey sanOid roleOid) =
        .ok signature := ⟨_, _, rfl, rfl⟩

/-- The certificate as it is read back: whose key it has, and that the issuer's key verifies it. -/
theorem exists_issued
    (hbuild : buildCertificate sha256 label subjectKey issuer sanOid roleOid = .ok der)
    (hder : der.length ≤ 0xffff)
    (hsubject : PublicKey.fromBytes E subjectKey.curve subjectKey.point = .ok subjectKey)
    (hverify : issuer.SignaturesVerify) :
    ∃ c : Certificate E, Certificate.fromDer webpki der = .ok c ∧ c.der = der ∧
      c.publicKey = subjectKey ∧ c.verifySignedByKey issuer.publicKey = .ok () := by
  obtain ⟨htbs, alg, signature, hsign, rfl⟩ :=
    buildCertificate_eq sha256 hbuild hder (PublicKey.fromBytes_eq_ok.mp hsubject).1
  have hbody := length_body_lt hder
  refine ⟨⟨_, subjectKey, webpki _, extractSpkiPublicKey_certificateDer hbody rfl hsubject⟩,
    Certificate.fromDer_eq_ok.mpr ⟨rfl, rfl⟩, rfl, rfl, ?_⟩
  rw [Certificate.verifySignedByKey, extractTbsAndSignature_certificateDer hbody, ← htbs,
    Exec.ok_bind]
  exact hverify _ _ hsign

/-- An extension of an issued certificate is found under its OID. -/
theorem extensionValue_issued
    (hbuild : buildCertificate sha256 label subjectKey issuer sanOid roleOid = .ok der)
    (hder : der.length ≤ 0xffff) (hpoint : subjectKey.point.length = publicKeyLen)
    (hsan : ∀ oid ∈ sanOid, oid.length ≤ 123) (hrole : ∀ role ∈ roleOid, role.length ≤ 121)
    {oid : Bytes} (hoid : oid.length = 5) (honly : OccursOnlyInExtension der oid) :
    extensionValue der oid = ((issuedExtensions sha256 issuer.publicKey sanOid roleOid).find?
      fun e => e.oid = oid).map Extension.value := by
  obtain ⟨l, x, hitems⟩ := issued_items sha256 hbuild hder hpoint hsan hrole
  exact extensionValue_eq_find? x hitems (fun e he => (length_oid_issued he).trans hoid.symm)
    (fun e he => length_value_issued hsan hrole he) nodup_issued honly

theorem authorityKeyIdentifier_issued {c : Certificate E} (hc : c.der = der)
    (hbuild : buildCertificate sha256 label subjectKey issuer sanOid roleOid = .ok der)
    (hder : der.length ≤ 0xffff) (hpoint : subjectKey.point.length = publicKeyLen)
    (hsan : ∀ oid ∈ sanOid, oid.length ≤ 123) (hrole : ∀ role ∈ roleOid, role.length ≤ 121)
    (honly : OccursOnlyInExtension der oidAuthorityKeyIdentifier) :
    c.authorityKeyIdentifier = some (keyIdentifier sha256 issuer.publicKey) := by
  rw [Certificate.authorityKeyIdentifier, Certificate.extensionValue, hc,
    extensionValue_issued sha256 hbuild hder hpoint hsan hrole rfl honly,
    find?_authorityKeyIdentifier]
  exact authorityKeyIdOf_encode (by rw [length_keyIdentifier]; decide)

end Accepted

/-! ### The chain is trusted

`Issuing` is what a chain keeps to issue by: its CI's key pair is sound, and is the one it is
known by and has a certificate for. It holds of every chain that is made (`exists_issuing`), and
what is issued under it is trusted (`Issuing.trusted`); the certificates of the chain are four
cases of that. -/

/-- `der` is a certificate for `key` that the CI of the chain vouches for: under its certificate,
and for every eUICC that has the CI's key and is asked for its identifier, or a part of it. -/
def Trusted (pki : TestPki E) (webpki : Bytes → Bool) (der : Bytes) (key : PublicKey) : Prop :=
  ∃ c ca : Certificate E, Certificate.fromDer webpki der = .ok c ∧ c.publicKey = key ∧
    Certificate.fromDer webpki pki.ciCert = .ok ca ∧ c.verifySignedBy ca = .ok () ∧
    (∀ (set : CiKeySet) (requested : Bytes), ⟨pki.ciPkId, pki.ci.publicKey⟩ ∈ set.keys →
      Names requested pki.ciPkId → ∃ k, set.verifyServerCertificate requested c = .ok k) ∧
    (OccursOnlyInExtension der oidAuthorityKeyIdentifier →
      c.authorityKeyIdentifier = some pki.ciPkId)

section Chain

variable {sha256 : Bytes → Vector UInt8 32} {webpki : Bytes → Bool} {curve : CurveKind}
  {drawn : Drawn E curve} {pki : TestPki E}

/-- The key pairs that are made of a draw. -/
def Drawn.keyPairs (drawn : Drawn E curve) : List (KeyPair E) :=
  [⟨curve, drawn.ci⟩, ⟨curve, drawn.eum⟩, ⟨curve, drawn.euicc⟩, ⟨curve, drawn.dpPb⟩,
    ⟨curve, drawn.eim⟩]

/-- What a chain is made of: every certificate is issued by the CI for the key pair it stands
beside, with a short label. -/
theorem exists_tryNewOn (sha256 : Bytes → Vector UInt8 32) (drawn : Drawn E curve) :
    ∃ pki, tryNewOn sha256 curve drawn = .ok pki ∧
      [pki.ci, pki.eum, pki.euicc, pki.dpPb, pki.eim] = drawn.keyPairs ∧
      pki.ciPkId = keyIdentifier sha256 pki.ci.publicKey ∧
      ∀ e ∈ pki.certificates, e.2 ∈ drawn.keyPairs ∧
        ∃ label san role, (name label).length ≤ 50 ∧ san.length ≤ 123 ∧ role.length ≤ 121 ∧
          buildCertificate sha256 label e.2.publicKey pki.ci (some san) (some role) = .ok e.1 := by
  have hid : slice (sha256 (KeyPair.publicKey ⟨curve, drawn.ci⟩).point).toList 0 20 =
      .ok (keyIdentifier sha256 (KeyPair.publicKey ⟨curve, drawn.ci⟩)) :=
    slice_eq_ok.mpr ⟨by simp, rfl⟩
  obtain ⟨pki, hmake⟩ : ∃ pki, tryNewOn sha256 curve drawn = .ok pki := by
    simp only [tryNewOn, generateOn, hid, buildCertificate, KeyPair.signDer, Exec.ok_bind]
    exact ⟨_, rfl⟩
  refine ⟨pki, hmake, ?_⟩
  simp only [tryNewOn, generateOn, hid, Exec.ok_bind, Exec.bind_eq_ok, Exec.ok.injEq] at hmake
  obtain ⟨eumCert, heum, euiccCert, heuicc, ciCert, hci, dpPbCert, hdpPb, rfl⟩ := hmake
  refine ⟨rfl, rfl, ?_⟩
  simp only [certificates, List.forall_mem_cons, List.not_mem_nil, false_implies, implies_true,
    and_true]
  refine ⟨⟨?_, "eum", _, _, ?_, ?_, ?_, heum⟩, ⟨?_, "euicc", _, _, ?_, ?_, ?_, heuicc⟩,
    ⟨?_, "ci", _, _, ?_, ?_, ?_, hci⟩, ⟨?_, "dp-pb", _, _, ?_, ?_, ?_, hdpPb⟩⟩
  all_goals first | decide +kernel | simp [Drawn.keyPairs]

/-- A chain that can issue: its CI's key pair is sound, and is the one it is known by and has a
certificate for. -/
structure Issuing (sha256 : Bytes → Vector UInt8 32) (webpki : Bytes → Bool) (pki : TestPki E) :
    Prop where
  sound : KeyPairSound pki.ci
  ciPkId_eq : pki.ciPkId = keyIdentifier sha256 pki.ci.publicKey
  exists_ca : ∃ ca : Certificate E, Certificate.fromDer webpki pki.ciCert = .ok ca ∧
    ca.publicKey = pki.ci.publicKey

/-- What a sound CI signs is short, but for the label. -/
theorem KeyPairSound.length_build_le {ci : KeyPair E} (hci : KeyPairSound ci) {label : String}
    {subjectKey : PublicKey} {san role der : Bytes}
    (hsubject : PublicKey.fromBytes E subjectKey.curve subjectKey.point = .ok subjectKey)
    (hname : (name label).length ≤ 32050) (hsan : san.length ≤ 123) (hrole : role.length ≤ 121)
    (hbuild : buildCertificate sha256 label subjectKey ci (some san) (some role) = .ok der) :
    der.length ≤ 0xffff := by
  obtain ⟨-, signature, -, hsign⟩ := exists_build sha256 label subjectKey ci (some san) (some role)
  have hlen := length_le_of_build sha256 hbuild (PublicKey.fromBytes_eq_ok.mp hsubject).1 hsign
  have hsig := hci.length_signDer _ _ hsign
  simp only [Option.getD_some] at hlen
  omega

theorem Issuing.trusted (hpki : Issuing sha256 webpki pki) {label : String}
    {subjectKey : PublicKey} {san role der : Bytes}
    (hsubject : PublicKey.fromBytes E subjectKey.curve subjectKey.point = .ok subjectKey)
    (hname : (name label).length ≤ 32050) (hsan : san.length ≤ 123) (hrole : role.length ≤ 121)
    (hbuild : buildCertificate sha256 label subjectKey pki.ci (some san) (some role) = .ok der) :
    Trusted pki webpki der subjectKey := by
  have hder := hpki.sound.length_build_le hsubject hname hsan hrole hbuild
  obtain ⟨c, hc, hcder, hkey, hverify⟩ :=
    exists_issued sha256 webpki hbuild hder hsubject hpki.sound.signatures
  obtain ⟨ca, hca, hcaKey⟩ := hpki.exists_ca
  refine ⟨c, ca, hc, hkey, hca, ?_, ?_, ?_⟩
  · rw [Certificate.verifySignedBy, hcaKey]
    exact hverify
  · intro set requested hmem hnames
    exact exists_verifyServerCertificate hmem hnames hverify
  · intro honly
    rw [hpki.ciPkId_eq]
    exact authorityKeyIdentifier_issued sha256 hcder hbuild hder
      (PublicKey.fromBytes_eq_ok.mp hsubject).1 (by simpa) (by simpa) honly

/-- Issuing does not panic. -/
theorem Issuing.exists_expect (hpki : Issuing sha256 webpki pki) {subject : KeyPair E}
    {label : String} {san role : Bytes}
    (hsubject : PublicKey.fromBytes E subject.curve subject.publicKey.point =
      .ok subject.publicKey)
    (hlabel : label.toUTF8.size ≤ 32000) (hsan : san.length ≤ 123) (hrole : role.length ≤ 121) :
    ∃ der, expect (buildCertificate sha256 label subject.publicKey pki.ci (some san)
      (some role)) = .ok der ∧ Trusted pki webpki der subject.publicKey := by
  have hname := length_name_le label
  obtain ⟨der, -, hbuild, -⟩ := exists_build sha256 label subject.publicKey pki.ci (some san)
    (some role)
  exact ⟨der, by rw [hbuild]; rfl, hpki.trusted hsubject (by omega) hsan hrole hbuild⟩

/-- The chain of a sound draw can issue, and its certificates are trusted. -/
theorem exists_issuing (sha256 : Bytes → Vector UInt8 32) (webpki : Bytes → Bool)
    (hdrawn : ∀ kp ∈ drawn.keyPairs, KeyPairSound kp) :
    ∃ pki, tryNewOn sha256 curve drawn = .ok pki ∧ Issuing sha256 webpki pki ∧
      [pki.ci, pki.eum, pki.euicc, pki.dpPb, pki.eim] = drawn.keyPairs ∧
      ∀ e ∈ pki.certificates, Trusted pki webpki e.1 e.2.publicKey := by
  obtain ⟨pki, hmake, hkeys, hid, hcerts⟩ := exists_tryNewOn sha256 drawn
  have hci : KeyPairSound pki.ci := hdrawn _ (by rw [← hkeys]; simp)
  obtain ⟨-, label, san, role, hname, hsan, hrole, hbuild⟩ :=
    hcerts (pki.ciCert, pki.ci) (by simp [certificates])
  obtain ⟨ca, hca, -, hkey, -⟩ := exists_issued sha256 webpki hbuild
    (hci.length_build_le hci.point (by omega) hsan hrole hbuild) hci.point hci.signatures
  have hpki : Issuing sha256 webpki pki := ⟨hci, hid, ca, hca, hkey⟩
  refine ⟨pki, hmake, hpki, hkeys, ?_⟩
  intro e he
  obtain ⟨hkp, label, san, role, hname, hsan, hrole, hbuild⟩ := hcerts e he
  exact hpki.trusted (hdrawn e.2 hkp).point (by omega) hsan hrole hbuild

/-- **The chain is trusted.** Whatever is drawn, there is a chain on the curve; the CI's identifier
is the first 20 octets of its key's hash; and the certificates of the chain, as well as all that it
issues for other keys, are trusted under that identifier. Issuing does not panic. -/
theorem chain_trusted (sha256 : Bytes → Vector UInt8 32) (webpki : Bytes → Bool)
    (drawn : Drawn E curve) (hdrawn : ∀ kp ∈ drawn.keyPairs, KeyPairSound kp) :
    ∃ pki, tryNewOn sha256 curve drawn = .ok pki ∧
      (∀ kp ∈ [pki.ci, pki.eum, pki.euicc, pki.dpPb, pki.eim], kp.curve = curve) ∧
      pki.ciPkId.length = 20 ∧ pki.ciPkId <+: (sha256 pki.ci.publicKey.point).toList ∧
      (∀ e ∈ pki.certificates, Trusted pki webpki e.1 e.2.publicKey) ∧
      ∀ (subject : KeyPair E) (label : String) (san role : Bytes),
        PublicKey.fromBytes E subject.curve subject.publicKey.point = .ok subject.publicKey →
        label.toUTF8.size ≤ 32000 → san.length ≤ 123 → role.length ≤ 121 →
        ∀ issued ∈ [pki.issueFor sha256 subject label, pki.issueForEntity sha256 subject label san,
          pki.issueWithRole sha256 subject label role],
          ∃ der, issued = .ok der ∧ Trusted pki webpki der subject.publicKey := by
  obtain ⟨pki, hmake, hpki, hkeys, hcerts⟩ := exists_issuing sha256 webpki hdrawn
  refine ⟨pki, hmake, ?_, ?_, ?_, hcerts, ?_⟩
  · rw [hkeys]
    simp [Drawn.keyPairs]
  · rw [hpki.ciPkId_eq, length_keyIdentifier]
  · rw [hpki.ciPkId_eq]
    exact List.take_prefix _ _
  · intro subject label san role hsubject hlabel hsan hrole
    simp only [List.forall_mem_cons, List.not_mem_nil, false_implies, implies_true, and_true]
    exact ⟨hpki.exists_expect hsubject hlabel (by decide) (by decide),
      hpki.exists_expect hsubject hlabel hsan (by decide),
      hpki.exists_expect hsubject hlabel (by decide) hrole⟩

end Chain

/-! ### A chain -/

theorem keyPairSound_ofMade {n : Nat} {made : Fin (n + 1) → MadeSignature}
    (hder : ∀ i j, (made i).der = (made j).der → i = j) (hlen : ∀ i, (made i).der.length ≤ 72)
    {kp : KeyPair (EcLib.ofMade made)} (h : kp.curve.onCurve kp.publicKey.point = true) :
    KeyPairSound kp where
  point := by
    have hshape := h
    simp only [CurveKind.onCurve, Bool.and_eq_true, decide_eq_true_eq] at hshape
    refine PublicKey.fromBytes_eq_ok.mpr ⟨hshape.1.1.1.1, hshape.1.1.1.2, ?_, rfl⟩
    exact Option.isSome_iff_exists.mpr ⟨_, if_pos h⟩
  signatures := EcLib.ofMade_signaturesVerify hder h
  length_signDer := by
    rintro message _ ⟨⟩
    exact hlen _

/-- The public keys that are drawn. -/
def ciPoint : Bytes :=
  [0x04, 0xa0, 0xc9, 0xcd, 0xed, 0xb2, 0xe1, 0xe0, 0x3c, 0xdd, 0x7b, 0x72, 0x0a, 0x42, 0xad,
   0xa7, 0x92, 0x70, 0x7d, 0x5b, 0xac, 0x50, 0x34, 0x73, 0x52, 0xc2, 0xb3, 0xd4, 0x60, 0x96,
   0xd1, 0xa0, 0x86, 0x91, 0xbf, 0x81, 0x13, 0x1b, 0x0f, 0xa4, 0xdb, 0xd1, 0xcb, 0x29, 0x40,
   0x22, 0xde, 0xb8, 0x08, 0x6b, 0x36, 0x32, 0x89, 0xdb, 0xc5, 0xbb, 0x28, 0x73, 0x11, 0x0a,
   0xb0, 0xfa, 0xfb, 0x39, 0xc8]

def eumPoint : Bytes :=
  [0x04, 0xce, 0xbb, 0xec, 0xed, 0xbd, 0x09, 0x2f, 0x6b, 0x97, 0xf7, 0xe8, 0xc4, 0x6f, 0x20,
   0x3e, 0xc9, 0x03, 0xa0, 0xc6, 0x88, 0x5c, 0x04, 0xe9, 0xa3, 0x73, 0xc9, 0xe0, 0x06, 0x23,
   0x4d, 0x94, 0x64, 0xbc, 0xd7, 0xa8, 0x01, 0xcf, 0x8d, 0xf7, 0x92, 0x66, 0xd5, 0xea, 0x53,
   0xa5, 0xe9, 0x26, 0x89, 0x3b, 0x63, 0xb9, 0x76, 0xf6, 0x8c, 0x9a, 0x43, 0xa4, 0x44, 0xdb,
   0x01, 0x1f, 0xc9, 0xd5, 0x42]

def euiccPoint : Bytes :=
  [0x04, 0x35, 0xef, 0x67, 0xf8, 0x52, 0xd4, 0x4c, 0x27, 0xbc, 0x09, 0x23, 0xdb, 0xf6, 0x2d,
   0xa3, 0x18, 0xd9, 0xbb, 0x3a, 0xc2, 0xe7, 0xef, 0x3d, 0x8f, 0x18, 0x8a, 0xb2, 0xfc, 0x41,
   0xfa, 0x6a, 0x64, 0x3e, 0x02, 0xa0, 0xa8, 0x4c, 0xa9, 0x1f, 0x2a, 0x6a, 0xd4, 0x55, 0x56,
   0x93, 0x01, 0xa9, 0xe1, 0x63, 0x76, 0xff, 0x74, 0xea, 0xbe, 0x77, 0xf2, 0xf0, 0x74, 0xe3,
   0x64, 0x42, 0x33, 0x4f, 0xf8]

def dpPbPoint : Bytes :=
  [0x04, 0x90, 0xb6, 0xbe, 0x4a, 0x0d, 0xd5, 0xe0, 0x7c, 0x67, 0xca, 0x67, 0x0f, 0x7b, 0x3e,
   0x9e, 0x8b, 0xce, 0x82, 0xff, 0x97, 0x6f, 0x0b, 0x76, 0xaa, 0x36, 0xeb, 0xd7, 0x23, 0xd9,
   0xa2, 0x8d, 0x56, 0xc1, 0x78, 0x53, 0xea, 0x2a, 0x13, 0x96, 0x0e, 0xd5, 0x6c, 0x84, 0x4f,
   0x90, 0x52, 0x84, 0x58, 0x5c, 0xa4, 0x61, 0xa4, 0x38, 0x02, 0x36, 0xad, 0xe2, 0xe1, 0xae,
   0xa5, 0xce, 0xcd, 0x5d, 0x25]

/-- SHA-256 where it is needed: on these keys, and on the key of a server. -/
def chainSha256 (input : Bytes) : Vector UInt8 32 :=
  if input = ciPoint then
    #v[0xb6, 0x4e, 0xff, 0x8b, 0xcf, 0x0a, 0x7f, 0xfd, 0x22, 0x83, 0xa3, 0x4b, 0xbf, 0xc1, 0x9c,
       0x9c, 0x44, 0x60, 0xbc, 0x0d, 0x0f, 0xe3, 0x21, 0xc9, 0xee, 0xef, 0xfd, 0x74, 0x39, 0x3b,
       0x38, 0xf4]
  else if input = eumPoint then
    #v[0x12, 0xfc, 0xc6, 0xac, 0x1a, 0x2e, 0x92, 0xe6, 0x7e, 0x9a, 0x8c, 0x87, 0x19, 0x33, 0x8e,
       0x13, 0xfe, 0xf0, 0xd7, 0xf7, 0xec, 0xca, 0x49, 0x1a, 0x65, 0xfc, 0x20, 0xf9, 0x7a, 0x7f,
       0x11, 0xf9]
  else if input = euiccPoint then
    #v[0x13, 0xd6, 0x9d, 0xe2, 0x3a, 0x58, 0x96, 0x71, 0xd4, 0x91, 0x16, 0x1b, 0x1b, 0x12, 0x31,
       0x00, 0x00, 0x6a, 0x0c, 0x78, 0x8b, 0xdc, 0xc8, 0x54, 0x01, 0x89, 0x59, 0x56, 0xb6, 0xd6,
       0x42, 0x61]
  else if input = dpPbPoint then
    #v[0x22, 0x38, 0x1f, 0xa3, 0x0c, 0x75, 0xa6, 0x21, 0x0c, 0xa7, 0xc3, 0x62, 0x3f, 0xf7, 0xc2,
       0xef, 0x7e, 0x83, 0x78, 0x32, 0x66, 0x32, 0xd4, 0xea, 0xc6, 0x73, 0xb4, 0xa1, 0x0a, 0xd0,
       0x9b, 0x45]
  else
    #v[0xb1, 0x8b, 0x86, 0xce, 0x13, 0x89, 0xe4, 0x6d, 0xe8, 0x7a, 0xa4, 0xa5, 0x13, 0x1c, 0xe8,
       0x3c, 0x11, 0x60, 0xfa, 0x33, 0xc0, 0x87, 0xab, 0x15, 0xb8, 0x63, 0x57, 0x4d, 0x31, 0xd8,
       0xff, 0x3c]

/-- A signature of the CI over a tbsCertificate. -/
def ciMade (label : String) (subjectPoint san role raw : Bytes) : MadeSignature where
  key := ciPoint
  message := tbsCertificate chainSha256 label ⟨.p256, subjectPoint⟩ ⟨.p256, ciPoint⟩ (some san)
    (some role)
  raw

def eumMade : MadeSignature := ciMade "eum" eumPoint eumSanOid rspRoleDpAuthOid
  [0xa7, 0xe5, 0xe2, 0xa1, 0xcf, 0xb6, 0xa4, 0x91, 0x0f, 0xb3, 0x79, 0xad, 0xf5, 0x31, 0x7d,
   0x74, 0x83, 0x6a, 0x28, 0x6f, 0x02, 0x5a, 0x59, 0xc1, 0x96, 0x13, 0xf5, 0x92, 0x63, 0x5c,
   0x3c, 0x89, 0xb8, 0x16, 0x7a, 0x70, 0xb5, 0x98, 0x82, 0x00, 0xd0, 0x1a, 0xed, 0xe3, 0xd8,
   0x44, 0xf7, 0x8f, 0xd7, 0x63, 0x54, 0x12, 0xa1, 0x93, 0x25, 0xa0, 0x09, 0x91, 0x5a, 0xa0,
   0x42, 0x83, 0x21, 0xfa]

def euiccMade : MadeSignature := ciMade "euicc" euiccPoint euiccSanOid rspRoleEuiccOid
  [0x88, 0x87, 0x39, 0x61, 0xc2, 0x94, 0x5e, 0x24, 0xe5, 0x9b, 0x2f, 0xb4, 0xdb, 0xdc, 0x63,
   0xad, 0x9b, 0x59, 0xf3, 0xfb, 0xdc, 0x86, 0x04, 0x7d, 0x85, 0x4f, 0xb0, 0x56, 0x77, 0xcd,
   0x1b, 0x40, 0x43, 0x7f, 0x1b, 0xa9, 0xc5, 0x2c, 0xcc, 0x20, 0x9a, 0x92, 0xf4, 0xd5, 0xf0,
   0x95, 0x23, 0xa4, 0x74, 0x91, 0x8b, 0x47, 0xc2, 0x55, 0x08, 0x93, 0x76, 0x76, 0xeb, 0xb6,
   0xda, 0xb1, 0x43, 0x6a]

def ciSelfMade : MadeSignature := ciMade "ci" ciPoint ciSanOid rspRoleCiOid
  [0x3c, 0xbc, 0x86, 0x38, 0x07, 0x0a, 0x80, 0x8b, 0xba, 0x52, 0xfe, 0x6c, 0x32, 0x15, 0x71,
   0x55, 0xa5, 0x83, 0x6b, 0xa9, 0x66, 0xfc, 0xa4, 0x1f, 0x7d, 0x56, 0x4c, 0xd5, 0xc4, 0x6d,
   0x04, 0xba, 0x22, 0x39, 0x77, 0x0f, 0xdb, 0xc8, 0x85, 0xd7, 0xf4, 0x7f, 0xfc, 0xfa, 0x00,
   0x28, 0xc6, 0x46, 0xbe, 0x35, 0xf7, 0x21, 0xcd, 0x6d, 0x45, 0x96, 0x38, 0xd9, 0xce, 0xd9,
   0x36, 0x68, 0xa8, 0x8b]

def dpPbMade : MadeSignature := ciMade "dp-pb" dpPbPoint eumSanOid oidRspRoleDpPb
  [0xe9, 0xd7, 0x70, 0x03, 0xce, 0x89, 0x0d, 0xd3, 0xbb, 0x10, 0x13, 0x88, 0x45, 0x19, 0xaf,
   0xf1, 0x39, 0x18, 0x54, 0xae, 0x39, 0x24, 0x27, 0xae, 0x5a, 0x5b, 0x0c, 0xda, 0x35, 0x36,
   0x29, 0x21, 0x2a, 0x5b, 0xde, 0xa2, 0xa9, 0xd3, 0x4c, 0x9d, 0x9c, 0xf3, 0x80, 0xe3, 0x2b,
   0x60, 0xd6, 0x0f, 0xaa, 0x55, 0x26, 0xe1, 0x4a, 0x3e, 0x76, 0x02, 0x3e, 0x07, 0x94, 0x33,
   0x01, 0xe4, 0x36, 0xbd]

def serverMade : MadeSignature := ciMade "smdp" madeSample.key eumSanOid oidRspRoleDpPb
  [0xcc, 0x4f, 0x31, 0x2f, 0x50, 0x69, 0x7b, 0xf0, 0x5c, 0x49, 0xfe, 0x19, 0xd8, 0x70, 0x3b,
   0xbe, 0x4c, 0x76, 0x22, 0xfc, 0x7e, 0xf3, 0xa3, 0x81, 0x0d, 0x2e, 0x97, 0xab, 0x0e, 0x46,
   0x6a, 0x2e, 0x85, 0xe9, 0x34, 0x2c, 0x3b, 0x69, 0x4b, 0xc0, 0xd7, 0x23, 0x28, 0x20, 0x26,
   0xf0, 0x11, 0xca, 0xaa, 0x3e, 0xb6, 0xc3, 0x9c, 0x89, 0x07, 0x4f, 0x2a, 0x2e, 0xe3, 0x06,
   0x0d, 0x8f, 0x1f, 0x33]

def chainDrawn {n : Nat} (made : Fin (n + 1) → MadeSignature) :
    Drawn (EcLib.ofMade made) .p256 where
  ci := ciPoint
  eum := eumPoint
  euicc := euiccPoint
  dpPb := dpPbPoint
  eim := serverPoint

theorem keyPairSound_chainDrawn {n : Nat} {made : Fin (n + 1) → MadeSignature}
    (hder : ∀ i j, (made i).der = (made j).der → i = j) (hlen : ∀ i, (made i).der.length ≤ 72) :
    ∀ kp ∈ (chainDrawn made).keyPairs, KeyPairSound kp := by
  have hsound : ∀ point, CurveKind.p256.onCurve point = true →
      KeyPairSound (⟨.p256, point⟩ : KeyPair (EcLib.ofMade made)) :=
    fun _ h => keyPairSound_ofMade hder hlen h
  simp only [Drawn.keyPairs, List.forall_mem_cons, List.not_mem_nil, false_implies, implies_true,
    and_true]
  exact ⟨hsound ciPoint (by decide +kernel), hsound eumPoint (by decide +kernel),
    hsound euiccPoint (by decide +kernel), hsound dpPbPoint (by decide +kernel),
    hsound serverPoint (by decide +kernel)⟩

/-- The signatures that are made for the chain and for the certificate of a server. -/
def chainMade (i : Fin 5) : MadeSignature :=
  [eumMade, euiccMade, ciSelfMade, dpPbMade, serverMade].get i

theorem chain_trusted_sample :
    ∃ pki, tryNewOn chainSha256 .p256 (chainDrawn chainMade) = .ok pki ∧
      (∀ e ∈ pki.certificates, Trusted pki (fun _ => false) e.1 e.2.publicKey) ∧
      ∃ der, pki.issueFor chainSha256 ⟨.p256, madeSample.key⟩ "smdp" = .ok der ∧
        Trusted pki (fun _ => false) der ⟨.p256, madeSample.key⟩ := by
  obtain ⟨pki, hmake, -, -, -, hcerts, hissue⟩ := chain_trusted chainSha256 (fun _ => false)
    (chainDrawn chainMade) (keyPairSound_chainDrawn (by decide +kernel) (by decide +kernel))
  have hserver : PublicKey.fromBytes (EcLib.ofMade chainMade) .p256 madeSample.key =
      .ok ⟨.p256, madeSample.key⟩ := by decide +kernel
  exact ⟨pki, hmake, hcerts, hissue ⟨.p256, madeSample.key⟩ "smdp" [] [] hserver (by decide)
    (by decide) (by decide) _ (by simp)⟩

end TestPki
end EuiccCrypto
