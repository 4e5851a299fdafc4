import EuiccCrypto.Lib.Distinguished
import EuiccCrypto.TestPki

/-!
# Issued certificates as DER

Whether what `build_certificate` writes is DER. `certificateTree` is the certificate as a tree with
one node for each call of `tlv`, and `buildCertificate_eq_write` says that the certificate is that
tree, written with `der_length`. `built_distinguished_iff` says for which keys the certificate is as
DER wants it: the lengths always are, the serial number is unless the digest of the subject's key
starts with a zero octet that could be left out.
-/

namespace EuiccCrypto
namespace TestPki

open Octets Tlv Tree X509

/-! ### The certificate as a tree -/

def sigAlgTree : Tree := .constructed 0x30 [.primitive 0x06 oidEcdsaSha256, .primitive 0x05 []]

def nameTree (label : String) : Tree :=
  let cn := testCnPrefix ++ " " ++ label
  .constructed 0x30 [.constructed 0x31 [.constructed 0x30
    [.primitive 0x06 [0x55, 0x04, 0x03], .primitive 0x0c cn.toUTF8.toList]]]

def validityTree : Tree := .constructed 0x30 [.primitive 0x17 utcTime, .primitive 0x17 utcTime]

def spkiTree (subjectKey : PublicKey) : Tree :=
  .constructed 0x30
    [.constructed 0x30 [.primitive 0x06 oidEcPublicKey, .primitive 0x06 subjectKey.curve.oid],
      .primitive 0x03 (0x00 :: subjectKey.point)]

def certificatePoliciesTree (role : Bytes) : Tree :=
  .constructed 0x30 [.primitive 0x06 [0x55, 0x1D, 0x20], .primitive 0x01 [0xFF],
    .constructed 0x04 [.constructed 0x30 [.constructed 0x30 [.primitive 0x06 role]]]]

def subjectAltNameTree (oid : Bytes) : Tree :=
  .constructed 0x30 [.primitive 0x06 [0x55, 0x1D, 0x11],
    .constructed 0x04 [.constructed 0x30 [.primitive 0x88 oid]]]

section Trees

variable (sha256 : Bytes → Vector UInt8 32)

def authorityKeyIdentifierTree (issuerKey : PublicKey) : Tree :=
  let aki := (sha256 issuerKey.point).toList.take 20
  .constructed 0x30 [.primitive 0x06 [0x55, 0x1D, 0x23],
    .constructed 0x04 [.constructed 0x30 [.primitive 0x80 aki]]]

def serialTree (subjectKey : PublicKey) : Tree := .primitive 0x02 (serialBytes sha256 subjectKey)

def tbsTree (label : String) (subjectKey issuerKey : PublicKey) (sanOid roleOid : Option Bytes) :
    Tree :=
  .constructed 0x30
    [.constructed 0xa0 [.primitive 0x02 [0x02]], serialTree sha256 subjectKey, sigAlgTree,
      nameTree label, validityTree, nameTree label, spkiTree subjectKey,
      .constructed 0xA3 [.constructed 0x30 (authorityKeyIdentifierTree sha256 issuerKey ::
        ((roleOid.map certificatePoliciesTree).toList ++
          (sanOid.map subjectAltNameTree).toList))]]

/-- The certificate, with the signature that is put into it. -/
def certificateTree (label : String) (subjectKey issuerKey : PublicKey)
    (sanOid roleOid : Option Bytes) (signature : Bytes) : Tree :=
  .constructed 0x30 [tbsTree sha256 label subjectKey issuerKey sanOid roleOid, sigAlgTree,
    .primitive 0x03 (0x00 :: signature)]

variable {sha256}

theorem write_certificatePoliciesTree (role : Bytes) :
    (certificatePoliciesTree role).write derLength = certificatePolicies role := by
  simp [certificatePoliciesTree, certificatePolicies, write, writeAll, tlv]

theorem write_subjectAltNameTree (oid : Bytes) :
    (subjectAltNameTree oid).write derLength = subjectAltName oid := by
  simp [subjectAltNameTree, subjectAltName, write, writeAll, tlv]

theorem write_authorityKeyIdentifierTree (issuerKey : PublicKey) :
    (authorityKeyIdentifierTree sha256 issuerKey).write derLength =
      authorityKeyIdentifier sha256 issuerKey := by
  simp [authorityKeyIdentifierTree, authorityKeyIdentifier, write, writeAll, tlv]

theorem write_sigAlgTree : sigAlgTree.write derLength = sigAlg := rfl

theorem write_nameTree (label : String) : (nameTree label).write derLength = name label := by
  simp [nameTree, name, write, writeAll, tlv]

theorem write_spkiTree (key : PublicKey) : (spkiTree key).write derLength = spki key := by
  simp [spkiTree, spki, write, writeAll, tlv]

theorem write_tbsTree (label : String) (subjectKey issuerKey : PublicKey)
    (sanOid roleOid : Option Bytes) :
    (tbsTree sha256 label subjectKey issuerKey sanOid roleOid).write derLength =
      tbsCertificate sha256 label subjectKey issuerKey sanOid roleOid := by
  have hlist : writeAll derLength (authorityKeyIdentifierTree sha256 issuerKey ::
      ((roleOid.map certificatePoliciesTree).toList ++ (sanOid.map subjectAltNameTree).toList)) =
      (authorityKeyIdentifier sha256 issuerKey ::
        ((roleOid.map certificatePolicies).toList ++
          (sanOid.map subjectAltName).toList)).flatten := by
    rw [writeAll_eq_flatten, List.map_cons, write_authorityKeyIdentifierTree]
    cases roleOid <;> cases sanOid <;>
      simp [write_certificatePoliciesTree, write_subjectAltNameTree]
  have hserial : (serialTree sha256 subjectKey).write derLength =
      tlv 0x02 (serialBytes sha256 subjectKey) := rfl
  have hvalidity : validityTree.write derLength = validity := rfl
  have hextensions : (Tree.constructed 0xA3 [.constructed 0x30
      (authorityKeyIdentifierTree sha256 issuerKey ::
        ((roleOid.map certificatePoliciesTree).toList ++
          (sanOid.map subjectAltNameTree).toList))]).write derLength =
      extensions sha256 issuerKey sanOid roleOid := by
    rw [write, writeAll, writeAll, List.append_nil, write, hlist]
    rfl
  have hversion : (Tree.constructed 0xa0 [.primitive 0x02 [0x02]]).write derLength =
      tlv 0xa0 (tlv 0x02 [0x02]) := rfl
  rw [tbsTree, write, writeAll_eq_flatten]
  simp only [List.map_cons, List.map_nil, hserial, hvalidity, hextensions, hversion,
    write_sigAlgTree, write_nameTree, write_spkiTree]
  rfl

variable {E : EcLib} {label : String} {subjectKey : PublicKey} {issuer : KeyPair E}
  {sanOid roleOid : Option Bytes} {der : Bytes}

/-- `build_certificate` writes `certificateTree` with `der_length`. -/
theorem buildCertificate_eq_write
    (hbuild : buildCertificate sha256 label subjectKey issuer sanOid roleOid = .ok der) :
    ∃ signature,
      issuer.signDer (tbsCertificate sha256 label subjectKey issuer.publicKey sanOid roleOid) =
        .ok signature ∧
      der = (certificateTree sha256 label subjectKey issuer.publicKey sanOid roleOid
        signature).write derLength := by
  obtain ⟨signature, hsign, hcert⟩ := Exec.bind_eq_ok.mp hbuild
  refine ⟨signature, hsign, ?_⟩
  rw [certificateTree, write, writeAll_eq_flatten, List.map_cons, write_tbsTree]
  exact (Exec.ok.inj hcert).symm

theorem isShortest_derLength {n : Nat} (h : n ≤ 0xffff) : IsShortest n (derLength n) := by
  rw [derLength, Der.derLength_eq h]
  exact isShortest_lengthOctets (by omega)

/-! ### The serial number -/

/-- The serial number is made from the first octets of the digest. -/
theorem exists_serialBytes (sha256 : Bytes → Vector UInt8 32) (key : PublicKey) :
    ∃ rest, serialBytes sha256 key =
      if (sha256 key.point)[0].toNat < 0x80 then
        (sha256 key.point)[0] :: (sha256 key.point)[1] :: rest
      else 0x00 :: (sha256 key.point)[0] :: (sha256 key.point)[1] :: rest := by
  generalize hd : sha256 key.point = d
  have htake : d.toList.take 8 = d[0] :: d[1] :: (d.toList.drop 2).take 6 := by
    have h0 : d.toList[0]? = some d[0] := by simp
    have h1 : d.toList[1]? = some d[1] := by simp
    match hlist : d.toList with
    | [] => simp [hlist] at h0
    | [a] => simp [hlist] at h1
    | a :: b :: l =>
        rw [hlist] at h0 h1
        obtain rfl : a = d[0] := by simpa using h0
        obtain rfl : b = d[1] := by simpa using h1
        rfl
  refine ⟨(d.toList.drop 2).take 6, ?_⟩
  rw [serialBytes, hd, htake]
  by_cases h : d[0].toNat < 0x80
  · exact (if_neg (not_not.mpr (Der.and_0x80_eq_zero.mpr h))).trans (if_pos h).symm
  · exact (if_pos fun h0 => h (Der.and_0x80_eq_zero.mp h0)).trans (if_neg h).symm

/-- The serial number is minimal and positive unless the digest starts with a zero octet and
another one below `0x80`. -/
theorem serial_distinguished_iff (sha256 : Bytes → Vector UInt8 32) (key : PublicKey) :
    IsMinimalInteger (serialBytes sha256 key) ∧ 0 < integerValue (serialBytes sha256 key) ↔
      (sha256 key.point)[0] ≠ 0x00 ∨ 0x80 ≤ (sha256 key.point)[1].toNat := by
  obtain ⟨rest, hserial⟩ := exists_serialBytes sha256 key
  rw [hserial]
  generalize (sha256 key.point)[0] = a
  generalize (sha256 key.point)[1] = b
  split
  · next ha => exact isMinimalInteger_and_pos_iff ha
  · next ha =>
      -- The zero octet in front of a set high bit has to be there.
      have ha0 : a ≠ 0x00 := by
        rintro rfl
        simp at ha
      constructor
      · intro _
        exact .inl ha0
      · intro _
        exact (isMinimalInteger_and_pos_iff (by decide)).mpr (.inr (by omega))

/-- **Which issued certificates are DER.** In a certificate of at most 65535 octets every length is
spelled shortest, and the serial number is minimal and positive exactly when the digest of the
subject's key does not start with a zero octet followed by one below `0x80`. -/
theorem built_distinguished_iff
    (hbuild : buildCertificate sha256 label subjectKey issuer sanOid roleOid = .ok der)
    (hder : der.length ≤ 65535) :
    ∃ signature,
      let t := certificateTree sha256 label subjectKey issuer.publicKey sanOid roleOid signature
      der = t.write derLength ∧
        ((t.LengthsShortest derLength ∧ IsMinimalInteger (serialBytes sha256 subjectKey) ∧
            0 < integerValue (serialBytes sha256 subjectKey)) ↔
          (sha256 subjectKey.point)[0] ≠ 0x00 ∨ 0x80 ≤ (sha256 subjectKey.point)[1].toNat) := by
  obtain ⟨signature, -, rfl⟩ := buildCertificate_eq_write hbuild
  refine ⟨signature, rfl, ?_⟩
  have hlengths := lengthsShortest_of_length_le (fun n h => isShortest_derLength h) hder
  rw [and_iff_right hlengths]
  exact serial_distinguished_iff sha256 subjectKey

end Trees

theorem built_distinguished_iff_eum :
    ∃ signature,
      let t := certificateTree sha256Sample "eum" eumKey issuerKey (some [0x83, 0x37, 0x81, 0x67])
        (some oidRspRoleDpAuth) signature
      eumDer = t.write derLength ∧ t.LengthsShortest derLength ∧
        IsMinimalInteger (serialBytes sha256Sample eumKey) ∧
        0 < integerValue (serialBytes sha256Sample eumKey) := by
  obtain ⟨signature, hder, hiff⟩ := built_distinguished_iff buildCertificate_eumDer
    (by decide +kernel)
  exact ⟨signature, hder, hiff.mpr (.inl (by decide +kernel))⟩

/-! ### A serial number with a zero octet too many -/

/-- A key whose digest starts with a zero octet and one below `0x80`. -/
def zeroKey : PublicKey where
  curve := .p256
  point :=
    [0x04, 0x90, 0x22, 0x31, 0x95, 0x38, 0xb4, 0x65, 0x28, 0x44, 0xf7, 0xab, 0xec, 0x9e, 0xa6,
      0xe9, 0x20, 0x9d, 0x17, 0x85, 0x41, 0xc8, 0x01, 0x12, 0xd4, 0x56, 0xab, 0x26, 0xa8, 0x72,
      0xd6, 0xa9, 0xf0, 0xc1, 0x93, 0x5a, 0xc7, 0x6e, 0xbb, 0xc4, 0xeb, 0x1c, 0x75, 0x7c, 0xde,
      0xe8, 0xf2, 0xce, 0x09, 0xb0, 0xef, 0x09, 0x85, 0x22, 0x9b, 0xed, 0x09, 0x28, 0xe5, 0x3e,
      0xda, 0x01, 0x4d, 0x20, 0xe1]

/-- SHA-256 where it is needed: on the point of `zeroKey`. -/
def zeroSha256 (_ : Bytes) : Vector UInt8 32 :=
  #v[0x00, 0x6e, 0x71, 0x42, 0xb5, 0x1d, 0x2c, 0xa4, 0x8a, 0xf2, 0x32, 0x85, 0x2f, 0x73, 0x44,
    0x78, 0x17, 0x3f, 0xb0, 0x85, 0xa7, 0x80, 0xe0, 0xa3, 0xe5, 0x71, 0xc9, 0x17, 0x66, 0x62,
    0xfc, 0x0c]

/-- The tbsCertificate of the CI with that key. -/
def zeroTbs : Bytes :=
  tbsCertificate zeroSha256 "ci" zeroKey zeroKey (some [0x83, 0x37, 0x81, 0x69]) (some oidRspRoleCi)

/-- The CI's signature over `zeroTbs`. -/
def zeroSignature : Bytes :=
  [0x30, 0x45, 0x02, 0x21, 0x00, 0x85, 0x75, 0x51, 0x57, 0xcd, 0x5c, 0xd1, 0x8c, 0xea, 0x2c,
    0x3a, 0x48, 0x07, 0x74, 0x21, 0xd2, 0x8d, 0x4a, 0x49, 0x75, 0x99, 0xdb, 0x94, 0x1d, 0x95,
    0xda, 0xa5, 0x10, 0xc0, 0x94, 0xe3, 0xe5, 0x02, 0x20, 0x06, 0x1f, 0xf2, 0x99, 0x76, 0x59,
    0x46, 0xce, 0x4d, 0x6e, 0xe4, 0x28, 0x00, 0xcd, 0x29, 0x71, 0x95, 0xdc, 0xfd, 0x84, 0xbc,
    0x99, 0x0a, 0x7d, 0xa1, 0x5f, 0x20, 0xa2, 0x87, 0x90, 0x30, 0xda]

/-- A library in which the CI's signature over `zeroTbs` is that one. -/
abbrev zeroLib : EcLib :=
  .ofSigner fun key message =>
    if key = zeroKey.point ∧ message = zeroTbs then zeroSignature else []

def zeroIssuer : KeyPair zeroLib where
  curve := .p256
  inner := zeroKey.point

/-- The CI certificate for this key has a serial number that is not minimal. -/
theorem serial_not_minimal : ∃ der,
    PublicKey.fromBytes zeroLib zeroKey.curve zeroKey.point = .ok zeroKey ∧
      buildCertificate zeroSha256 "ci" zeroKey zeroIssuer (some [0x83, 0x37, 0x81, 0x69])
        (some oidRspRoleCi) = .ok der ∧
      der.length ≤ 65535 ∧
      serialBytes zeroSha256 zeroKey = [0x00, 0x6e, 0x71, 0x42, 0xb5, 0x1d, 0x2c, 0xa4] ∧
      ¬ IsMinimalInteger (serialBytes zeroSha256 zeroKey) := by
  have hsign : zeroIssuer.signDer zeroTbs = .ok zeroSignature := by decide +kernel
  have hserial : serialBytes zeroSha256 zeroKey =
      [0x00, 0x6e, 0x71, 0x42, 0xb5, 0x1d, 0x2c, 0xa4] := by decide +kernel
  refine ⟨tlv 0x30 ([zeroTbs, sigAlg, tlv 0x03 (0x00 :: zeroSignature)].flatten),
    by decide +kernel, congrArg (· >>= _) hsign, by decide +kernel, hserial, ?_⟩
  rw [hserial, isMinimalInteger_cons]
  decide

end TestPki
end EuiccCrypto
