import EuiccCrypto.Lib.Distinguished
import EuiccCrypto.Sgp26

/-!
# Wrapping a SEC1 key

`sec1_private_to_pkcs8` writes the tree `privateKeyInfoTree` with the shortest lengths, or fails when
the content of the tree is too long for two length octets: `sec1PrivateToPkcs8_faithful`.
-/

namespace EuiccCrypto
namespace Sgp26

open Octets Tlv Tree X509

/-! ### PrivateKeyInfo -/

def algorithmIdentifierTree (curve : CurveKind) : Tree :=
  .constructed 0x30 [.primitive 0x06 idEcPublicKey, .primitive 0x06 curve.oid]

/-- PrivateKeyInfo: the version, the algorithm and the SEC1 key. -/
def privateKeyInfoTree (curve : CurveKind) (sec1 : Bytes) : Tree :=
  .constructed 0x30
    [.primitive 0x02 [0x00], algorithmIdentifierTree curve, .primitive 0x04 sec1]

/-- All elements of `b`, as `read_tlv_any` reads them one after another. -/
def elements (b : Bytes) : Exec (List UInt8 × List Bytes) := walkFields b.length b [] []

/-- `out` is read as one SEQUENCE with the members of a PrivateKeyInfo, which is spelled with the
shortest lengths. -/
structure IsPrivateKeyInfo (curve : CurveKind) (sec1 out : Bytes) : Prop where
  read : ∃ info alg, readTlvAny out = .ok (0x30, info, out.length) ∧
    elements info = .ok ([0x02, 0x30, 0x04], [[0x00], alg, sec1]) ∧
    elements alg = .ok ([0x06, 0x06], [idEcPublicKey, curve.oid])
  written : out = (privateKeyInfoTree curve sec1).write lengthOctets
  shortest : (privateKeyInfoTree curve sec1).LengthsShortest lengthOctets

/-! ### Lengths -/

/-- Up to 65535 `der_length` writes the shortest spelling. -/
theorem derLength_eq_ok {n : Nat} (h : n ≤ 0xFFFF) : derLength n = .ok (lengthOctets n) := by
  rw [← Der.derLength_eq h, derLength, Der.derLength]
  split
  · rfl
  · split
    · rfl
    · rw [Der.ofNat_and_0xff]

theorem derLength_eq_err {n : Nat} (h : 0xFFFF < n) :
    derLength n = .err (.certificate "DER length too large") := by
  rw [derLength, if_neg (by omega), if_neg (by omega), if_neg (by omega)]

/-! ### Wrapping -/

section Wrap

variable (curve : CurveKind) (sec1 : Bytes)

/-- The content of the AlgorithmIdentifier. -/
def algId : Bytes := encodeAll [(0x06, idEcPublicKey), (0x06, curve.oid)]

/-- The content of the PrivateKeyInfo. -/
def infoContent : Bytes := encodeAll [(0x02, [0x00]), (0x30, algId curve), (0x04, sec1)]

theorem content_privateKeyInfoTree :
    (privateKeyInfoTree curve sec1).content lengthOctets = infoContent curve sec1 := by
  simp [privateKeyInfoTree, algorithmIdentifierTree, content, write, writeAll, infoContent, algId,
    encode]

theorem write_privateKeyInfoTree :
    (privateKeyInfoTree curve sec1).write lengthOctets = encode 0x30 (infoContent curve sec1) := by
  rw [← content_privateKeyInfoTree]
  rfl

theorem length_lt_infoContent : sec1.length < (infoContent curve sec1).length :=
  length_lt_length_encodeAll (f := (0x04, sec1)) (by simp)

/-- The three lengths are the only places where wrapping can fail. -/
theorem sec1PrivateToPkcs8_eq :
    sec1PrivateToPkcs8 curve sec1 =
      if (infoContent curve sec1).length ≤ 0xFFFF then .ok (encode 0x30 (infoContent curve sec1))
      else .err (.certificate "DER length too large") := by
  have halg : [0x06, 0x07] ++ idEcPublicKey ++ [0x06, UInt8.ofNat curve.oid.length] ++ curve.oid =
      algId curve := by
    cases curve <;> decide +kernel
  have halgLength : (algId curve).length ≤ 0xFFFF := by cases curve <;> decide +kernel
  have hlt := length_lt_infoContent curve sec1
  have hinfo : [0x02, 0x01, 0x00, 0x30] ++ lengthOctets (algId curve).length ++ algId curve ++ [0x04]
      ++ lengthOctets sec1.length ++ sec1 = infoContent curve sec1 := by
    have hversion : encode 0x02 [0x00] = [0x02, 0x01, 0x00] := by decide +kernel
    rw [infoContent, encodeAll_cons, hversion]
    simp [encode]
  simp only [sec1PrivateToPkcs8, halg, derLength_eq_ok halgLength, Exec.ok_bind]
  split
  · next hfits =>
      rw [derLength_eq_ok (by omega), Exec.ok_bind, hinfo, derLength_eq_ok hfits, Exec.ok_bind]
      simp [encode]
  · next hlong =>
      -- Either the length of the key is too long already, or that of the whole is.
      by_cases hsec1 : sec1.length ≤ 0xFFFF
      · rw [derLength_eq_ok hsec1, Exec.ok_bind, hinfo, derLength_eq_err (by omega), Exec.err_bind]
      · rw [derLength_eq_err (by omega), Exec.err_bind]

variable {curve sec1}

theorem elements_encodeAll {fs : List (UInt8 × Bytes)} (h : (encodeAll fs).length < 2 ^ 32) :
    elements (encodeAll fs) = .ok (fs.map Prod.fst, fs.map Prod.snd) :=
  (walkFields_eq_ok Nat.le.refl).mpr ⟨fs, tlvSeq_encodeAll h, rfl, rfl⟩

theorem isPrivateKeyInfo_encode (h : (infoContent curve sec1).length ≤ 0xFFFF) :
    IsPrivateKeyInfo curve sec1 (encode 0x30 (infoContent curve sec1)) where
  read := by
    have halg : (algId curve).length < 2 ^ 32 := by cases curve <;> decide +kernel
    have hinfo : (infoContent curve sec1).length < 2 ^ 32 := by omega
    have hread := readTlvAny_append (isTlv_encode 0x30 hinfo) []
    rw [List.append_nil] at hread
    exact ⟨infoContent curve sec1, algId curve, hread, elements_encodeAll hinfo,
      elements_encodeAll halg⟩
  written := (write_privateKeyInfoTree curve sec1).symm
  shortest := by
    have hlength : (encode 0x30 (infoContent curve sec1)).length < 2 ^ 32 := by
      have := (lengthOctets_spec (n := (infoContent curve sec1).length) (by omega)).length_le
      rw [encode, List.length_cons, List.length_append]
      omega
    rw [← write_privateKeyInfoTree] at hlength
    exact lengthsShortest_of_length_le (N := 2 ^ 32 - 1)
      (fun n hn => isShortest_lengthOctets (by omega)) (by omega)

end Wrap

/-- **Wrapping is faithful at every size.** It succeeds exactly when the content of the
PrivateKeyInfo fits in 65535 octets, fails otherwise, and what it gives is read back as the
PrivateKeyInfo of the key. -/
theorem sec1PrivateToPkcs8_faithful (curve : CurveKind) (sec1 : Bytes) :
    ((∃ out, sec1PrivateToPkcs8 curve sec1 = .ok out) ↔
      ((privateKeyInfoTree curve sec1).content lengthOctets).length ≤ 65535) ∧
    ((sec1PrivateToPkcs8 curve sec1).Failed ↔
      65535 < ((privateKeyInfoTree curve sec1).content lengthOctets).length) ∧
    ∀ out, sec1PrivateToPkcs8 curve sec1 = .ok out → IsPrivateKeyInfo curve sec1 out := by
  rw [content_privateKeyInfoTree, sec1PrivateToPkcs8_eq]
  split
  · next hfits =>
      refine ⟨iff_of_true ⟨_, rfl⟩ hfits, iff_of_false ?_ (by omega), ?_⟩
      · rintro ⟨e, h⟩
        cases h
      · rintro out ⟨⟩
        exact isPrivateKeyInfo_encode hfits
  · next hlong =>
      refine ⟨iff_of_false ?_ hlong, iff_of_true ⟨_, rfl⟩ (by omega), ?_⟩
      · rintro ⟨out, h⟩
        cases h
      · rintro out ⟨⟩

end Sgp26
end EuiccCrypto
