import EuiccCrypto.Ci
import EuiccCrypto.Ecdsa.Signature
import EuiccCrypto.TestPki

/-!
# A certificate for any key

Because the signed octets of a certificate with a tail are not its tbsCertificate, a signature that
was made over one certificate can be shown with another: `forged_for_any_key` puts a key of choice
into a copy of a certificate and the octets of the original behind that. The copy is accepted with
that key, and every CI key decides on it as on the original.
-/

namespace EuiccCrypto
namespace X509

open Octets Tlv Ci

variable {E : EcLib}

/-- A subjectPublicKeyInfo with another point in it. -/
theorem IsSpki.exists_point {spki oid point point' : Bytes} (h : IsSpki spki oid point)
    (hlen : point'.length = point.length) :
    ∃ spki', IsSpki spki' oid point' ∧ spki'.length = spki.length := by
  obtain ⟨alg, eAlg, eBits, rest, rfl, hAlg, hOid, hBits⟩ := h
  have hbits : (0x00 :: point').length = (0x00 :: point).length := by
    rw [List.length_cons, List.length_cons, hlen]
  obtain ⟨eBits', hBits', hbl⟩ := hBits.exists_of_length_eq hbits
  refine ⟨eAlg ++ (eBits' ++ rest), ⟨alg, eAlg, eBits', rest, rfl, hAlg, hOid, hBits'⟩, ?_⟩
  simp only [List.length_append, hbl]

/-- Another content of subjectPublicKeyInfo does not change where it is. -/
theorem map_fst_set {fs : List (UInt8 × Bytes)} {i : Nat} {tag : UInt8} {val : Bytes}
    (hi : fs[i]? = some (tag, val)) (val' : Bytes) :
    (fs.set i (tag, val')).map Prod.fst = fs.map Prod.fst := by
  apply List.ext_getElem?
  intro j
  by_cases hj : i = j
  · subst hj
    have hlt := (List.getElem?_eq_some_iff.mp hi).1
    rw [List.getElem?_map, List.getElem?_map, List.getElem?_set_self hlt, hi]
    rfl
  · rw [List.getElem?_map, List.getElem?_map, List.getElem?_set_ne hj]

/-- A copy of a certificate with another subjectPublicKeyInfo, and the body of the original behind
it: the octets that are taken for the signed ones are those of the original. -/
theorem Layout.exists_forged {der : Bytes} (l : Layout der) (hend : l.trailing = [])
    {spki spki' : Bytes} (hspki : l.spki? = some (0x30, spki))
    (hlen : spki'.length = spki.length) :
    ∃ (der' : Bytes) (l' : Layout der'), l'.spki? = some (0x30, spki') ∧
      ∀ tbsWire sig, extractTbsAndSignature der' = .ok (tbsWire, sig) ↔
        extractTbsAndSignature der = .ok (tbsWire, sig) := by
  -- From the inside out: no length changes, so every header stays.
  obtain ⟨tbs', hseq, htl⟩ := l.members_seq.exists_set hspki hlen
  obtain ⟨tbsTlv', htbs, httl⟩ := l.tbs_isTlv.exists_of_length_eq htl
  have hbody : (tbsTlv' ++ l.after).length = l.body.length := by
    rw [l.body_eq, List.length_append, List.length_append, httl]
  obtain ⟨outer', houter, hol⟩ := l.outer_isTlv.exists_of_length_eq hbody
  let l' : Layout (outer' ++ l.body) :=
    { outer := outer'
      body := tbsTlv' ++ l.after
      trailing := l.body
      tbsTlv := tbsTlv'
      tbs := tbs'
      after := l.after
      members := l.members.set (spkiIndex (l.members.map Prod.fst)) (0x30, spki')
      der_eq := rfl
      outer_isTlv := houter
      body_eq := rfl
      tbs_isTlv := htbs
      members_seq := hseq }
  refine ⟨_, l', ?_, ?_⟩
  · obtain ⟨hlt, -⟩ := List.getElem?_eq_some_iff.mp hspki
    show (l.members.set _ _)[spkiIndex ((l.members.set _ _).map Prod.fst)]? = _
    rw [map_fst_set hspki, List.getElem?_set_self hlt]
  · intro tbsWire sig
    -- The offset is the length of the copy: there the original begins.
    have hstart : l'.tbsStart + l'.trailing.length = outer'.length := by
      have hle := houter.length_lt
      show outer'.length - (tbsTlv' ++ l.after).length + l.body.length = outer'.length
      omega
    have hslice : slice (outer' ++ l.body) outer'.length (outer'.length + l'.tbsTlv.length) =
        .ok l.tbsTlv := by
      show slice (outer' ++ l.body) outer'.length (outer'.length + tbsTlv'.length) = .ok l.tbsTlv
      rw [httl, l.body_eq, ← List.append_assoc]
      exact slice_append outer' l.tbsTlv l.after
    rw [extractTbsAndSignature_eq_ok l', extractTbsAndSignature_eq_ok l, hstart, hslice, hend,
      List.length_nil, Nat.add_zero, l.slice_tbs]

/-- Certificates that verify under the same keys are decided on alike. -/
theorem verifyServerCertificate_congr {c c' : Certificate E}
    (h : ∀ ci : PublicKey, c'.verifySignedByKey ci = .ok () ↔ c.verifySignedByKey ci = .ok ())
    (set : CiKeySet) (requested : Bytes) :
    set.verifyServerCertificate requested c' = set.verifyServerCertificate requested c := by
  have hsame : (fun k : CiKey => (c'.verifySignedByKey k.key).ok?.isSome) =
      fun k => (c.verifySignedByKey k.key).ok?.isSome := by
    funext k
    rw [Bool.eq_iff_iff, isSome_verify_iff, isSome_verify_iff]
    exact h k.key
  rw [CiKeySet.verifyServerCertificate, CiKeySet.verifyServerCertificate, hsame]

/-- **A certificate for any key.** From every certificate with nothing after it, and every key on the
curve of its own, a certificate with that key can be made without signing anything: it verifies
under the same keys, and is accepted or rejected by every eUICC like the original. -/
theorem forged_for_any_key (webpki : Bytes → Bool) (c : Certificate E)
    (hend : ∃ body, IsTlv 0x30 body c.der) (key : PublicKey)
    (hcurve : key.curve = c.publicKey.curve)
    (hkey : PublicKey.fromBytes E key.curve key.point = .ok key) :
    ∃ (der : Bytes) (c' : Certificate E), Certificate.fromDer webpki der = .ok c' ∧
      c'.publicKey = key ∧
      (∀ ci : PublicKey, c'.verifySignedByKey ci = .ok () ↔ c.verifySignedByKey ci = .ok ()) ∧
      ∀ (set : CiKeySet) (requested : Bytes),
        set.verifyServerCertificate requested c' = set.verifyServerCertificate requested c := by
  obtain ⟨l, spki, hspki, hread⟩ := c.exists_layout
  obtain ⟨hisSpki, hown⟩ := publicKeyOfSpki_eq_ok.mp hread
  have hlen : key.point.length = c.publicKey.point.length :=
    (PublicKey.fromBytes_eq_ok.mp hkey).1.trans (PublicKey.fromBytes_eq_ok.mp hown).1.symm
  obtain ⟨spki', hspki', hspkiLen⟩ := hisSpki.exists_point hlen
  obtain ⟨der, l', hl', hextract⟩ :=
    l.exists_forged (l.trailing_eq_nil_iff.mpr hend) hspki hspkiLen
  have hextracted : extractSpkiPublicKey E der = .ok key :=
    extractSpkiPublicKey_eq_ok.mpr ⟨l', spki', hl',
      publicKeyOfSpki_eq_ok.mpr ⟨hcurve ▸ hspki', hkey⟩⟩
  let c' : Certificate E := ⟨der, key, webpki der, hextracted⟩
  have hverify : ∀ ci : PublicKey,
      c'.verifySignedByKey ci = .ok () ↔ c.verifySignedByKey ci = .ok () := by
    intro ci
    simp only [Certificate.verifySignedByKey, Exec.bind_eq_ok, Prod.exists]
    exact exists_congr fun tbsWire => exists_congr fun sig =>
      and_congr_left fun _ => hextract tbsWire sig
  exact ⟨der, c', Certificate.fromDer_eq_ok.mpr ⟨rfl, rfl⟩, rfl, hverify,
    verifyServerCertificate_congr hverify⟩

/-- The signature over the certificate of the EUM verifies with another key in it. -/
theorem forged_for_any_key_eum :
    ∃ (der : Bytes) (c' : Certificate TestPki.signingLib),
      Certificate.fromDer (fun _ => false) der = .ok c' ∧
      c'.publicKey = { curve := .p256, point := madeSample.key } ∧
      c'.verifySignedByKey issuerKey = .ok () := by
  let c : Certificate TestPki.signingLib :=
    ⟨TestPki.eumDer, TestPki.eumKey, false, by decide +kernel⟩
  have hend : ∃ body, IsTlv 0x30 body c.der := by
    show ∃ body, IsTlv 0x30 body (TestPki.eumDer)
    rw [TestPki.eumDer, TestPki.tlv_eq_encode (by decide +kernel)]
    exact ⟨_, isTlv_encode 0x30 (by decide +kernel)⟩
  have hverify : c.verifySignedByKey issuerKey = .ok () := by decide +kernel
  obtain ⟨der, c', hc', hkey, hforged, -⟩ := forged_for_any_key (fun _ => false) c hend
    { curve := .p256, point := madeSample.key } rfl (by decide +kernel)
  exact ⟨der, c', hc', hkey, (hforged issuerKey).mpr hverify⟩

end X509
end EuiccCrypto
