import EuiccCrypto.X509.Signed
import EuiccCrypto.TestPki.Chain

/-!
# The certificate walked by hand

`tests/tbs_match.rs` has a walker of its own, `tbs_and_sig`, that looks at no tag and takes lengths
as they come, and compares it with the parser on one generated certificate. `tbsAndSig_agrees` is the
comparison on every input: on what is framed like a certificate the two are one function, and the
parser accepts nothing else. `generator_and_parser_agree` is the test for every chain.

The walker counts tbsCertificate from the end of the input as the parser does, so it cannot tell
whether what the parser returns is tbsCertificate.
-/

namespace EuiccCrypto
namespace TbsMatch

open Octets Tlv X509

/-! ### The walker -/

/-- `len`: a length, and how many octets spell it. A marker's octets are read as far as there are
any, and a word keeps the last eight of them. -/
def len (i : Bytes) : Exec (Nat × Nat) := do
  let f ← index i 0
  if f &&& 0x80 = 0 then .ok (f.toNat, 1)
  else
    let n := (f &&& 0x7f).toNat
    let l := ((i.take (1 + n)).drop 1).foldl (fun l b => l <<< 8 % 2 ^ 64 ||| b.toNat) 0
    .ok (l, 1 + n)

/-- `tbs_and_sig`: the tbsCertificate TLV and the signature octets. The sums are not bounded here: one
that does not fit in a word panics, and so does the range that ends there. -/
def tbsAndSig (der : Bytes) : Exec (Bytes × Bytes) := do
  let (cl, clh) ← sliceFrom der 1 >>= len
  let body ← slice der (1 + clh) (1 + clh + cl)
  let tbsStart := der.length - body.length
  let (tl, tlh) ← sliceFrom body 1 >>= len
  let tbsTlv ← slice der tbsStart (tbsStart + 1 + tlh + tl)
  let after ← sliceFrom body (1 + tlh + tl)
  let (al, alh) ← sliceFrom after 1 >>= len
  let sigIn ← sliceFrom after (1 + alh + al)
  let (sl, slh) ← sliceFrom sigIn 1 >>= len
  let sig ← slice sigIn (1 + slh) (1 + slh + sl)
  let signature ← sliceFrom sig 1
  .ok (tbsTlv, signature)

/-! ### Lengths -/

/-- One octet more in a word. -/
theorem shift_or_eq (l : Nat) (b : UInt8) :
    l <<< 8 % 2 ^ 64 ||| b.toNat = (l * 256 + b.toNat) % 2 ^ 64 := by
  have hb := b.toNat_lt
  have hshift : l <<< 8 % 2 ^ 64 = (l % 2 ^ 56) <<< 8 := by
    rw [Nat.shiftLeft_eq, Nat.shiftLeft_eq]
    omega
  rw [hshift, ← Nat.shiftLeft_add_eq_or_of_lt hb, Nat.shiftLeft_eq]
  omega

/-- The loop of `len` gives the number the octets spell, as a word. -/
theorem foldl_shift_eq (bs : Bytes) :
    bs.foldl (fun l b => l <<< 8 % 2 ^ 64 ||| b.toNat) 0 = beValue bs % 2 ^ 64 := by
  induction bs using List.reverseRecOn with
  | nil => rfl
  | append_singleton bs b ih =>
      rw [List.foldl_append, ih, List.foldl_cons, List.foldl_nil, shift_or_eq, beValue_concat]
      omega

/-- The lengths the parser accepts are read as the parser reads them. -/
theorem len_append {n : Nat} {os : Bytes} (h : LengthOctets n os) (rest : Bytes) :
    len (os ++ rest) = .ok (n, os.length) := by
  have hlt := h.lt
  cases h with
  | short hb => simp [len, index, Der.and_0x80_eq_zero.mpr hb]
  | @long m d ds hm hds hd =>
      have hmark : ¬ m &&& 0x80 = 0 := by
        rw [Der.and_0x80_eq_zero]
        omega
      have hcount : 1 + (m &&& 0x7f).toNat = ds.length + 1 + 1 := by
        rw [Der.toNat_and_0x7f]
        omega
      have hindex : index (m :: d :: (ds ++ rest)) 0 = .ok m := rfl
      simp only [len, List.cons_append, hindex, Exec.ok_bind, if_neg hmark, hcount,
        List.take_succ_cons, List.drop_one, List.tail_cons, List.take_left]
      rw [foldl_shift_eq, Nat.mod_eq_of_lt (by omega)]
      rfl

/-! ### Elements

The walker adds up lengths where the parser looks at elements. On an element the two come to the
same place: `Walks` has what the walker computes from one, and `exists_walks` that it does so for
each. -/

/-- `e` is read by the walker as a header of `k` octets after the tag, and the content `val`. -/
structure Walks (e : Bytes) (k : Nat) (val : Bytes) : Prop where
  length_eq : 1 + k + val.length = e.length
  len_eq : ∀ rest, sliceFrom (e ++ rest) 1 >>= len = .ok (val.length, k)
  content : ∀ rest, slice (e ++ rest) (1 + k) (1 + k + val.length) = .ok val

theorem exists_walks {tag : UInt8} {val e : Bytes} (h : IsTlv tag val e) : ∃ k, Walks e k val := by
  obtain ⟨_, ⟨os, hos, rfl⟩, rfl⟩ := h
  have hhdr : (tag :: os).length = 1 + os.length := Nat.add_comm _ _
  refine ⟨os.length, ?_, ?_, ?_⟩
  · rw [List.length_append, hhdr]
  · intro rest
    have hfrom : sliceFrom (tag :: os ++ val ++ rest) 1 = .ok (os ++ (val ++ rest)) := by
      rw [List.append_assoc, List.cons_append]
      exact sliceFrom_append [tag] _
    rw [hfrom, Exec.ok_bind, len_append hos]
  · intro rest
    rw [← hhdr]
    exact slice_append _ _ _

/-! ### What is framed like a certificate

`Framed` is what both of them see. The parser accepts it and nothing else, since it checks every
tag (`isFramed_of_extract`). The walker takes more, so the agreement holds from the parser's side. -/

/-- The input starts with a SEQUENCE of the content `body`; that is `tbsTlv`, a SEQUENCE, and
`after`, which starts with a SEQUENCE and a BIT STRING that holds `sig`. -/
structure Framed (der body tbsTlv after sig : Bytes) : Prop where
  outer : ∃ e rest, der = e ++ rest ∧ IsTlv 0x30 body e
  body_eq : body = tbsTlv ++ after
  tbs : ∃ val, IsTlv 0x30 val tbsTlv
  signature : ∃ alg eAlg eBits rest, after = eAlg ++ (eBits ++ rest) ∧ IsTlv 0x30 alg eAlg ∧
    IsTlv 0x03 (0x00 :: sig) eBits

def IsFramed (der : Bytes) : Prop := ∃ body tbsTlv after sig, Framed der body tbsTlv after sig

variable {der body tbsTlv after sig : Bytes}

/-- The octets that are taken for the signed ones: as many as tbsCertificate has, counted from the
end of the input. -/
def wire (der body tbsTlv : Bytes) : Bytes :=
  (der.drop (der.length - body.length)).take tbsTlv.length

/-- There are so many octets, whatever comes after the certificate. -/
theorem Framed.slice_eq (h : Framed der body tbsTlv after sig) :
    slice der (der.length - body.length) (der.length - body.length + tbsTlv.length) =
      .ok (wire der body tbsTlv) := by
  obtain ⟨e, rest, hder, he⟩ := h.outer
  have hlt := he.length_lt
  have hder := congrArg List.length hder
  have hbody := congrArg List.length h.body_eq
  rw [List.length_append] at hder hbody
  refine slice_eq_ok.mpr ⟨⟨Nat.le_add_right _ _, ?_⟩, ?_⟩
  · omega
  · rw [Nat.add_sub_cancel_left, wire]

/-- The parser on what is framed like a certificate. -/
theorem Framed.extract_eq (h : Framed der body tbsTlv after sig) :
    extractTbsAndSignature der = .ok (wire der body tbsTlv, sig) := by
  have hslice := h.slice_eq
  obtain ⟨⟨e, rest, hder, he⟩, rfl, ⟨val, htbs⟩, alg, eAlg, eBits, rest', rfl, hAlg, hBits⟩ := h
  have hcert : readTlv der 0x30 = .ok (tbsTlv ++ (eAlg ++ (eBits ++ rest')), e.length) :=
    readTlv_eq_ok.mpr ⟨e, rest, hder, he, rfl⟩
  have htbsRead : readTlv (tbsTlv ++ (eAlg ++ (eBits ++ rest'))) 0x30 = .ok (val, tbsTlv.length) :=
    readTlv_append htbs _
  have hle : ¬ der.length < (tbsTlv ++ (eAlg ++ (eBits ++ rest'))).length := by
    have hlt := he.length_lt
    rw [hder, List.length_append]
    omega
  have hend := Nat.not_lt.mpr (slice_eq_ok.mp hslice).1.2
  rw [extractTbsAndSignature, extractTbsAndSignatureWith, tbsBounds, tbsBoundsWith, hcert,
    Exec.mapErr_ok, Exec.ok_bind]
  dsimp only
  rw [if_neg hle, htbsRead, Exec.mapErr_ok, Exec.ok_bind, Exec.ok_bind]
  dsimp only
  rw [Exec.ok_bind, if_neg hend, hslice, Exec.ok_bind, if_neg (by simp), sliceFrom_append, Exec.ok_bind,
    signatureAfterTbs_append hAlg hBits, Exec.ok_bind]

/-- The walker on what is framed like a certificate. -/
theorem Framed.tbsAndSig_eq (h : Framed der body tbsTlv after sig) :
    tbsAndSig der = .ok (wire der body tbsTlv, sig) := by
  have hslice := h.slice_eq
  obtain ⟨⟨e, rest, hder, he⟩, rfl, ⟨val, htbs⟩, alg, eAlg, eBits, rest', rfl, hAlg, hBits⟩ := h
  obtain ⟨k, houter⟩ := exists_walks he
  obtain ⟨kTbs, hwTbs⟩ := exists_walks htbs
  obtain ⟨kAlg, hwAlg⟩ := exists_walks hAlg
  obtain ⟨kBits, hwBits⟩ := exists_walks hBits
  -- The sums of the walker are the lengths of the elements.
  have hend : ∀ start, start + 1 + kTbs + val.length = start + tbsTlv.length := by
    intro start
    rw [← hwTbs.length_eq]
    omega
  have hunused : sliceFrom (0x00 :: sig) 1 = .ok sig := sliceFrom_append [0x00] sig
  have hcl : sliceFrom der 1 >>= len = .ok ((tbsTlv ++ (eAlg ++ (eBits ++ rest'))).length, k) :=
    hder ▸ houter.len_eq rest
  have hbody : slice der (1 + k) (1 + k + (tbsTlv ++ (eAlg ++ (eBits ++ rest'))).length) =
      .ok (tbsTlv ++ (eAlg ++ (eBits ++ rest'))) := hder ▸ houter.content rest
  rw [tbsAndSig, hcl, Exec.ok_bind]
  dsimp only
  rw [hbody, Exec.ok_bind, hwTbs.len_eq, Exec.ok_bind]
  dsimp only
  rw [hend, hslice, Exec.ok_bind, hwTbs.length_eq, sliceFrom_append, Exec.ok_bind, hwAlg.len_eq,
    Exec.ok_bind]
  dsimp only
  rw [hwAlg.length_eq, sliceFrom_append, Exec.ok_bind, hwBits.len_eq, Exec.ok_bind]
  dsimp only
  rw [hwBits.content, Exec.ok_bind, hunused, Exec.ok_bind]

/-- What a signature is found in. -/
theorem exists_of_signatureAfterTbs (h : signatureAfterTbs after = .ok sig) :
    ∃ alg eAlg eBits rest, after = eAlg ++ (eBits ++ rest) ∧ IsTlv 0x30 alg eAlg ∧
      IsTlv 0x03 (0x00 :: sig) eBits := by
  simp only [signatureAfterTbs, signatureAfterTbsWith, Exec.bind_eq_ok, Exec.mapErr_eq_ok,
    Exec.ite_err_eq_ok, Prod.exists, readTlv_eq_ok, sliceFrom_eq_ok, not_not, index_eq_ok] at h
  obtain ⟨alg, _, ⟨eAlg, r, rfl, hAlg, rfl⟩, _, ⟨-, rfl⟩, bits, _, ⟨eBits, rest, hr, hBits, -⟩, -,
    unused, hunused, rfl, -, rfl⟩ := h
  rw [List.drop_left] at hr
  subst hr
  -- The content has a first octet, and it is zero.
  cases bits with
  | nil => simp at hunused
  | cons b bits =>
      obtain rfl : b = 0x00 := by simpa using hunused
      exact ⟨alg, eAlg, eBits, rest, rfl, hAlg, hBits⟩

/-- The parser accepts only what is framed like a certificate. -/
theorem isFramed_of_extract {p : Bytes × Bytes} (h : extractTbsAndSignature der = .ok p) :
    IsFramed der := by
  simp only [extractTbsAndSignature, extractTbsAndSignatureWith, tbsBounds, tbsBoundsWith,
    Exec.bind_eq_ok, Exec.ok_bind, Exec.mapErr_eq_ok, Exec.ite_err_eq_ok, Prod.exists,
    readTlv_eq_ok] at h
  obtain ⟨_, _, _, ⟨body, _, ⟨e, rest, hder, he, -⟩, -, val, _, ⟨tbsTlv, after, hbody, htbs, rfl⟩,
    hbounds⟩, -, _, -, -, after', hafter, sig, hsig, -⟩ := h
  cases hbounds
  subst hbody
  rw [sliceFrom_append, Exec.ok.injEq] at hafter
  subst hafter
  exact ⟨_, tbsTlv, after, sig, ⟨e, rest, hder, he⟩, rfl, ⟨val, htbs⟩,
    exists_of_signatureAfterTbs hsig⟩

/-- On what is framed like a certificate the two are one function. -/
theorem IsFramed.tbsAndSig_eq (h : IsFramed der) : tbsAndSig der = extractTbsAndSignature der := by
  obtain ⟨body, tbsTlv, after, sig, h⟩ := h
  rw [h.extract_eq, h.tbsAndSig_eq]

/-- **The walker and the parser.** The parser accepts exactly what is framed like a certificate,
and returns what the walker comes to. -/
theorem tbsAndSig_agrees (der : Bytes) :
    ((∃ p, extractTbsAndSignature der = .ok p) ↔ IsFramed der) ∧
      ∀ p, extractTbsAndSignature der = .ok p ↔ IsFramed der ∧ tbsAndSig der = .ok p := by
  refine ⟨⟨?_, ?_⟩, ?_⟩
  · intro ⟨p, hp⟩
    exact isFramed_of_extract hp
  · intro ⟨body, tbsTlv, after, sig, h⟩
    exact ⟨_, h.extract_eq⟩
  · intro p
    constructor
    · intro hp
      have hframed := isFramed_of_extract hp
      exact ⟨hframed, hframed.tbsAndSig_eq.trans hp⟩
    · intro ⟨hframed, hp⟩
      exact hframed.tbsAndSig_eq.symm.trans hp

/-! ### What is signed when a certificate is made -/

open TestPki

section Generated

variable {E : EcLib} {curve : CurveKind}

/-- What is extracted from an issued certificate is what was signed, and the signature. -/
theorem exists_extract_issued (sha256 : Bytes → Vector UInt8 32) {label : String}
    {subjectKey : PublicKey} {issuer : KeyPair E} {sanOid roleOid : Option Bytes}
    (hbuild : buildCertificate sha256 label subjectKey issuer sanOid roleOid = .ok der)
    (hder : der.length ≤ 0xffff) (hpoint : subjectKey.point.length = publicKeyLen) :
    ∃ tbs signature, extractTbsAndSignature der = .ok (tbs, signature) ∧
      issuer.signDer tbs = .ok signature := by
  obtain ⟨htbs, alg, signature, hsign, rfl⟩ := buildCertificate_eq sha256 hbuild hder hpoint
  have hextract := extractTbsAndSignature_certificateDer (length_body_lt hder)
  rw [← htbs] at hextract
  exact ⟨_, signature, hextract, hsign⟩

/-- **The generator and the parser.** Whatever is drawn for a chain, the octets walked to in each of
its certificates are those that are extracted; the CI has signed them, with the signature walked to,
which verifies under its key; and the parser reads the certificate's own key. -/
theorem generator_and_parser_agree (sha256 : Bytes → Vector UInt8 32) (webpki : Bytes → Bool)
    (drawn : Drawn E curve) (hdrawn : ∀ kp ∈ drawn.keyPairs, KeyPairSound kp) :
    ∃ pki, tryNewOn sha256 curve drawn = .ok pki ∧
      ∀ e ∈ pki.certificates, ∃ tbs signature, tbsAndSig e.1 = .ok (tbs, signature) ∧
        extractTbsAndSignature e.1 = .ok (tbs, signature) ∧
        pki.ci.signDer tbs = .ok signature ∧
        pki.ci.publicKey.verifyDer E tbs signature = .ok () ∧
        ∃ cert : Certificate E, Certificate.fromDer webpki e.1 = .ok cert ∧
          cert.publicKey = e.2.publicKey := by
  obtain ⟨pki, hmake, hkeys, -, hcerts⟩ := exists_tryNewOn sha256 drawn
  have hci : KeyPairSound pki.ci := by
    apply hdrawn
    rw [← hkeys]
    exact List.mem_cons_self
  refine ⟨pki, hmake, ?_⟩
  intro e he
  obtain ⟨hkp, label, san, role, hname, hsan, hrole, hbuild⟩ := hcerts e he
  have hpoint := (hdrawn e.2 hkp).point
  have hder := hci.length_build_le hpoint (by omega) hsan hrole hbuild
  obtain ⟨tbs, signature, hextract, hsign⟩ :=
    exists_extract_issued sha256 hbuild hder (PublicKey.fromBytes_eq_ok.mp hpoint).1
  obtain ⟨cert, hcert, -, hkey, -⟩ :=
    exists_issued sha256 webpki hbuild hder hpoint hci.signatures
  have hwalk := (isFramed_of_extract hextract).tbsAndSig_eq.trans hextract
  exact ⟨tbs, signature, hwalk, hextract, hsign, hci.signatures _ _ hsign, cert, hcert, hkey⟩

end Generated

theorem generator_and_parser_agree_sample :
    ∃ pki, tryNewOn chainSha256 .p256 (chainDrawn chainMade) = .ok pki ∧
      ∃ tbs signature, tbsAndSig pki.eumCert = .ok (tbs, signature) ∧
        pki.ci.publicKey.verifyDer (.ofMade chainMade) tbs signature = .ok () := by
  obtain ⟨pki, hmake, hcerts⟩ := generator_and_parser_agree chainSha256 (fun _ => false)
    (chainDrawn chainMade) (keyPairSound_chainDrawn (by decide +kernel) (by decide +kernel))
  obtain ⟨tbs, signature, hwalk, -, -, hverify, -⟩ := hcerts (pki.eumCert, pki.eum)
    List.mem_cons_self
  exact ⟨pki, hmake, tbs, signature, hwalk, hverify⟩

end TbsMatch
end EuiccCrypto
