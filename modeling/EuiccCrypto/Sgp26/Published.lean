import EuiccCrypto.Pem.Render
import EuiccCrypto.Sgp26.Pkcs8

/-!
# Published material

What the files of the SGP.26 set hold: certificates in DER, and keys in PEM files with a
subjectPublicKeyInfo, a PKCS#8 key or a SEC1 key for their last block. A point is found in every
subjectPublicKeyInfo (`extractSec1Point_spki`), and `load_published` says that material that is
published in a directory is loaded from it, and that a directory has one material at most.
-/

namespace EuiccCrypto
namespace Sgp26

open Octets Tlv Tree Pem X509

variable {E : EcLib} {curve : CurveKind}

/-! ### Public keys -/

/-- The subjectPublicKeyInfo of a key. -/
def spkiDer (key : PublicKey) : Bytes := encode 0x30 (spkiContent key.curve.oid key.point)

/-- What is in front of the point. -/
def spkiHeader (curve : CurveKind) : Bytes :=
  0x30 :: UInt8.ofNat (curve.oid.length + 81) ::
    (encode 0x30 (encode 0x06 idEcPublicKey ++ encode 0x06 curve.oid) ++ [0x03, 0x42, 0x00])

theorem spkiDer_eq {key : PublicKey} (hlen : key.point.length = publicKeyLen) :
    spkiDer key = spkiHeader key.curve ++ key.point := by
  have hbits : encode 0x03 (0x00 :: key.point) = [0x03, 0x42, 0x00] ++ key.point := by
    rw [encode_of_lt (by rw [List.length_cons, hlen]; decide), List.length_cons, hlen]
    rfl
  have halg : (encode 0x30 (encode 0x06 idEcPublicKey ++ encode 0x06 key.curve.oid)).length =
      key.curve.oid.length + 13 := by
    cases key.curve <;> decide +kernel
  have hlength : (spkiContent key.curve.oid key.point).length = key.curve.oid.length + 81 := by
    rw [spkiContent, hbits, List.length_append, List.length_append, halg, hlen]
    rfl
  have hshort : key.curve.oid.length + 81 < 0x80 := by cases key.curve <;> decide
  rw [spkiDer, encode_of_lt (by omega), hlength, spkiContent, hbits, spkiHeader]
  simp

/-- No octet in front of the point looks like the beginning of one. -/
theorem notMem_spkiHeader (curve : CurveKind) : 0x04 ∉ spkiHeader curve := by
  cases curve <;> decide +kernel

/-- The search passes over what has no `0x04` in it, and takes the point behind that. -/
theorem sec1PointFrom_header {point : Bytes} {key : PublicKey}
    (hkey : PublicKey.fromBytes E curve point = .ok key) (hdr : Bytes) (pre : Bytes)
    (h : 0x04 ∉ hdr) :
    sec1PointFrom E curve (pre ++ (hdr ++ point)) (List.range' pre.length (hdr.length + 1)) =
      .ok point := by
  obtain ⟨hlen, hhead, -⟩ := PublicKey.fromBytes_eq_ok.mp hkey
  induction hdr generalizing pre with
  | nil =>
      have hindex : index (pre ++ point) pre.length = .ok 0x04 := by
        rw [index_eq_ok, List.getElem?_append_right Nat.le.refl, Nat.sub_self,
          ← List.head?_eq_getElem?, hhead]
      have hslice : slice (pre ++ point) pre.length (pre.length + publicKeyLen) = .ok point := by
        have h := slice_append pre point []
        rwa [List.append_nil, hlen] at h
      show sec1PointFrom E curve (pre ++ point) [pre.length] = _
      rw [sec1PointFrom, hindex, Exec.ok_bind, if_pos rfl, hslice, Exec.ok_bind, hkey]
  | cons b hdr ih =>
      rw [List.mem_cons, not_or] at h
      have hindex : index (pre ++ (b :: hdr ++ point)) pre.length = .ok b := by
        rw [index_eq_ok, List.getElem?_append_right Nat.le.refl, Nat.sub_self]
        rfl
      have hlater := ih (pre ++ [b]) h.2
      rw [List.append_assoc, List.length_append, List.length_singleton] at hlater
      rw [List.length_cons, List.range'_succ, sec1PointFrom, hindex, Exec.ok_bind,
        if_neg (Ne.symm h.1)]
      exact hlater

/-- The point of a key is found in its subjectPublicKeyInfo. -/
theorem extractSec1Point_spki {key : PublicKey}
    (hkey : PublicKey.fromBytes E key.curve key.point = .ok key) :
    extractSec1Point E key.curve (spkiDer key) = .ok key.point := by
  have hlen := (PublicKey.fromBytes_eq_ok.mp hkey).1
  have hstarts : (spkiHeader key.curve ++ key.point).length - publicKeyLen =
      (spkiHeader key.curve).length := by
    rw [List.length_append, hlen, Nat.add_sub_cancel]
  rw [extractSec1Point, spkiDer_eq hlen, hstarts, List.range_eq_range']
  exact sec1PointFrom_header hkey _ [] (notMem_spkiHeader key.curve)

/-! ### Files

One predicate for each kind of file, on its octets, and one lemma that the loader of the kind
reads such a file: the octets of the last block, taken for a certificate, a point or a scalar. -/

/-- A PEM file whose last block is `der`, with any blocks, text and layout around it. -/
def IsPem (der file : Bytes) : Prop :=
  ∃ blocks after b, file = render blocks after ∧ blocks.getLast? = some b ∧ b.bytes = der

/-- A certificate in DER. -/
def IsCertificateFile (webpki : Bytes → Bool) (c : Certificate E) (file : Bytes) : Prop :=
  c.der = file ∧ c.webpkiParsed = webpki file

/-- A public key on the curve, as subjectPublicKeyInfo. -/
def IsPublicKeyFile (E : EcLib) (curve : CurveKind) (key : PublicKey) (file : Bytes) : Prop :=
  PublicKey.fromBytes E curve key.point = .ok key ∧ IsPem (spkiDer key) file

/-- A private key, in PKCS#8, or in a form that is not PKCS#8 and is when it is wrapped. -/
def IsPrivateKeyFile (curve : CurveKind) (k : KeyPair E) (file : Bytes) : Prop :=
  ∃ der, IsPem der file ∧
    (KeyPair.fromPkcs8 curve der = .ok k ∨
      (KeyPair.fromPkcs8 curve der : Exec (KeyPair E)).Failed ∧
        ((privateKeyInfoTree curve der).content lengthOctets).length ≤ 65535 ∧
        KeyPair.fromPkcs8 curve ((privateKeyInfoTree curve der).write lengthOctets) = .ok k)

variable {fmt : Fmt} {webpki : Bytes → Bool} {file der : Bytes}

theorem IsPem.pemToDer_eq (h : IsPem der file) : pemToDer fmt file = .ok der := by
  obtain ⟨blocks, after, b, rfl, hlast, rfl⟩ := h
  exact pemToDer_of_getLast? fmt hlast after

theorem IsCertificateFile.fromDer_eq {c : Certificate E} (h : IsCertificateFile webpki c file) :
    Certificate.fromDer webpki file = .ok c :=
  Certificate.fromDer_eq_ok.mpr h

theorem IsPublicKeyFile.publicKeyFromPem_eq {key : PublicKey}
    (h : IsPublicKeyFile E curve key file) : publicKeyFromPem E fmt curve file = .ok key := by
  obtain ⟨hkey, hpem⟩ := h
  obtain rfl : key.curve = curve := by rw [(PublicKey.fromBytes_eq_ok.mp hkey).2.2.2]
  rw [publicKeyFromPem, hpem.pemToDer_eq, Exec.ok_bind, extractSec1Point_spki hkey, Exec.ok_bind,
    hkey]

theorem IsPrivateKeyFile.privateKeyFromPem_eq {k : KeyPair E}
    (h : IsPrivateKeyFile curve k file) : privateKeyFromPem E fmt curve file = .ok k := by
  obtain ⟨der, hpem, hread⟩ := h
  rw [privateKeyFromPem, hpem.pemToDer_eq, Exec.ok_bind]
  rcases hread with hread | ⟨⟨e, hfailed⟩, hfits, hread⟩
  · rw [hread]
  · rw [content_privateKeyInfoTree] at hfits
    rw [write_privateKeyInfoTree] at hread
    rw [hfailed, sec1PrivateToPkcs8_eq, if_pos hfits, Exec.ok_bind]
    exact hread

/-! ### Directories

Where a file is missing the source goes on without, in some places, and gives up in others.
`Dir.Holds` says what a directory has under a name; it is used with both loaders, the one that
must find the file (`Dir.Holds.load_eq`) and the one that may not (`Dir.Holds.load_toOption_eq`). -/

/-- Under the name the directory has a file for the value, or no file if there is no value. -/
def Dir.Holds {α : Type} (dir : Dir) (name : String) (isFile : α → Bytes → Prop) :
    Option α → Prop
  | some a => ∃ file, dir.readFile name = .ok file ∧ isFile a file
  | none => (dir.readFile name).Failed

section Holds

variable {α : Type} {dir : Dir} {name : String} {isFile : α → Bytes → Prop} {load : Bytes → Exec α}

/-- What is held is read by a function that reads its files. -/
theorem Dir.Holds.load_eq (hload : ∀ a file, isFile a file → load file = .ok a) {a : α}
    (h : dir.Holds name isFile (some a)) : dir.readFile name >>= load = .ok a := by
  obtain ⟨file, hfile, ha⟩ := h
  rw [hfile, Exec.ok_bind, hload a file ha]

theorem Dir.Holds.load_toOption_eq (hload : ∀ a file, isFile a file → load file = .ok a)
    {o : Option α} (h : dir.Holds name isFile o) :
    (dir.readFile name >>= load).toOption = .ok o := by
  cases o with
  | some a => rw [h.load_eq hload, Exec.toOption_ok]
  | none =>
      obtain ⟨e, he⟩ := h
      rw [he]
      rfl

end Holds

variable (webpki) in
/-- The DPauth certificate is held under the first of its names, or that is no file and it is held
under the second. -/
def Dir.HoldsDpAuth (dir : Dir) (sfx : String) (o : Option (Certificate E)) : Prop :=
  (o.isSome ∧ dir.Holds ("CERT_S_SM_DPauth_ECDSA_" ++ sfx ++ ".der") (IsCertificateFile webpki) o) ∨
    (dir.readFile ("CERT_S_SM_DPauth_ECDSA_" ++ sfx ++ ".der")).Failed ∧
      dir.Holds ("CERT_S_SM_DP2auth_ECDSA_" ++ sfx ++ ".der") (IsCertificateFile webpki) o

theorem Dir.HoldsDpAuth.load_eq {dir : Dir} {sfx : String} {o : Option (Certificate E)}
    (h : dir.HoldsDpAuth webpki sfx o) : loadDpAuthCertificate E webpki dir sfx = .ok o := by
  have hread : ∀ {c : Certificate E} {file}, IsCertificateFile webpki c file →
      (Certificate.fromDer webpki file).toOption = .ok (some c) := by
    intro c file hc
    rw [hc.fromDer_eq, Exec.toOption_ok]
  rcases h with ⟨hsome, h⟩ | ⟨⟨e, hfirst⟩, h⟩
  · obtain ⟨c, rfl⟩ := Option.isSome_iff_exists.mp hsome
    obtain ⟨file, hfile, hc⟩ := h
    rw [loadDpAuthCertificate, hfile]
    exact hread hc
  · rw [loadDpAuthCertificate, hfirst]
    cases o with
    | some c =>
        obtain ⟨file, hfile, hc⟩ := h
        rw [hfile]
        exact hread hc
    | none =>
        obtain ⟨e', he'⟩ := h
        rw [he']
        rfl

variable (webpki) in
/-- The material `m` is published in the directory: every file that the set names holds what `m` has
for it, and where `m` has nothing there is no file. -/
structure Published (dir : Dir) (m : Sgp26VariantO E) : Prop where
  ci : dir.Holds ("CERT_CI_ECDSA_" ++ m.curve.sgp26Suffix ++ ".der") (IsCertificateFile webpki)
    (some m.ci)
  eum : dir.Holds ("CERT_EUM_ECDSA_" ++ m.curve.sgp26Suffix ++ ".der") (IsCertificateFile webpki)
    (some m.eum)
  euicc : dir.Holds ("CERT_EUICC_ECDSA_" ++ m.curve.sgp26Suffix ++ ".der")
    (IsCertificateFile webpki) (some m.euicc)
  euiccPublic : dir.Holds ("PK_EUICC_ECDSA_" ++ m.curve.sgp26Suffix ++ ".pem")
    (IsPublicKeyFile E m.curve) (some m.euiccPublic)
  euiccPrivate : dir.Holds ("SK_EUICC_ECDSA_" ++ m.curve.sgp26Suffix ++ ".pem")
    (IsPrivateKeyFile m.curve) (some m.euiccPrivate)
  eimPublic : dir.Holds ("PK_S_EIMsign_ECDSA_" ++ m.curve.sgp26Suffix ++ ".pem")
    (IsPublicKeyFile E m.curve) (some m.eimPublic)
  eimPrivate : dir.Holds ("SK_S_EIMsign_ECDSA_" ++ m.curve.sgp26Suffix ++ ".pem")
    (IsPrivateKeyFile m.curve) (some m.eimPrivate)
  dpAuthPublic : dir.Holds ("PK_S_SM_DPauth_ECDSA_" ++ m.curve.sgp26Suffix ++ ".pem")
    (IsPublicKeyFile E m.curve) m.dpAuthPublic
  dpAuthPrivate : dir.Holds ("SK_S_SM_DPauth_ECDSA_" ++ m.curve.sgp26Suffix ++ ".pem")
    (IsPrivateKeyFile m.curve) m.dpAuthPrivate
  eumPrivate : dir.Holds ("SK_EUM_ECDSA_" ++ m.curve.sgp26Suffix ++ ".pem")
    (IsPrivateKeyFile m.curve) m.eumPrivate
  dpPb : dir.Holds ("CERT_S_SM_DPpb_ECDSA_" ++ m.curve.sgp26Suffix ++ ".der")
    (IsCertificateFile webpki) m.dpPb
  dpPbPrivate : dir.Holds ("SK_S_SM_DPpb_ECDSA_" ++ m.curve.sgp26Suffix ++ ".pem")
    (IsPrivateKeyFile m.curve) m.dpPbPrivate
  dpAuthCert : dir.HoldsDpAuth webpki m.curve.sgp26Suffix m.dpAuthCert
  dsAuthInvalidSignatureCert : dir.Holds
    ("CERT_S_SM_DSauth_INV_SIGN_" ++ m.curve.sgp26Suffix ++ ".der") (IsCertificateFile webpki)
    m.dsAuthInvalidSignatureCert
  -- Named after the family of the curve.
  dsAuthInvalidCurveCertDer : dir.Holds ("CERT_S_SM_DSauth_INV_CURVE_" ++
    (if m.curve = .brainpoolP256r1 then "BRP" else "NIST") ++ "192.der") (· = ·)
    m.dsAuthInvalidCurveCertDer
  dsAuthCert : dir.Holds ("CERT_S_SM_DSauth_VARA_SIG_" ++ m.curve.sgp26Suffix ++ ".der")
    (IsCertificateFile webpki) m.dsAuthCert
  dsAuthPrivate : dir.Holds ("SK_S_SM_DSauth_SIG_" ++ m.curve.sgp26Suffix ++ ".pem")
    (IsPrivateKeyFile m.curve) m.dsAuthPrivate
  dpPbAsAuthCert : dir.Holds ("CERT_S_SM_DPpb_VARA_SIG_" ++ m.curve.sgp26Suffix ++ ".der")
    (IsCertificateFile webpki) m.dpPbAsAuthCert
  dpPbAsAuthPrivate : dir.Holds ("SK_S_SM_DPpb_SIG_" ++ m.curve.sgp26Suffix ++ ".pem")
    (IsPrivateKeyFile m.curve) m.dpPbAsAuthPrivate

section Load

variable {dir : Dir} {name : String}

theorem loadCertificate_eq {c : Certificate E}
    (h : dir.Holds name (IsCertificateFile webpki) (some c)) :
    loadCertificate E webpki dir name = .ok c :=
  h.load_eq fun _ _ hc => hc.fromDer_eq

theorem loadCertificate_toOption_eq {o : Option (Certificate E)}
    (h : dir.Holds name (IsCertificateFile webpki) o) :
    (loadCertificate E webpki dir name).toOption = .ok o :=
  h.load_toOption_eq fun _ _ hc => hc.fromDer_eq

theorem loadPublicKey_eq {key : PublicKey} (h : dir.Holds name (IsPublicKeyFile E curve) (some key)) :
    loadPublicKey E fmt curve dir name = .ok key :=
  h.load_eq fun _ _ hkey => hkey.publicKeyFromPem_eq

theorem loadPublicKey_toOption_eq {o : Option PublicKey}
    (h : dir.Holds name (IsPublicKeyFile E curve) o) :
    (loadPublicKey E fmt curve dir name).toOption = .ok o :=
  h.load_toOption_eq fun _ _ hkey => hkey.publicKeyFromPem_eq

theorem loadPrivateKey_eq {k : KeyPair E} (h : dir.Holds name (IsPrivateKeyFile curve) (some k)) :
    loadPrivateKey E fmt curve dir name = .ok k :=
  h.load_eq fun _ _ hk => hk.privateKeyFromPem_eq

theorem loadPrivateKey_toOption_eq {o : Option (KeyPair E)}
    (h : dir.Holds name (IsPrivateKeyFile curve) o) :
    (loadPrivateKey E fmt curve dir name).toOption = .ok o :=
  h.load_toOption_eq fun _ _ hk => hk.privateKeyFromPem_eq

theorem readFile_toOption_eq {o : Option Bytes} (h : dir.Holds name (· = ·) o) :
    (dir.readFile name).toOption = .ok o := by
  cases o with
  | some file =>
      obtain ⟨_, hfile, rfl⟩ := h
      rw [hfile, Exec.toOption_ok]
  | none =>
      obtain ⟨e, he⟩ := h
      rw [he]
      rfl

theorem Published.loadCurveFrom_eq (fmt : Fmt) {m : Sgp26VariantO E} (h : Published webpki dir m) :
    loadCurveFrom E webpki fmt m.curve dir = .ok m := by
  simp only [loadCurveFrom, loadCertificate_eq h.ci, loadCertificate_eq h.eum,
    loadCertificate_eq h.euicc, loadPublicKey_eq h.euiccPublic, loadPrivateKey_eq h.euiccPrivate,
    loadPublicKey_eq h.eimPublic, loadPrivateKey_eq h.eimPrivate,
    loadPublicKey_toOption_eq h.dpAuthPublic, loadPrivateKey_toOption_eq h.dpAuthPrivate,
    loadPrivateKey_toOption_eq h.eumPrivate, loadCertificate_toOption_eq h.dpPb,
    loadPrivateKey_toOption_eq h.dpPbPrivate, h.dpAuthCert.load_eq,
    loadCertificate_toOption_eq h.dsAuthInvalidSignatureCert,
    readFile_toOption_eq h.dsAuthInvalidCurveCertDer, loadCertificate_toOption_eq h.dsAuthCert,
    loadPrivateKey_toOption_eq h.dsAuthPrivate, loadCertificate_toOption_eq h.dpPbAsAuthCert,
    loadPrivateKey_toOption_eq h.dpPbAsAuthPrivate, Exec.ok_bind]

/-- **Published material loads.** Whatever blocks and text the key files have besides, loading gives
what is published; so no two materials for one curve are published in one directory. -/
theorem load_published (fmt : Fmt) {m : Sgp26VariantO E} (h : Published webpki dir m) :
    loadCurveFrom E webpki fmt m.curve dir = .ok m ∧
      ∀ m' : Sgp26VariantO E, Published webpki dir m' → m'.curve = m.curve → m' = m := by
  have hload := h.loadCurveFrom_eq fmt
  refine ⟨hload, ?_⟩
  intro m' h' hcurve
  have hload' := h'.loadCurveFrom_eq fmt
  rw [hcurve, hload] at hload'
  exact (Exec.ok.inj hload').symm

end Load

/-! ### A directory -/

/-- A public key. -/
def publishedKey : PublicKey where
  curve := .p256
  point :=
    [0x04, 0xfa, 0x15, 0xa8, 0x29, 0xe5, 0xfd, 0x58, 0xe3, 0xdb, 0x29, 0xe4, 0x9c, 0xf7, 0xdf,
     0xb0, 0xe3, 0x40, 0x86, 0x58, 0xea, 0x00, 0x56, 0x52, 0xb8, 0x9d, 0x69, 0x59, 0x45, 0x22,
     0x3f, 0xdf, 0x92, 0xfc, 0x54, 0x74, 0x53, 0xb6, 0x75, 0x4c, 0xf7, 0x90, 0x53, 0x1c, 0x86,
     0x47, 0xc3, 0x44, 0x39, 0xec, 0xf6, 0xba, 0xcc, 0xf2, 0x72, 0x7b, 0x89, 0xb7, 0x97, 0xe0,
     0xf0, 0x29, 0x28, 0xa0, 0xdc]

/-- Its private key, in SEC1. -/
def publishedSec1 : Bytes :=
  [0x30, 0x31, 0x02, 0x01, 0x01, 0x04, 0x20, 0x96, 0x3a, 0x4b, 0x74, 0x93, 0xe9, 0xa1, 0xdd,
   0x59, 0x22, 0xf1, 0x23, 0x8b, 0x29, 0x46, 0xa4, 0x66, 0xca, 0x0c, 0x48, 0xdb, 0xb3, 0xf3,
   0xa6, 0xc5, 0x93, 0x7f, 0xa6, 0x0f, 0x83, 0x0b, 0xbb, 0xa0, 0x0a, 0x06, 0x08, 0x2a, 0x86,
   0x48, 0xce, 0x3d, 0x03, 0x01, 0x07]

/-- The same in PKCS#8. -/
def publishedPkcs8 : Bytes :=
  [0x30, 0x4d, 0x02, 0x01, 0x00, 0x30, 0x13, 0x06, 0x07, 0x2a, 0x86, 0x48, 0xce, 0x3d, 0x02,
   0x01, 0x06, 0x08, 0x2a, 0x86, 0x48, 0xce, 0x3d, 0x03, 0x01, 0x07, 0x04, 0x33, 0x30, 0x31,
   0x02, 0x01, 0x01, 0x04, 0x20, 0x96, 0x3a, 0x4b, 0x74, 0x93, 0xe9, 0xa1, 0xdd, 0x59, 0x22,
   0xf1, 0x23, 0x8b, 0x29, 0x46, 0xa4, 0x66, 0xca, 0x0c, 0x48, 0xdb, 0xb3, 0xf3, 0xa6, 0xc5,
   0x93, 0x7f, 0xa6, 0x0f, 0x83, 0x0b, 0xbb, 0xa0, 0x0a, 0x06, 0x08, 0x2a, 0x86, 0x48, 0xce,
   0x3d, 0x03, 0x01, 0x07]

/-- A library that reads one PKCS#8 key. -/
def publishedLib : EcLib :=
  { EcLib.ofTable [] with
    fromPkcs8Der := fun _ der =>
      if der = publishedPkcs8 then .ok publishedKey.point else .error "ASN.1 DER message malformed" }

def publishedCert : Certificate publishedLib where
  der := serverFields.encode
  publicKey := { curve := .p256, point := serverPoint }
  webpkiParsed := false
  extracted := by decide +kernel

def publishedMaterial : Sgp26VariantO publishedLib where
  curve := .p256
  ci := publishedCert
  eum := publishedCert
  euicc := publishedCert
  euiccPublic := publishedKey
  euiccPrivate := { curve := .p256, inner := publishedKey.point }
  eimPublic := publishedKey
  eimPrivate := { curve := .p256, inner := publishedKey.point }
  dpAuthPublic := none
  dpAuthPrivate := none
  eumPrivate := none
  dpPb := none
  dpPbPrivate := none
  dpAuthCert := some publishedCert
  dsAuthInvalidSignatureCert := none
  dsAuthInvalidCurveCertDer := none
  dsAuthCert := none
  dsAuthPrivate := none
  dpPbAsAuthCert := none
  dpPbAsAuthPrivate := none

def spkiBlock : Pem.Block where
  before := []
  label := ⟨"PUBLIC KEY".toList, by decide +kernel, by decide +kernel, by decide +kernel⟩
  bytes := spkiDer publishedKey
  header := plain
  body := [(plain, "MFkwEwYHKoZIzj0CAQYIKoZIzj0DAQcDQgAE+hWoKeX9WOPbKeSc99+w40CGWOoA".toList),
    (plain, "VlK4nWlZRSI/35L8VHRTtnVM95BTHIZHw0Q57Pa6zPJye4m3l+DwKSig3A==".toList)]
  footer := plain
  encodes := by decide +kernel

def sec1Block : Pem.Block where
  before := []
  label := keyBlock.label
  bytes := publishedSec1
  header := plain
  body := [(plain, "MDECAQEEIJY6S3ST6aHdWSLxI4spRqRmygxI27PzpsWTf6YPgwu7oAoGCCqGSM49".toList),
    (plain, "AwEH".toList)]
  footer := plain
  encodes := by decide +kernel

/-- A directory with the files of `publishedMaterial`; the DPauth certificate has its second name. -/
def publishedDir : Dir where
  display name := "fixtures/sgp26/variant-o/" ++ name
  read name :=
    if name ∈ ["CERT_CI_ECDSA_NIST.der", "CERT_EUM_ECDSA_NIST.der", "CERT_EUICC_ECDSA_NIST.der",
        "CERT_S_SM_DP2auth_ECDSA_NIST.der"] then .ok serverFields.encode
    else if name ∈ ["PK_EUICC_ECDSA_NIST.pem", "PK_S_EIMsign_ECDSA_NIST.pem"] then
      .ok (render [spkiBlock] [])
    else if name ∈ ["SK_EUICC_ECDSA_NIST.pem", "SK_S_EIMsign_ECDSA_NIST.pem"] then
      .ok (render [parametersBlock, sec1Block] [])
    else .error "No such file or directory (os error 2)"

theorem published_publishedDir : Published (fun _ => false) publishedDir publishedMaterial := by
  have hcert : IsCertificateFile (fun _ => false) publishedCert serverFields.encode := ⟨rfl, rfl⟩
  have hpublic : IsPublicKeyFile publishedLib .p256 publishedKey (render [spkiBlock] []) :=
    ⟨by decide +kernel, [spkiBlock], [], spkiBlock, rfl, rfl, rfl⟩
  have hwrapped : (privateKeyInfoTree .p256 publishedSec1).write lengthOctets = publishedPkcs8 := by
    decide +kernel
  have hread : ∀ der, publishedLib.fromPkcs8Der .p256 der = if der = publishedPkcs8 then
      .ok publishedKey.point else .error "ASN.1 DER message malformed" := fun _ => rfl
  have hprivate : @IsPrivateKeyFile publishedLib .p256 ⟨.p256, publishedKey.point⟩
      (render [parametersBlock, sec1Block] []) := by
    refine ⟨publishedSec1, ⟨[parametersBlock, sec1Block], [], sec1Block, rfl, rfl, rfl⟩,
      .inr ⟨?_, ?_, ?_⟩⟩
    · rw [KeyPair.fromPkcs8, hread, if_neg (by decide +kernel)]
      exact ⟨_, rfl⟩
    · decide +kernel
    · rw [KeyPair.fromPkcs8, hwrapped, hread, if_pos rfl]
  have habsent : ∀ name ∈ ["PK_S_SM_DPauth_ECDSA_NIST.pem", "SK_S_SM_DPauth_ECDSA_NIST.pem",
      "SK_EUM_ECDSA_NIST.pem", "CERT_S_SM_DPpb_ECDSA_NIST.der", "SK_S_SM_DPpb_ECDSA_NIST.pem",
      "CERT_S_SM_DPauth_ECDSA_NIST.der", "CERT_S_SM_DSauth_INV_SIGN_NIST.der",
      "CERT_S_SM_DSauth_INV_CURVE_NIST192.der", "CERT_S_SM_DSauth_VARA_SIG_NIST.der",
      "SK_S_SM_DSauth_SIG_NIST.pem", "CERT_S_SM_DPpb_VARA_SIG_NIST.der",
      "SK_S_SM_DPpb_SIG_NIST.pem"], (publishedDir.readFile name).Failed := by
    decide +kernel
  constructor
  case ci | eum | euicc => exact ⟨_, rfl, hcert⟩
  case euiccPublic | eimPublic => exact ⟨_, rfl, hpublic⟩
  case euiccPrivate | eimPrivate => exact ⟨_, rfl, hprivate⟩
  case dpAuthCert => exact .inr ⟨habsent _ (by decide +kernel), _, rfl, hcert⟩
  all_goals exact habsent _ (by decide +kernel)

theorem load_published_sample :
    loadCurveFrom publishedLib (fun _ => false) sampleFmt .p256 publishedDir =
      .ok publishedMaterial :=
  (load_published sampleFmt published_publishedDir).1

end Sgp26
end EuiccCrypto
