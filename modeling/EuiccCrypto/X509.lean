import EuiccCrypto.Der
import EuiccCrypto.Ecdsa

/-!
# Certificates

`x509.rs`: the structural walk that extracts the subject public key, and signature
verification over the tbsCertificate.

`Layout der` is what the walk sees of a certificate: where the outer SEQUENCE ends, where the
tbsCertificate lies in it, and which elements that has. `fromDer_eq_ok` says that
`Certificate::from_der` accepts exactly the strings that have a layout whose element at the
subjectPublicKeyInfo position holds a point the curve accepts.
-/

namespace EuiccCrypto
namespace X509

open Octets Tlv

/-! ### TLV reading

The functions that read elements are written over the functions they call, in definitions whose names
end in `With`: `Usize` runs the same bodies with readers whose sums can overflow. Under the name of
the source stands each body with the functions of this module. -/

/-- The text for a length form `read_length` does not read. -/
def unsupportedLength (first : UInt8) (count available : Nat) : String :=
  "unsupported DER length form (marker " ++ hexPrefixed first ++ ", " ++ toString count ++
    " length bytes, " ++ toString available ++ " available)"

/-- `read_length`: read a DER length, returning `(length, bytes_consumed)`. -/
def readLength (input : Bytes) : Exec (Nat × Nat) :=
  Der.readLengthWith .certificate unsupportedLength input

/-- `read_tlv_any`: read any single TLV, returning `(tag, value, bytes_used)`. -/
def readTlvAny (input : Bytes) : Exec (UInt8 × Bytes × Nat) :=
  if input.length < 2 then .err (.certificate "truncated TLV")
  else do
    let tag ← index input 0
    let (len, lenBytes) ← sliceFrom input 1 >>= readLength
    let start := 1 + lenBytes
    let stop := start + len
    if input.length < stop then
      .err (.certificate ("TLV " ++ hexPrefixed tag ++ " declares " ++ toString len ++
        " bytes, only " ++ toString (input.length - start) ++ " remain"))
    else do
      let value ← slice input start stop
      .ok (tag, value, stop)

/-- `read_tlv`, over the reader of elements. -/
def readTlvWith (readTlvAny : Bytes → Exec (UInt8 × Bytes × Nat)) (input : Bytes)
    (expected : UInt8) : Exec (Bytes × Nat) := do
  let (tag, value, used) ← readTlvAny input
  if tag ≠ expected then
    .err (.certificate ("expected tag " ++ hexPrefixed expected ++ ", found " ++ hexPrefixed tag))
  else .ok (value, used)

/-- `read_tlv`: read a TLV with a specific expected tag, returning `(value, bytes_used)`. -/
def readTlv (input : Bytes) (expected : UInt8) : Exec (Bytes × Nat) :=
  readTlvWith readTlvAny input expected

/-- Reading the element a string is known to start with. -/
theorem readTlvAny_append {tag : UInt8} {val e : Bytes} (h : IsTlv tag val e) (rest : Bytes) :
    readTlvAny (e ++ rest) = .ok (tag, val, e.length) := by
  obtain ⟨_, ⟨os, hos, rfl⟩, rfl⟩ := h
  have hpos := hos.length_pos
  have hlong : ¬ (tag :: os ++ val ++ rest).length < 2 := by
    simp only [List.length_append, List.length_cons]
    omega
  have hfrom : sliceFrom (tag :: os ++ val ++ rest) 1 = .ok (os ++ (val ++ rest)) := by simp
  have hfits : ¬ (tag :: os ++ val ++ rest).length < 1 + os.length + val.length := by
    simp only [List.length_append, List.length_cons]
    omega
  have hvalue : slice (tag :: os ++ val ++ rest) (1 + os.length) (1 + os.length + val.length) =
      .ok val := by
    have := slice_append (tag :: os) val rest
    rwa [List.length_cons, Nat.add_comm os.length 1] at this
  have hidx : index (tag :: os ++ val ++ rest) 0 = .ok tag := rfl
  rw [readTlvAny, if_neg hlong, hidx, Exec.ok_bind, hfrom, Exec.ok_bind, readLength,
    Der.readLengthWith_append hos, Exec.ok_bind]
  dsimp only
  rw [if_neg hfits, hvalue, Exec.ok_bind, List.length_append, List.length_cons,
    Nat.add_comm os.length 1]

/-- `read_tlv_any` reads the element its input starts with. -/
theorem readTlvAny_eq_ok {input val : Bytes} {tag : UInt8} {used : Nat} :
    readTlvAny input = .ok (tag, val, used) ↔
      ∃ e rest, input = e ++ rest ∧ IsTlv tag val e ∧ used = e.length := by
  constructor
  · intro h
    simp only [readTlvAny, readLength, Exec.ite_err_eq_ok, Exec.bind_eq_ok, Prod.exists,
      index_eq_ok, sliceFrom_eq_ok, Der.readLengthWith_eq_ok, slice_eq_ok] at h
    obtain ⟨-, t, ht, len, _, ⟨_, ⟨-, rfl⟩, os, r, hr, hos, rfl⟩, hlen, v, ⟨-, rfl⟩, h⟩ := h
    cases input with
    | nil => simp at ht
    | cons t' tail =>
        obtain rfl : t' = t := by simpa using ht
        obtain rfl : tail = os ++ r := by simpa using hr
        cases h
        -- The value is what the bounds check has found room for behind the length octets.
        have hval : (r.take len).length = len := by
          simp only [List.length_cons, List.length_append] at hlen
          rw [List.length_take]
          omega
        have hdrop : (tag :: (os ++ r)).drop (1 + os.length) = r := by
          rw [Nat.add_comm, List.drop_succ_cons, List.drop_left]
        rw [hdrop, Nat.add_sub_cancel_left]
        refine ⟨tag :: os ++ r.take len, r.drop len, by simp, ⟨_, ⟨os, by rwa [hval], rfl⟩, rfl⟩, ?_⟩
        simp only [List.length_append, List.length_cons, hval]
        omega
  · rintro ⟨e, rest, rfl, he, rfl⟩
    exact readTlvAny_append he rest

theorem readTlvAny_ne_panic (input : Bytes) : readTlvAny input ≠ .panic := by
  intro h
  simp only [readTlvAny, readLength, Exec.ite_err_eq_panic, Exec.bind_eq_panic, index_eq_panic,
    sliceFrom_eq_panic, Der.readLengthWith_ne_panic, slice_eq_panic, Prod.exists] at h
  obtain ⟨hlen, h | ⟨t, -, h | ⟨len, k, -, hfits, h | ⟨v, -, h⟩⟩⟩⟩ := h
  · omega
  · rcases h with h | ⟨a, -, h⟩
    · omega
    · exact h
  · omega
  · cases h

theorem readTlv_eq_ok {input val : Bytes} {tag : UInt8} {used : Nat} :
    readTlv input tag = .ok (val, used) ↔
      ∃ e rest, input = e ++ rest ∧ IsTlv tag val e ∧ used = e.length := by
  simp only [readTlv, readTlvWith, Exec.bind_eq_ok, Prod.exists, Exec.ite_err_eq_ok, not_not]
  constructor
  · rintro ⟨t, v, u, hread, rfl, h⟩
    cases h
    exact readTlvAny_eq_ok.mp hread
  · intro h
    exact ⟨tag, val, used, readTlvAny_eq_ok.mpr h, rfl, rfl⟩

theorem readTlv_ne_panic (input : Bytes) (tag : UInt8) : readTlv input tag ≠ .panic := by
  intro h
  simp only [readTlv, readTlvWith, Exec.bind_eq_panic, readTlvAny_ne_panic, Exec.ite_err_eq_panic,
    false_or, Prod.exists] at h
  obtain ⟨_, _, _, -, -, h⟩ := h
  cases h

theorem readTlv_append {tag : UInt8} {val e : Bytes} (h : IsTlv tag val e) (rest : Bytes) :
    readTlv (e ++ rest) tag = .ok (val, e.length) :=
  readTlv_eq_ok.mpr ⟨e, rest, rfl, h, rfl⟩

/-! ### The subject public key -/

section Extract

variable (E : EcLib)

/-- `ID_EC_PUBLIC_KEY`: 1.2.840.10045.2.1. -/
def idEcPublicKey : Bytes := [0x2A, 0x86, 0x48, 0xCE, 0x3D, 0x02, 0x01]

/-- `curve_from_algorithm_identifier`, over the reader of elements. -/
def curveFromAlgorithmIdentifierWith (readTlv : Bytes → UInt8 → Exec (Bytes × Nat)) (alg : Bytes) :
    Exec CurveKind := do
  let (algorithm, used) ← (readTlv alg 0x06).mapErr fun e =>
    .certificate ("AlgorithmIdentifier has no OID: " ++ e.display)
  if algorithm ≠ idEcPublicKey then
    .err (.certificate "certificate public key is not an EC key")
  else do
    let parameters ← sliceFrom alg used
    let (namedCurve, _) ← (readTlv parameters 0x06).mapErr fun e =>
      .certificate ("EC AlgorithmIdentifier has no namedCurve: " ++ e.display)
    if namedCurve = CurveKind.p256.oid then .ok .p256
    else if namedCurve = CurveKind.brainpoolP256r1.oid then .ok .brainpoolP256r1
    else .err (.certificate ("unsupported namedCurve OID " ++
      " ".intercalate (namedCurve.map hex02)))

/-- `curve_from_algorithm_identifier`: read the namedCurve OID out of an
`AlgorithmIdentifier`. -/
def curveFromAlgorithmIdentifier (alg : Bytes) : Exec CurveKind :=
  curveFromAlgorithmIdentifierWith readTlv alg

/-- The loop of `extract_spki_public_key`, over the reader of elements. -/
def walkFieldsWith (readTlvAny : Bytes → Exec (UInt8 × Bytes × Nat)) :
    Nat → Bytes → List UInt8 → List Bytes → Exec (List UInt8 × List Bytes)
  | turns, rest, tags, fields =>
    if rest.isEmpty then .ok (tags, fields)
    else
      match turns with
      | 0 => .panic
      | turns + 1 => do
        let (tag, value, used) ← (readTlvAny rest).mapErr fun e =>
          .certificate ("malformed tbsCertificate after " ++ toString fields.length ++
            " field(s): " ++ e.display)
        if used = 0 then .err (.certificate "zero-length TLV advance")
        else if rest.length < used then
          .err (.certificate "TLV advance ran past the end of tbsCertificate")
        else walkFieldsWith readTlvAny turns (rest.drop used) (tags ++ [tag]) (fields ++ [value])

/-- The loop of `extract_spki_public_key` over the elements of tbsCertificate, with the number
of turns it has left. Every turn consumes at least two octets, so `tbs.length` turns are
enough (`walkFields_eq_ok`). -/
def walkFields : Nat → Bytes → List UInt8 → List Bytes → Exec (List UInt8 × List Bytes) :=
  walkFieldsWith readTlvAny

/-- `spa_missing`: whether `tags` is too short to contain index `i` as a SEQUENCE. -/
def spaMissing (tags : List UInt8) (i : Nat) : Bool :=
  decide (tags.length ≤ i) || tags[i]? != some 0x30

/-- The second half of `extract_spki_public_key`, over the functions it reads with. -/
def publicKeyOfSpkiWith (readTlv : Bytes → UInt8 → Exec (Bytes × Nat))
    (curveFromAlgorithmIdentifier : Bytes → Exec CurveKind) (spki : Bytes) : Exec PublicKey := do
  let (alg, algUsed) ← (readTlv spki 0x30).mapErr fun e =>
    .certificate ("SPKI has no algorithm SEQUENCE: " ++ e.display)
  let curve ← curveFromAlgorithmIdentifier alg
  let bitstringInput ← sliceFrom spki algUsed
  let (bits, _) ← (readTlv bitstringInput 0x03).mapErr fun e =>
    .certificate ("SPKI has no BIT STRING: " ++ e.display)
  if bits.length ≠ publicKeyLen + 1 then
    .err (.certificate ("subjectPublicKey is " ++ toString (bits.length - 1) ++
      " bytes after the unused-bit count, expected " ++ toString publicKeyLen))
  else do
    let unused ← index bits 0
    if unused ≠ 0x00 then
      .err (.certificate "subjectPublicKey BIT STRING declares unused bits")
    else do
      let point ← sliceFrom bits 1
      PublicKey.fromBytes E curve point

/-- The second half of `extract_spki_public_key`: the key in the content of
subjectPublicKeyInfo. -/
def publicKeyOfSpki (spki : Bytes) : Exec PublicKey :=
  publicKeyOfSpkiWith E readTlv curveFromAlgorithmIdentifier spki

/-- The position of subjectPublicKeyInfo: the version element is optional. -/
def spkiIndex (tags : List UInt8) : Nat := if tags.head? = some 0xa0 then 6 else 5

/-- `extract_spki_public_key`, over the functions it reads with. -/
def extractSpkiPublicKeyWith (readTlv : Bytes → UInt8 → Exec (Bytes × Nat))
    (walkFields : Nat → Bytes → List UInt8 → List Bytes → Exec (List UInt8 × List Bytes))
    (spaMissing : List UInt8 → Nat → Exec Bool) (publicKeyOfSpki : Bytes → Exec PublicKey)
    (der : Bytes) : Exec PublicKey := do
  let (certBody, _) ← (readTlv der 0x30).mapErr fun e =>
    .certificate ("certificate is not a SEQUENCE: " ++ e.display)
  let (tbs, _) ← (readTlv certBody 0x30).mapErr fun e =>
    .certificate ("missing tbsCertificate: " ++ e.display)
  let (tags, fields) ← walkFields tbs.length tbs [] []
  let missing ← spaMissing tags (spkiIndex tags)
  if missing then
    .err (.certificate ("tbsCertificate has " ++ toString tags.length ++
      " elements, too few for subjectPublicKeyInfo at index " ++ toString (spkiIndex tags)))
  else do
    let spki ← index fields (spkiIndex tags)
    publicKeyOfSpki spki

/-- `extract_spki_public_key`: walk to subjectPublicKeyInfo by position and read the key. -/
def extractSpkiPublicKey (der : Bytes) : Exec PublicKey :=
  extractSpkiPublicKeyWith readTlv walkFields (fun tags i => .ok (spaMissing tags i))
    (publicKeyOfSpki E) der

end Extract

/-! ### Certificates and their signatures -/

section Certificate

variable (E : EcLib)

/-- A parsed certificate: its DER, the key extracted from it, and whether webpki parses it too.
There is no other way to make one than `from_der`, and that is what `extracted` records. -/
structure Certificate where
  der : Bytes
  publicKey : PublicKey
  webpkiParsed : Bool
  extracted : extractSpkiPublicKey E der = .ok publicKey

variable {E}

/-- `Certificate::from_der`, given whether `webpki` parses a string as an end-entity
certificate. -/
def Certificate.fromDer (webpki : Bytes → Bool) (der : Bytes) : Exec (Certificate E) :=
  if der.isEmpty then .err (.certificate "empty certificate")
  else
    -- What webpki says is recorded and decides nothing.
    match h : extractSpkiPublicKey E der with
    | .ok publicKey => .ok { der, publicKey, webpkiParsed := webpki der, extracted := h }
    | .err e => .err e
    | .panic => .panic

/-- `Certificate::curve`. -/
def Certificate.curve (c : Certificate E) : CurveKind := c.publicKey.curve

/-- Where `extract_tbs_and_signature` takes the signed bytes from, over the reader of elements. -/
def tbsBoundsWith (readTlv : Bytes → UInt8 → Exec (Bytes × Nat)) (der : Bytes) :
    Exec (Bytes × Nat × Nat) := do
  let (certBody, _) ← (readTlv der 0x30).mapErr fun e =>
    .certificate ("certificate is not a SEQUENCE: " ++ e.display)
  if der.length < certBody.length then
    .err (.certificate "certificate body longer than certificate")
  else do
    -- Counted from the end of the input, which need not be the end of the certificate.
    let tbsStart := der.length - certBody.length
    let (_, tbsTlvLen) ← (readTlv certBody 0x30).mapErr fun e =>
      .certificate ("missing tbsCertificate: " ++ e.display)
    .ok (certBody, tbsStart, tbsTlvLen)

/-- Where `extract_tbs_and_signature` takes the signed bytes from: the body of the certificate,
`tbs_start`, and the length of the tbsCertificate TLV. -/
def tbsBounds (der : Bytes) : Exec (Bytes × Nat × Nat) := tbsBoundsWith readTlv der

/-- The second half of `extract_tbs_and_signature`, over the reader of elements. -/
def signatureAfterTbsWith (readTlv : Bytes → UInt8 → Exec (Bytes × Nat)) (afterTbs : Bytes) :
    Exec Bytes := do
  let (_, algUsed) ← (readTlv afterTbs 0x30).mapErr fun e =>
    .certificate ("missing signatureAlgorithm: " ++ e.display)
  let rest ← sliceFrom afterTbs algUsed
  let (sigBits, _) ← (readTlv rest 0x03).mapErr fun e =>
    .certificate ("missing signatureValue: " ++ e.display)
  if sigBits.isEmpty then .err (.certificate "empty signature value")
  else do
    let unused ← index sigBits 0
    if unused ≠ 0x00 then .err (.certificate "signature BIT STRING declares unused bits")
    else sliceFrom sigBits 1

/-- The signature in what follows tbsCertificate in the certificate body. -/
def signatureAfterTbs (afterTbs : Bytes) : Exec Bytes := signatureAfterTbsWith readTlv afterTbs

/-- `extract_tbs_and_signature`, over the sum it computes and the functions it reads with. -/
def extractTbsAndSignatureWith (add : Nat → Nat → Exec Nat)
    (tbsBounds : Bytes → Exec (Bytes × Nat × Nat)) (signatureAfterTbs : Bytes → Exec Bytes)
    (der : Bytes) : Exec (Bytes × Bytes) := do
  let (certBody, tbsStart, tbsTlvLen) ← tbsBounds der
  let tbsEnd ← add tbsStart tbsTlvLen
  if der.length < tbsEnd then
    .err (.certificate ("tbsCertificate extends past the certificate (starts " ++
      toString tbsStart ++ ", needs " ++ toString tbsTlvLen ++ ", der is " ++
      toString der.length ++ " bytes)"))
  else do
    let tbsWire ← slice der tbsStart tbsEnd
    if certBody.length < tbsTlvLen then
      .err (.certificate "certificate body shorter than tbsCertificate")
    else do
      let afterTbs ← sliceFrom certBody tbsTlvLen
      let sig ← signatureAfterTbs afterTbs
      .ok (tbsWire, sig)

/-- `extract_tbs_and_signature`: `(tbsCertificate DER as signed, signature payload)`. -/
def extractTbsAndSignature (der : Bytes) : Exec (Bytes × Bytes) :=
  -- The sum of two natural numbers cannot overflow.
  extractTbsAndSignatureWith (fun a b => .ok (a + b)) tbsBounds signatureAfterTbs der

/-- `Certificate::verify_signed_by_key`: verify the signature over the TBSCertificate. -/
def Certificate.verifySignedByKey (c : Certificate E) (key : PublicKey) : Exec Unit := do
  let (tbs, sig) ← extractTbsAndSignature c.der
  key.verifyDer E tbs sig

/-- `Certificate::verify_signed_by`. -/
def Certificate.verifySignedBy (c issuer : Certificate E) : Exec Unit :=
  c.verifySignedByKey issuer.publicKey

end Certificate

end X509
end EuiccCrypto
