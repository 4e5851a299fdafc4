import EuiccCrypto.Ecdsa.Signature
import EuiccCrypto.TestPki.Chain

/-!
# The AuthenticateServer exchange

The exchange of `tests/authenticate_server.rs`, step by step: the server signs ServerSigned1 (1), the
eUICC selects a CI key for the server's certificate (2) and checks the signature field (3), then it
signs EuiccSigned1 (4), and the server checks that (5).

* `exchange_completes`: with the keys of a chain and of a server the exchange goes through.
* `serverSigned1_unambiguous`: what is signed determines the values, and in which role.
* `accepted_was_sent`: whatever an attacker does with the messages, what an eUICC accepts was sent by
  somebody the CI has certified, provided nothing trails the certificate.
-/

namespace EuiccCrypto
namespace AuthenticateServer

open Octets Tlv X509 Ci TestPki

/-! ### What is signed

The test writes both structures with its own `tlv` and `tlv2`, whose lengths take one octet at
most behind the marker: a content of more than 255 octets gets a length that is cut off. -/

/-- The length octets `tlv` and `tlv2` write. -/
def tlvLength (len : Nat) : Bytes :=
  if len < 0x80 then [UInt8.ofNat len] else [0x81, UInt8.ofNat len]

/-- `tlv` of the test: the length takes one octet at most. -/
def tlv (tag : UInt8) (value : Bytes) : Bytes := tag :: (tlvLength value.length ++ value)

/-- `tlv2`: multi-byte tag form. -/
def tlv2 (tag : UInt16) (value : Bytes) : Bytes :=
  [(tag >>> 8).toUInt8, (tag &&& 0xff).toUInt8] ++ (tlvLength value.length ++ value)

/-- The values a server authenticates with. -/
structure ServerValues where
  transactionId : Bytes
  euiccChallenge : Vector UInt8 16
  serverAddress : String
  serverChallenge : Vector UInt8 16
  deriving DecidableEq

/-- The values an eUICC answers with. -/
structure EuiccValues where
  transactionId : Bytes
  serverAddress : String
  serverChallenge : Vector UInt8 16
  euiccInfo2 : Bytes
  ctxParams1 : Bytes
  deriving DecidableEq

/-- The content of ServerSigned1. -/
def ServerValues.body (v : ServerValues) : Bytes :=
  let t := tlv 0x80 v.transactionId
  let c := tlv 0x81 v.euiccChallenge.toList
  let a := tlv 0x83 v.serverAddress.toUTF8.toList
  let s := tlv 0x84 v.serverChallenge.toList
  [t, c, a, s].flatten

/-- `server_signed1`. -/
def serverSigned1 (v : ServerValues) : Bytes := tlv 0x30 v.body

/-- The content of EuiccSigned1. -/
def EuiccValues.body (w : EuiccValues) : Bytes :=
  [tlv 0x80 w.transactionId, tlv 0x83 w.serverAddress.toUTF8.toList,
    tlv 0x84 w.serverChallenge.toList, tlv2 0xBF22 w.euiccInfo2, w.ctxParams1].flatten

/-- `euicc_signed1`. -/
def euiccSigned1 (w : EuiccValues) : Bytes := tlv 0x30 w.body

/-! ### The steps -/

section Steps

variable {E : EcLib} (R : RawLib E) (webpki : Bytes → Bool)

/-- Step 1, and step 4: sign a message and make the signature field. -/
def signField (kp : KeyPair E) (message : Bytes) : Exec Bytes := do
  let signature ← kp.sign R message
  .ok (Wire.encodeSignature signature)

/-- Step 2: select the CI key and trust the server certificate. -/
def selectCi (ciKeys : CiKeySet) (requested : Bytes) (cert : Certificate E) : Exec CiKey :=
  match ciKeys.verifyServerCertificate requested cert with
  | .ok chosen => .ok chosen
  | .error e => .err e.toError

/-- Step 3, and step 5: parse the signature field and verify it with the certificate's key. -/
def checkField (cert : Certificate E) (message field : Bytes) : Exec Signature := do
  let recovered ← Wire.parseSignature R field
  cert.publicKey.verify R message recovered.bytes
  .ok recovered

/-- What the eUICC does with a request: steps 2 and 3. -/
def euiccAccepts (ciKeys : CiKeySet) (requested certDer signed1 field : Bytes) :
    Exec (CiKey × Signature) := do
  let cert ← Certificate.fromDer webpki certDer
  let chosen ← selectCi ciKeys requested cert
  let recovered ← checkField R cert signed1 field
  .ok (chosen, recovered)

/-- What the server does with the answer: step 5. -/
def serverAccepts (certDer signed1 field : Bytes) : Exec Signature := do
  let cert ← Certificate.fromDer webpki certDer
  checkField R cert signed1 field

end Steps

/-! ### What is signed is unambiguous

An element written by `tlv` is one that readers take apart in one way, so equal structures have
equal elements from the first to the last. What is behind the last one is the remainder of both,
which is why `ctxParams1` can be any octets. The two structures differ in their second element. -/

section Encoding

theorem lengthOctets_tlvLength {n : Nat} (h : n ≤ 0xff) : LengthOctets n (tlvLength n) := by
  have hn : (UInt8.ofNat n).toNat = n := UInt8.toNat_ofNat_of_lt' (Nat.lt_succ_of_le h)
  rw [tlvLength]
  split
  · next hlt =>
      have hshort := LengthOctets.short (b := UInt8.ofNat n) (by omega)
      rwa [hn] at hshort
  · next hge =>
      have hne : UInt8.ofNat n ≠ 0 := by
        intro h0
        rw [h0] at hn
        exact hge (hn ▸ by decide)
      have hlong := @LengthOctets.long 0x81 (UInt8.ofNat n) [] rfl (by simp) hne
      rwa [beValue_cons, beValue_nil, hn, List.length_nil, Nat.pow_zero, Nat.mul_one,
        Nat.add_zero] at hlong

theorem isTlv_tlv {tag : UInt8} {value : Bytes} (h : value.length ≤ 0xff) :
    IsTlv tag value (tlv tag value) :=
  ⟨_, ⟨_, lengthOctets_tlvLength h, rfl⟩, rfl⟩

theorem length_tlv (tag : UInt8) (value : Bytes) :
    (tlv tag value).length = if value.length < 0x80 then value.length + 2 else value.length + 3 := by
  simp only [tlv, tlvLength, List.length_cons, List.length_append]
  split <;> simp only [List.length_cons, List.length_nil] <;> omega

/-- An element of at most 255 octets is only written for its own value: a longer one is longer as a
whole. -/
theorem tlv_inj {tag : UInt8} {value value' : Bytes} (h : value.length ≤ 0xff)
    (heq : tlv tag value = tlv tag value') : value = value' := by
  have hlen := congrArg List.length heq
  rw [length_tlv, length_tlv] at hlen
  have h' : value'.length ≤ 0xff := by
    split at hlen <;> split at hlen <;> omega
  exact ((isTlv_tlv h).unique (heq ▸ isTlv_tlv h')).2

/-- The first element of a string of at most 255 octets. -/
theorem tlv_append_inj {tag tag' : UInt8} {value value' rest rest' : Bytes}
    (h : (tlv tag value ++ rest).length ≤ 0xff)
    (heq : tlv tag value ++ rest = tlv tag' value' ++ rest') :
    tag = tag' ∧ value = value' ∧ rest = rest' := by
  have hlt := length_tlv tag value
  have hlt' := length_tlv tag' value'
  have hlen := congrArg List.length heq
  rw [List.length_append] at h hlen
  rw [List.length_append] at hlen
  have hfirst : IsTlv tag value (tlv tag value) := isTlv_tlv (by split at hlt <;> omega)
  have hfirst' : IsTlv tag' value' (tlv tag' value') := isTlv_tlv (by split at hlt' <;> omega)
  obtain ⟨htag, hvalue, -, hrest⟩ := hfirst.append_inj hfirst' heq
  exact ⟨htag, hvalue, hrest⟩

theorem tlv2_append_inj {tag : UInt16} {value value' rest rest' : Bytes}
    (h : (tlv2 tag value ++ rest).length ≤ 0xff)
    (heq : tlv2 tag value ++ rest = tlv2 tag value' ++ rest') : value = value' ∧ rest = rest' := by
  -- Behind the tag it is a `tlv`.
  simp only [tlv2, List.cons_append, List.nil_append, List.cons.injEq, true_and] at h heq
  have hshort : (tlv (tag &&& 0xff).toUInt8 value ++ rest).length ≤ 0xff := by
    simp only [tlv, List.cons_append, List.length_cons] at h ⊢
    omega
  have htail : tlv (tag &&& 0xff).toUInt8 value ++ rest =
      tlv (tag &&& 0xff).toUInt8 value' ++ rest' := by
    rw [tlv, tlv, List.cons_append, List.cons_append, heq]
  exact (tlv_append_inj hshort htail).2

theorem toUTF8_toList_inj {s s' : String} (h : s.toUTF8.toList = s'.toUTF8.toList) : s = s' := by
  have hbytes := byteArray_toList_inj h
  rwa [String.toUTF8_eq_toByteArray, String.toUTF8_eq_toByteArray, String.toByteArray_inj] at hbytes

/-- A structure of at most 255 octets has the content it was made with. -/
theorem ServerValues.body_inj {v v' : ServerValues} (h : v.body.length ≤ 0xff)
    (heq : v.body = v'.body) : v = v' := by
  obtain ⟨transactionId, euiccChallenge, serverAddress, serverChallenge⟩ := v
  obtain ⟨transactionId', euiccChallenge', serverAddress', serverChallenge'⟩ := v'
  simp only [body, List.flatten_cons, List.flatten_nil] at h heq
  -- The elements one after another; what is left gets shorter.
  obtain ⟨-, rfl, htail⟩ := tlv_append_inj h heq
  rw [List.length_append] at h
  obtain ⟨-, hchallenge, htail⟩ := tlv_append_inj (by omega) htail
  rw [List.length_append] at h
  obtain ⟨-, haddress, htail⟩ := tlv_append_inj (by omega) htail
  rw [List.length_append] at h
  obtain ⟨-, hserver, -⟩ := tlv_append_inj (by omega) htail
  rw [Vector.toList_inj.mp hchallenge, toUTF8_toList_inj haddress, Vector.toList_inj.mp hserver]

theorem EuiccValues.body_inj {w w' : EuiccValues} (h : w.body.length ≤ 0xff)
    (heq : w.body = w'.body) : w = w' := by
  obtain ⟨transactionId, serverAddress, serverChallenge, euiccInfo2, ctxParams1⟩ := w
  obtain ⟨transactionId', serverAddress', serverChallenge', euiccInfo2', ctxParams1'⟩ := w'
  simp only [body, List.flatten_cons, List.flatten_nil, List.append_nil] at h heq
  obtain ⟨-, rfl, htail⟩ := tlv_append_inj h heq
  rw [List.length_append] at h
  obtain ⟨-, haddress, htail⟩ := tlv_append_inj (by omega) htail
  rw [List.length_append] at h
  obtain ⟨-, hserver, htail⟩ := tlv_append_inj (by omega) htail
  rw [List.length_append] at h
  obtain ⟨rfl, rfl⟩ := tlv2_append_inj (by omega) htail
  rw [toUTF8_toList_inj haddress, Vector.toList_inj.mp hserver]

/-- The second element tells the structures apart. -/
theorem body_ne_body {v : ServerValues} {w : EuiccValues} (h : v.body.length ≤ 0xff) :
    v.body ≠ w.body := by
  intro heq
  simp only [ServerValues.body, EuiccValues.body, List.flatten_cons] at h heq
  obtain ⟨-, -, htail⟩ := tlv_append_inj h heq
  rw [List.length_append] at h
  obtain ⟨htag, -⟩ := tlv_append_inj (by omega) htail
  exact absurd htag (by decide)

/-- **What is signed determines the values, and in which role it was signed**, as long as it has at
most 255 octets: no other values have the same encoding, and no value of the other structure. -/
theorem serverSigned1_unambiguous (v : ServerValues) (w : EuiccValues) :
    (v.body.length ≤ 255 → ∀ v', serverSigned1 v = serverSigned1 v' → v = v') ∧
    (w.body.length ≤ 255 → ∀ w', euiccSigned1 w = euiccSigned1 w' → w = w') ∧
    (v.body.length ≤ 255 → serverSigned1 v ≠ euiccSigned1 w) :=
  ⟨fun h _ heq => ServerValues.body_inj h (tlv_inj h heq),
    fun h _ heq => EuiccValues.body_inj h (tlv_inj h heq),
    fun h heq => body_ne_body h (tlv_inj h heq)⟩

/-- The values of an exchange. -/
def sampleServerValues : ServerValues where
  transactionId := List.replicate 16 0x01
  euiccChallenge := .replicate 16 0xaa
  serverAddress := "smdp.example.com"
  serverChallenge := .replicate 16 0xbb

def sampleEuiccValues : EuiccValues where
  transactionId := List.replicate 16 0x01
  serverAddress := "smdp.example.com"
  serverChallenge := .replicate 16 0xbb
  euiccInfo2 := tlv 0x30 (tlv 0x80 [0x03, 0x00, 0x00])
  ctxParams1 := tlv 0xA0 (tlv 0x80 "device-info".toUTF8.toList)

theorem serverSigned1_unambiguous_sample :
    serverSigned1 sampleServerValues ≠ euiccSigned1 sampleEuiccValues ∧
      ∀ v', serverSigned1 sampleServerValues = serverSigned1 v' → sampleServerValues = v' :=
  ⟨(serverSigned1_unambiguous sampleServerValues sampleEuiccValues).2.2 (by decide +kernel),
    (serverSigned1_unambiguous sampleServerValues sampleEuiccValues).1 (by decide +kernel)⟩

end Encoding

/-! ### The exchange goes through

That the certificates of a chain are trusted is `Issuing.trusted`; what is added is the signature
field, in the same way for the request and for the answer: a field is accepted under any
certificate for the key that signed it (`exists_checkField`). -/

section Completes

variable {E : EcLib} {R : RawLib E} {webpki : Bytes → Bool}

/-- A field is accepted under a certificate for the key that signed it. -/
theorem exists_checkField (hR : R.Documented) {kp : KeyPair E} (hkp : kp.SignaturesVerify)
    (hcurve : kp.curve = .p256) {cert : Certificate E} (hkey : cert.publicKey = kp.publicKey)
    (message : Bytes) :
    ∃ field signature, signField R kp message = .ok field ∧ kp.sign R message = .ok signature ∧
      field.length = 67 ∧ field.take 2 = [0x5f, 0x37] ∧
      checkField R cert message field = .ok signature := by
  obtain ⟨signature, hsign⟩ : ∃ signature, kp.sign R message = .ok signature := ⟨_, rfl⟩
  have hobtained : signature.Obtained R := .sign hsign
  obtain ⟨hlen, hread⟩ := hobtained.field_round_trip hR
  have hsigCurve : signature.curve = .p256 := by
    cases hsign
    exact hcurve
  have hparse : Wire.parseSignature R (Wire.encodeSignature signature) = .ok signature := by
    have hself := hread []
    rwa [List.append_nil, hsigCurve] at hself
  have hverify := hkp.verify hR hsign
  refine ⟨_, signature, by rw [signField, hsign]; rfl, hsign, hlen, rfl, ?_⟩
  rw [checkField, hparse, Exec.ok_bind, hkey, hverify]
  rfl

variable {sha256 : Bytes → Vector UInt8 32}

/-- **The exchange goes through.** Whatever keys are drawn for the chain and the server, whatever
values are exchanged, and whatever other CI keys the eUICC has: it accepts the server's signature
and the server accepts the eUICC's; each is recovered as it was made, from a field of 67 octets. -/
theorem exchange_completes (hR : R.Documented) (drawn : Drawn E .p256)
    (hdrawn : ∀ kp ∈ drawn.keyPairs, KeyPairSound kp) (server : KeyPair E)
    (hserver : KeyPairSound server) (hcurve : server.curve = .p256) (label : String)
    (hlabel : label.toUTF8.size ≤ 32000) (v : ServerValues) (w : EuiccValues) :
    ∃ pki certDer, tryNewOn sha256 .p256 drawn = .ok pki ∧
      pki.issueFor sha256 server label = .ok certDer ∧
      (∀ (ciKeys : CiKeySet) (requested : Bytes), ⟨pki.ciPkId, pki.ci.publicKey⟩ ∈ ciKeys.keys →
        Names requested pki.ciPkId →
        ∃ field signature chosen, signField R server (serverSigned1 v) = .ok field ∧
          server.sign R (serverSigned1 v) = .ok signature ∧ field.length = 67 ∧
          euiccAccepts R webpki ciKeys requested certDer (serverSigned1 v) field =
            .ok (chosen, signature) ∧
          chosen ∈ ciKeys.keys ∧ Names requested chosen.id) ∧
      ∃ field signature, signField R pki.euicc (euiccSigned1 w) = .ok field ∧
        pki.euicc.sign R (euiccSigned1 w) = .ok signature ∧ field.length = 67 ∧
        serverAccepts R webpki pki.euiccCert (euiccSigned1 w) field = .ok signature := by
  obtain ⟨pki, hmake, hpki, hkeys, hcerts⟩ := exists_issuing sha256 webpki hdrawn
  obtain ⟨certDer, hissue, hserverCert⟩ :=
    hpki.exists_expect hserver.point hlabel (by decide : eumSanOid.length ≤ 123)
      (by decide : oidRspRoleDpPb.length ≤ 121)
  refine ⟨pki, certDer, hmake, hissue, ?_, ?_⟩
  · intro ciKeys requested hmem hnames
    obtain ⟨cert, -, hcert, hkey, -, -, hselect, -⟩ := hserverCert
    obtain ⟨chosen, hchosen⟩ := hselect ciKeys requested hmem hnames
    obtain ⟨field, signature, hfield, hsign, hlen, -, hcheck⟩ :=
      exists_checkField hR hserver.signatures hcurve hkey (serverSigned1 v)
    obtain ⟨hchosenMem, hchosenNames, -⟩ := verifyServerCertificate_eq_ok hchosen
    refine ⟨field, signature, chosen, hfield, hsign, hlen, ?_, hchosenMem, hchosenNames⟩
    simp only [euiccAccepts, selectCi, hcert, hchosen, hcheck, Exec.ok_bind]
  · have heuicc : pki.euicc ∈ drawn.keyPairs := by
      rw [← hkeys]
      simp
    have heuiccCurve : pki.euicc.curve = .p256 := by
      simp only [Drawn.keyPairs, List.mem_cons, List.not_mem_nil, or_false] at heuicc
      rcases heuicc with h | h | h | h | h <;> rw [h]
    obtain ⟨cert, -, hcert, hkey, -⟩ :=
      hcerts (pki.euiccCert, pki.euicc) (by simp [certificates])
    obtain ⟨field, signature, hfield, hsign, hlen, -, hcheck⟩ :=
      exists_checkField hR (hdrawn _ heuicc).signatures heuiccCurve hkey (euiccSigned1 w)
    refine ⟨field, signature, hfield, hsign, hlen, ?_⟩
    rw [serverAccepts, hcert, Exec.ok_bind, hcheck]

end Completes

/-- The signatures over the values. -/
def serverSigned1Made : MadeSignature where
  key := madeSample.key
  message := serverSigned1 sampleServerValues
  raw :=
    [0x1a, 0xd9, 0x79, 0x83, 0xf6, 0xea, 0xd5, 0x42, 0x6a, 0x49, 0xbd, 0x33, 0xa5, 0x12, 0xca,
     0xee, 0xb0, 0x19, 0xd0, 0x85, 0xe4, 0xfa, 0xab, 0xf9, 0xc1, 0xf1, 0xa3, 0xc7, 0xc3, 0xb1,
     0x6c, 0x88, 0x89, 0x0a, 0x46, 0x6d, 0x5f, 0x8d, 0x68, 0xd2, 0xa0, 0x7b, 0x61, 0x71, 0xb2,
     0x8f, 0xc6, 0xbc, 0x08, 0x4b, 0xb7, 0x7b, 0x8b, 0x24, 0xe6, 0x9f, 0xb4, 0x2a, 0x12, 0x8d,
     0x53, 0xa7, 0xa6, 0x4d]

def euiccSigned1Made : MadeSignature where
  key := euiccPoint
  message := euiccSigned1 sampleEuiccValues
  raw :=
    [0xea, 0xc8, 0x12, 0xcd, 0xdc, 0x41, 0x86, 0xc8, 0x23, 0x25, 0x08, 0x54, 0xba, 0x7c, 0x44,
     0xd8, 0x9b, 0x42, 0x72, 0xf3, 0x75, 0x12, 0x4e, 0x7b, 0xf8, 0x7a, 0xbe, 0xc4, 0xd1, 0x91,
     0x07, 0x6f, 0xe2, 0x0a, 0xaf, 0xbc, 0x16, 0x0d, 0x78, 0xe4, 0x30, 0x35, 0x20, 0x4d, 0x7e,
     0xb6, 0x87, 0x5a, 0xea, 0xb7, 0x60, 0x34, 0x9d, 0x64, 0xe5, 0xba, 0x64, 0x3f, 0xc8, 0x7c,
     0xf9, 0x35, 0xd4, 0xa3]

/-- What is signed for the chain, the certificate of the server, and in the exchange. -/
def exchangeMade (i : Fin 7) : MadeSignature :=
  [eumMade, euiccMade, ciSelfMade, dpPbMade, serverMade, serverSigned1Made, euiccSigned1Made].get i

theorem exchange_completes_sample :
    let R := RawLib.ofMade exchangeMade
    ∃ pki certDer chosen, tryNewOn chainSha256 .p256 (chainDrawn exchangeMade) = .ok pki ∧
      euiccAccepts R (fun _ => false) (CiKeySet.new.add pki.ciPkId pki.ci.publicKey) pki.ciPkId
        certDer (serverSigned1 sampleServerValues)
        (Wire.encodeSignature ⟨.p256, serverSigned1Made.raw⟩) =
          .ok (chosen, ⟨.p256, serverSigned1Made.raw⟩) ∧
      serverAccepts R (fun _ => false) pki.euiccCert (euiccSigned1 sampleEuiccValues)
        (Wire.encodeSignature ⟨.p256, euiccSigned1Made.raw⟩) =
          .ok ⟨.p256, euiccSigned1Made.raw⟩ := by
  intro R
  have hder : ∀ i j, (exchangeMade i).der = (exchangeMade j).der → i = j := by decide +kernel
  have hlen : ∀ i, (exchangeMade i).der.length ≤ 72 := by decide +kernel
  have hR : R.Documented := RawLib.ofMade_documented (by decide +kernel) hder (by decide +kernel)
    (by decide +kernel)
  let server : KeyPair (EcLib.ofMade exchangeMade) := ⟨.p256, madeSample.key⟩
  have hserver : KeyPairSound server := keyPairSound_ofMade hder hlen (by decide +kernel)
  obtain ⟨pki, certDer, hmake, -, heuicc, field', signature', hfield', hsign', -, hanswer⟩ :=
    @exchange_completes _ R (fun _ => false) chainSha256 hR (chainDrawn exchangeMade)
      (keyPairSound_chainDrawn hder hlen) server hserver rfl "smdp" (by decide)
      sampleServerValues sampleEuiccValues
  obtain ⟨pki', hmake', hkeys, hid, -⟩ := exists_tryNewOn chainSha256 (chainDrawn exchangeMade)
  obtain rfl := Exec.ok.inj (hmake'.symm.trans hmake)
  have hne : pki'.ciPkId ≠ [] := by
    rw [hid, ← List.length_pos_iff, length_keyIdentifier]
    decide
  obtain ⟨field, signature, chosen, hfield, hsign, -, haccept, -⟩ :=
    heuicc (CiKeySet.new.add pki'.ciPkId pki'.ci.publicKey) pki'.ciPkId (by simp [CiKeySet.add])
      ⟨hne, hne, .inl List.prefix_rfl⟩
  -- The signatures are the ones that were made.
  have hserverSign : server.sign R (serverSigned1 sampleServerValues) =
      .ok ⟨.p256, serverSigned1Made.raw⟩ := by decide +kernel
  have heuiccSign : KeyPair.sign R (⟨.p256, euiccPoint⟩ : KeyPair (EcLib.ofMade exchangeMade))
      (euiccSigned1 sampleEuiccValues) = .ok ⟨.p256, euiccSigned1Made.raw⟩ := by decide +kernel
  have heuiccKey : pki'.euicc = ⟨.p256, euiccPoint⟩ := by
    simp only [Drawn.keyPairs, List.cons.injEq] at hkeys
    exact hkeys.2.2.1
  obtain rfl := Exec.ok.inj (hsign.symm.trans hserverSign)
  rw [heuiccKey] at hsign' hfield'
  obtain rfl := Exec.ok.inj (hsign'.symm.trans heuiccSign)
  rw [signField, hsign, Exec.ok_bind, Exec.ok.injEq] at hfield
  rw [signField, hsign', Exec.ok_bind, Exec.ok.injEq] at hfield'
  subst hfield hfield'
  exact ⟨pki', certDer, chosen, hmake, haccept, hanswer⟩

/-! ### What is accepted was sent

A history lists what has happened, earliest first. The attacker makes up what is delivered, out of
what it has seen or of anything else, and forges none of the signatures in it (`Unforged`): about
octets that are never delivered nothing is assumed. What an eUICC accepts is followed back from
there: the certificate to its issuance, by way of its tbsCertificate, and the field to the party
that signed it. -/

/-- A certificate that a CI issues. -/
structure Issuance (E : EcLib) (sha256 : Bytes → Vector UInt8 32) where
  label : String
  subjectKey : PublicKey
  issuerKey : PublicKey
  sanOid : Option Bytes
  roleOid : Option Bytes
  subject_point : PublicKey.fromBytes E subjectKey.curve subjectKey.point = .ok subjectKey
  short : (tbsCertificate sha256 label subjectKey issuerKey sanOid roleOid).length ≤ 0xffff

section Agreement

variable {E : EcLib} {R : RawLib E} {webpki : Bytes → Bool} {sha256 : Bytes → Vector UInt8 32}

/-- What the CI signs for it. -/
def Issuance.tbs (i : Issuance E sha256) : Bytes :=
  tbsCertificate sha256 i.label i.subjectKey i.issuerKey i.sanOid i.roleOid

/-- A certificate with the tbsCertificate that was issued has the key it was issued for. -/
theorem Issuance.publicKey_eq (i : Issuance E sha256) {c : Certificate E} (l : Layout c.der)
    (h : l.tbsTlv = i.tbs) : c.publicKey = i.subjectKey := by
  have hpoint := (PublicKey.fromBytes_eq_ok.mp i.subject_point).1
  have htbs := tbsCertificate_eq sha256 i.label i.subjectKey i.issuerKey i.sanOid i.roleOid hpoint
  have hshort := i.short
  -- The members of tbsCertificate are the ones that were encoded.
  set members := tbsMembers sha256 i.label i.subjectKey i.issuerKey i.sanOid i.roleOid
  rw [htbs] at hshort
  have hlt := length_lt_length_tlv 0x30 (tlvAll members)
  have hall : tlvAll members = encodeAll members := tlvAll_eq_encodeAll (by omega)
  rw [← Issuance.tbs, tlv_eq_encode (by omega), hall] at htbs
  have hlen : (encodeAll members).length < 2 ^ 32 := by
    rw [← hall]
    omega
  obtain ⟨-, hcontent⟩ := l.tbs_isTlv.unique (by rw [h, htbs]; exact isTlv_encode 0x30 hlen)
  have hmembers : l.members = members := l.members_seq.unique (hcontent ▸ tlvSeq_encodeAll hlen)
  -- So its subjectPublicKeyInfo is the subject's, and is read as the subject's key.
  obtain ⟨l', spki, hspki, hkey⟩ := c.exists_layout
  obtain rfl := Subsingleton.elim l' l
  have hspkiEq : spki = spkiContent i.subjectKey.curve.oid i.subjectKey.point := by
    rw [Layout.spki?, hmembers] at hspki
    cases hspki
    rfl
  have hspkiLen : spki.length < 2 ^ 32 := by
    have hmem := List.mem_of_getElem? hspki
    rw [hmembers] at hmem
    exact (length_lt_length_encodeAll hmem).trans hlen
  have hread : publicKeyOfSpki E spki = .ok i.subjectKey := by
    rw [hspkiEq] at hspkiLen ⊢
    exact publicKeyOfSpki_eq_ok.mpr ⟨isSpki_spkiContent hspkiLen, i.subject_point⟩
  exact Exec.ok.inj (hkey.symm.trans hread)

/-- What has happened: somebody with a CI key has issued a certificate, a server has signed
ServerSigned1, an eUICC has signed EuiccSigned1, or the attacker has delivered a request to an eUICC
or an answer to a server. -/
inductive Event (E : EcLib) (sha256 : Bytes → Vector UInt8 32)
  | issued (i : Issuance E sha256)
  | sent (key : PublicKey) (v : ServerValues)
  | answered (key : PublicKey) (w : EuiccValues)
  | request (requested certDer signed1 field : Bytes)
  | answer (certDer signed1 field : Bytes)

/-- The certificate, the signed structure and the signature field that are delivered. -/
def Event.delivery : Event E sha256 → Option (Bytes × Bytes × Bytes)
  | .request _ certDer signed1 field => some (certDer, signed1, field)
  | .answer certDer signed1 field => some (certDer, signed1, field)
  | _ => none

/-- After `past` the history goes on with a delivery of the three. -/
def Delivered (history past : List (Event E sha256)) (certDer signed1 field : Bytes) : Prop :=
  ∃ e later, history = past ++ e :: later ∧ e.delivery = some (certDer, signed1, field)

/-- The signatures that are delivered are not forged. Where the one in a certificate verifies under
a CI key of the eUICC, what it is over has been issued before; where the one in a field verifies under
the key of an honest party, that party has signed the structure before, and it signs no others. -/
structure Unforged (R : RawLib E) (webpki : Bytes → Bool) (ciKeys : CiKeySet)
    (honest : PublicKey → Prop) (history : List (Event E sha256)) : Prop where
  ci : ∀ past certDer signed1 field, Delivered history past certDer signed1 field →
    ∀ tbsWire signature, extractTbsAndSignature certDer = .ok (tbsWire, signature) →
      ∀ k ∈ ciKeys.keys, k.key.verifyDer E tbsWire signature = .ok () →
        ∃ i, .issued i ∈ past ∧ tbsWire = i.tbs
  party : ∀ past certDer signed1 field, Delivered history past certDer signed1 field →
    ∀ c : Certificate E, Certificate.fromDer webpki certDer = .ok c → honest c.publicKey →
      ∀ signature, Wire.parseSignature R field = .ok signature →
        c.publicKey.verify R signed1 signature.bytes = .ok () →
          (∃ v, .sent c.publicKey v ∈ past ∧ signed1 = serverSigned1 v) ∨
            ∃ w, .answered c.publicKey w ∈ past ∧ signed1 = euiccSigned1 w

variable {ciKeys : CiKeySet} {honest : PublicKey → Prop} {history past : List (Event E sha256)}
  {certDer signed1 field : Bytes}

/-- What is delivered and verifies under a CI key, with nothing after it, was issued for its key. -/
theorem Unforged.exists_issuance (h : Unforged R webpki ciKeys honest history) {c : Certificate E}
    (hdelivered : Delivered history past c.der signed1 field)
    (hend : ∃ body, IsTlv 0x30 body c.der) {k : CiKey} (hk : k ∈ ciKeys.keys)
    (hverify : c.verifySignedByKey k.key = .ok ()) :
    ∃ i, .issued i ∈ past ∧ c.publicKey = i.subjectKey := by
  obtain ⟨l, -⟩ := c.exists_layout
  rw [Certificate.verifySignedByKey, Exec.bind_eq_ok] at hverify
  obtain ⟨⟨tbsWire, signature⟩, hextract, hverify⟩ := hverify
  obtain ⟨i, hi, htbs⟩ :=
    h.ci past c.der signed1 field hdelivered tbsWire signature hextract k hk hverify
  obtain ⟨hslice, -⟩ := (extractTbsAndSignature_eq_ok l).mp hextract
  -- Without a tail the signed octets are tbsCertificate.
  rw [l.trailing_eq_nil_iff.mpr hend, List.length_nil, Nat.add_zero, l.slice_tbs] at hslice
  obtain rfl := Exec.ok.inj hslice
  exact ⟨i, hi, i.publicKey_eq l htbs⟩

/-- What is delivered with a field that is accepted under an honest key was signed by its holder. -/
theorem Unforged.signed (h : Unforged R webpki ciKeys honest history) {c : Certificate E}
    (hdelivered : Delivered history past certDer signed1 field)
    (hc : Certificate.fromDer webpki certDer = .ok c) (hhonest : honest c.publicKey)
    {signature : Signature} (hcheck : checkField R c signed1 field = .ok signature) :
    (∃ v, .sent c.publicKey v ∈ past ∧ signed1 = serverSigned1 v) ∨
      ∃ w, .answered c.publicKey w ∈ past ∧ signed1 = euiccSigned1 w := by
  simp only [checkField, Exec.bind_eq_ok] at hcheck
  obtain ⟨recovered, hparse, ⟨⟩, hverify, -⟩ := hcheck
  exact h.party past certDer signed1 field hdelivered c hc hhonest recovered hparse hverify

/-- **What is accepted was sent.** Let the attacker deliver what it likes, without forging any of the
signatures in it. If an eUICC accepts a ServerSigned1 with a certificate after which nothing comes,
the CI has issued a certificate for the same key before, and its holder, if honest, has sent the same
values before; and if a server accepts an EuiccSigned1, the holder of the certificate, if honest, has
answered with the same values before. Signatures of one kind do not pass for the other. -/
theorem accepted_was_sent (h : Unforged R webpki ciKeys honest history) :
    (∀ past later requested certDer v field chosen signature,
      history = past ++ .request requested certDer (serverSigned1 v) field :: later →
      v.body.length ≤ 255 → (∃ body, IsTlv 0x30 body certDer) →
      euiccAccepts R webpki ciKeys requested certDer (serverSigned1 v) field =
        .ok (chosen, signature) →
      ∃ c : Certificate E, Certificate.fromDer webpki certDer = .ok c ∧
        (∃ i, .issued i ∈ past ∧ c.publicKey = i.subjectKey) ∧
        (honest c.publicKey → .sent c.publicKey v ∈ past)) ∧
    ∀ past later certDer w field signature,
      history = past ++ .answer certDer (euiccSigned1 w) field :: later →
      w.body.length ≤ 255 →
      serverAccepts R webpki certDer (euiccSigned1 w) field = .ok signature →
      ∃ c : Certificate E, Certificate.fromDer webpki certDer = .ok c ∧
        (honest c.publicKey → .answered c.publicKey w ∈ past) := by
  constructor
  · intro past later requested certDer v field chosen signature hhistory hv hend haccept
    have hdelivered : Delivered history past certDer (serverSigned1 v) field :=
      ⟨_, later, hhistory, rfl⟩
    simp only [euiccAccepts, selectCi, Exec.bind_eq_ok] at haccept
    obtain ⟨c, hc, k, hselect, s, hcheck, hresult⟩ := haccept
    refine ⟨c, hc, ?_, ?_⟩
    · obtain ⟨rfl, -⟩ := Certificate.fromDer_eq_ok.mp hc
      cases hchosen : ciKeys.verifyServerCertificate requested c with
      | error e =>
          rw [hchosen] at hselect
          cases hselect
      | ok k' =>
          obtain ⟨hk, -, hverify⟩ := verifyServerCertificate_eq_ok hchosen
          exact h.exists_issuance hdelivered hend hk hverify
    · intro hhonest
      rcases h.signed hdelivered hc hhonest hcheck with ⟨v', hv', heq⟩ | ⟨w, -, heq⟩
      · rw [ServerValues.body_inj hv (tlv_inj hv heq)]
        exact hv'
      · exact absurd (tlv_inj hv heq) (body_ne_body hv)
  · intro past later certDer w field signature hhistory hw haccept
    have hdelivered : Delivered history past certDer (euiccSigned1 w) field :=
      ⟨_, later, hhistory, rfl⟩
    simp only [serverAccepts, Exec.bind_eq_ok] at haccept
    obtain ⟨c, hc, hcheck⟩ := haccept
    refine ⟨c, hc, ?_⟩
    intro hhonest
    rcases h.signed hdelivered hc hhonest hcheck with ⟨v, -, heq⟩ | ⟨w', hw', heq⟩
    · have hbody := tlv_inj hw heq
      exact absurd hbody.symm (body_ne_body (hbody ▸ hw))
    · rw [EuiccValues.body_inj hw (tlv_inj hw heq)]
      exact hw'

end Agreement

/-- The certificate of the server. -/
def serverIssuance : Issuance (EcLib.ofMade exchangeMade) chainSha256 where
  label := "smdp"
  subjectKey := ⟨.p256, madeSample.key⟩
  issuerKey := ⟨.p256, ciPoint⟩
  sanOid := some eumSanOid
  roleOid := some oidRspRoleDpPb
  subject_point := by decide +kernel
  short := by decide +kernel

def serverDer : Bytes :=
  TestPki.tlv 0x30 ([serverMade.message, sigAlg, TestPki.tlv 0x03 (0x00 :: serverMade.der)].flatten)

/-- The CI issues the certificate, the server signs its values, and they are delivered as they
are. -/
def serverHistory : List (Event (EcLib.ofMade exchangeMade) chainSha256) :=
  [.issued serverIssuance, .sent ⟨.p256, madeSample.key⟩ sampleServerValues,
    .request (keyIdentifier chainSha256 ⟨.p256, ciPoint⟩) serverDer
      (serverSigned1 sampleServerValues) (Wire.encodeSignature ⟨.p256, serverSigned1Made.raw⟩)]

/-- Only the last event of this history is a delivery. -/
theorem delivered_serverHistory
    {past : List (Event (EcLib.ofMade exchangeMade) chainSha256)} {certDer signed1 field : Bytes}
    (h : Delivered serverHistory past certDer signed1 field) :
    past = serverHistory.take 2 ∧ certDer = serverDer ∧
      signed1 = serverSigned1 sampleServerValues := by
  obtain ⟨e, later, heq, hdelivery⟩ := h
  match past, heq with
  | [], heq =>
      cases heq
      cases hdelivery
  | [_], heq =>
      cases heq
      cases hdelivery
  | [_, _], heq =>
      cases heq
      cases hdelivery
      exact ⟨rfl, rfl, rfl⟩
  | _ :: _ :: _ :: past, heq =>
      have hlen := congrArg List.length heq
      simp [serverHistory] at hlen

/-- The keys of the CI and the server sign as they should, and nothing that is delivered is forged:
what the eUICC accepts has been issued and sent. -/
theorem accepted_was_sent_sample :
    let R := RawLib.ofMade exchangeMade
    let ciKeys := CiKeySet.new.add (keyIdentifier chainSha256 ⟨.p256, ciPoint⟩) ⟨.p256, ciPoint⟩
    R.Documented ∧ KeyPairSound (⟨.p256, ciPoint⟩ : KeyPair (EcLib.ofMade exchangeMade)) ∧
      KeyPairSound (⟨.p256, madeSample.key⟩ : KeyPair (EcLib.ofMade exchangeMade)) ∧
      Unforged R (fun _ => false) ciKeys (fun _ => True) serverHistory ∧
      ∃ c : Certificate (EcLib.ofMade exchangeMade),
        Certificate.fromDer (fun _ => false) serverDer = .ok c ∧
          (∃ i, .issued i ∈ serverHistory.take 2 ∧ c.publicKey = i.subjectKey) ∧
          .sent c.publicKey sampleServerValues ∈ serverHistory.take 2 := by
  intro R ciKeys
  have hder : ∀ i j, (exchangeMade i).der = (exchangeMade j).der → i = j := by decide +kernel
  have hlen : ∀ i, (exchangeMade i).der.length ≤ 72 := by decide +kernel
  have hR : R.Documented := RawLib.ofMade_documented (by decide +kernel) hder (by decide +kernel)
    (by decide +kernel)
  have hextract : extractTbsAndSignature serverDer = .ok (serverIssuance.tbs, serverMade.der) := by
    decide +kernel
  have hread : ∃ c : Certificate (EcLib.ofMade exchangeMade),
      Certificate.fromDer (fun _ => false) serverDer = .ok c ∧
        c.publicKey = ⟨.p256, madeSample.key⟩ :=
    ⟨⟨serverDer, ⟨.p256, madeSample.key⟩, false, by decide +kernel⟩,
      Certificate.fromDer_eq_ok.mpr ⟨rfl, rfl⟩, rfl⟩
  have hforged : Unforged R (fun _ => false) ciKeys (fun _ => True) serverHistory := by
    constructor
    · intro past certDer signed1 field hdelivered tbsWire signature hwire k hk hverify
      obtain ⟨rfl, rfl, -⟩ := delivered_serverHistory hdelivered
      cases hextract.symm.trans hwire
      exact ⟨serverIssuance, by simp [serverHistory], rfl⟩
    · intro past certDer signed1 field hdelivered c hc hhonest signature hparse hverify
      obtain ⟨rfl, rfl, rfl⟩ := delivered_serverHistory hdelivered
      obtain ⟨c', hc', hkey⟩ := hread
      obtain rfl := Exec.ok.inj (hc'.symm.trans hc)
      exact .inl ⟨sampleServerValues, by rw [hkey]; simp [serverHistory], rfl⟩
  have haccept : euiccAccepts R (fun _ => false) ciKeys
      (keyIdentifier chainSha256 ⟨.p256, ciPoint⟩) serverDer (serverSigned1 sampleServerValues)
      (Wire.encodeSignature ⟨.p256, serverSigned1Made.raw⟩) =
        .ok (⟨keyIdentifier chainSha256 ⟨.p256, ciPoint⟩, ⟨.p256, ciPoint⟩⟩,
          ⟨.p256, serverSigned1Made.raw⟩) := by decide +kernel
  have hend : ∃ body, IsTlv 0x30 body serverDer := by
    rw [serverDer, tlv_eq_encode (by decide +kernel)]
    exact ⟨_, isTlv_encode 0x30 (by decide +kernel)⟩
  obtain ⟨c, hc, hissued, hsent⟩ :=
    (accepted_was_sent hforged).1 (serverHistory.take 2) [] _ _ _ _ _ _ rfl (by decide +kernel)
      hend haccept
  exact ⟨hR, keyPairSound_ofMade hder hlen (by decide +kernel),
    keyPairSound_ofMade hder hlen (by decide +kernel), hforged, c, hc, hissued, hsent trivial⟩

end AuthenticateServer
end EuiccCrypto
