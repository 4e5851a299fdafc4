import EuiccCrypto.X509

/-!
# What the walk sees of a certificate

`Layout der` is the structure the functions of `x509.rs` find in a certificate: where the outer
SEQUENCE ends, where tbsCertificate lies in it, and which elements that has. A string has at
most one layout. `extractSpkiPublicKey_eq_ok` says that `extract_spki_public_key` returns a key
exactly when there is a layout whose element at the position of subjectPublicKeyInfo holds it.
-/

namespace EuiccCrypto
namespace X509

open Octets Tlv

/-! ### Layouts

The functions of `x509.rs` cut the certificate up one read at a time. A `Layout` has all the
pieces they can find together with the equations between them, and since an element is read in one
way, two layouts of one string are equal. The rest of the development speaks of layouts and not of
reads. -/

/-- The frame of a certificate: `der` is the SEQUENCE `outer` and what trails it, the content
`body` of `outer` is the SEQUENCE `tbsTlv` and what comes after it, and the content `tbs` of
`tbsTlv` is the elements `members`. -/
structure Layout (der : Bytes) where
  outer : Bytes
  body : Bytes
  trailing : Bytes
  tbsTlv : Bytes
  tbs : Bytes
  after : Bytes
  members : List (UInt8 × Bytes)
  der_eq : der = outer ++ trailing
  outer_isTlv : IsTlv 0x30 body outer
  body_eq : body = tbsTlv ++ after
  tbs_isTlv : IsTlv 0x30 tbs tbsTlv
  members_seq : TlvSeq members tbs

namespace Layout

variable {der : Bytes}

/-- A certificate is read in one way. -/
instance : Subsingleton (Layout der) := by
  constructor
  rintro ⟨o, b, t, tt, tb, a, m, hd, ho, hb, ht, hm⟩ ⟨o', b', t', tt', tb', a', m', hd', ho', hb',
    ht', hm'⟩
  -- From the outside in: each level determines the next.
  obtain ⟨-, rfl, rfl, rfl⟩ := ho.append_inj ho' (hd.symm.trans hd')
  obtain ⟨-, rfl, rfl, rfl⟩ := ht.append_inj ht' (hb.symm.trans hb')
  obtain rfl := hm.unique hm'
  rfl

variable (l : Layout der)

/-- The offset of tbsCertificate: the length of the outer header. -/
def tbsStart : Nat := l.outer.length - l.body.length

/-- The content of the element at the position of subjectPublicKeyInfo. -/
def spki? : Option (UInt8 × Bytes) := l.members[spkiIndex (l.members.map Prod.fst)]?

/-- The octets in front of tbsCertificate. -/
theorem exists_header : ∃ hdr, IsHeader 0x30 l.body.length hdr ∧
    der = hdr ++ l.tbsTlv ++ l.after ++ l.trailing ∧ hdr.length = l.tbsStart := by
  obtain ⟨hdr, hh, hout⟩ := l.outer_isTlv
  refine ⟨hdr, hh, l.der_eq.trans ?_, ?_⟩
  · rw [hout, l.body_eq]
    simp
  · rw [tbsStart, hout, List.length_append, Nat.add_sub_cancel]

theorem length_body_le : l.body.length ≤ l.outer.length :=
  l.outer_isTlv.length_lt.le

/-- tbsCertificate lies where `tbsStart` says. -/
theorem slice_tbs : slice der l.tbsStart (l.tbsStart + l.tbsTlv.length) = .ok l.tbsTlv := by
  obtain ⟨hdr, -, hder, hlen⟩ := l.exists_header
  have := slice_append hdr l.tbsTlv (l.after ++ l.trailing)
  rwa [hlen, ← List.append_assoc, ← hder] at this

/-- The certificate is one SEQUENCE and nothing more when nothing trails it. -/
theorem trailing_eq_nil_iff : l.trailing = [] ↔ ∃ body, IsTlv 0x30 body der := by
  constructor
  · intro h
    have hder : l.outer = der := by
      have := l.der_eq
      rw [h, List.append_nil] at this
      exact this.symm
    exact ⟨l.body, Eq.subst (motive := fun b => IsTlv 0x30 l.body b) hder l.outer_isTlv⟩
  · rintro ⟨body, hbody⟩
    have heq : l.outer ++ l.trailing = der ++ [] := by rw [List.append_nil, ← l.der_eq]
    exact (l.outer_isTlv.append_inj hbody heq).2.2.2

end Layout

/-- The certificate with the given tbsCertificate elements and the given octets after
tbsCertificate, in DER. -/
def certificateDer (members : List (UInt8 × Bytes)) (after : Bytes) : Bytes :=
  encode 0x30 (encode 0x30 (encodeAll members) ++ after)

/-- The layout of a certificate encoded in DER, whatever trails it. -/
def Layout.ofMembers {der : Bytes} (members : List (UInt8 × Bytes)) (after trailing : Bytes)
    (h : (encode 0x30 (encodeAll members) ++ after).length < 2 ^ 32)
    (hder : der = certificateDer members after ++ trailing) : Layout der :=
  have htbs : (encodeAll members).length < 2 ^ 32 := by
    have := length_lt_length_encode 0x30 (encodeAll members)
    rw [List.length_append] at h
    omega
  { outer := certificateDer members after
    body := encode 0x30 (encodeAll members) ++ after
    trailing
    tbsTlv := encode 0x30 (encodeAll members)
    tbs := encodeAll members
    after
    members
    der_eq := hder
    outer_isTlv := isTlv_encode 0x30 h
    body_eq := rfl
    tbs_isTlv := isTlv_encode 0x30 htbs
    members_seq := tlvSeq_encodeAll htbs }

/-! ### subjectPublicKeyInfo

`IsAlgorithm` and `IsSpki` are what the two inner functions accept, on octets. They allow anything
behind the last element that is read, since the source does not look whether a read has come to
the end. -/

/-- `alg` is the content of an EC `AlgorithmIdentifier` that names the curve `oid`. -/
def IsAlgorithm (alg oid : Bytes) : Prop :=
  ∃ eId eCurve rest, alg = eId ++ (eCurve ++ rest) ∧ IsTlv 0x06 idEcPublicKey eId ∧
    IsTlv 0x06 oid eCurve

/-- `spki` is the content of a `SubjectPublicKeyInfo` with the point `point` on the curve named
by `oid`. -/
def IsSpki (spki oid point : Bytes) : Prop :=
  ∃ alg eAlg eBits rest, spki = eAlg ++ (eBits ++ rest) ∧ IsTlv 0x30 alg eAlg ∧
    IsAlgorithm alg oid ∧ IsTlv 0x03 (0x00 :: point) eBits

/-- The content of `SubjectPublicKeyInfo` for an EC key, in DER. -/
def spkiContent (oid point : Bytes) : Bytes :=
  encode 0x30 (encode 0x06 idEcPublicKey ++ encode 0x06 oid) ++ encode 0x03 (0x00 :: point)

theorem isSpki_spkiContent {oid point : Bytes} (h : (spkiContent oid point).length < 2 ^ 32) :
    IsSpki (spkiContent oid point) oid point := by
  rw [spkiContent, List.length_append] at h
  have halg := length_lt_length_encode 0x30 (encode 0x06 idEcPublicKey ++ encode 0x06 oid)
  have hbits := length_lt_length_encode 0x03 (0x00 :: point)
  have hoid := length_lt_length_encode 0x06 oid
  rw [List.length_append] at halg
  refine ⟨encode 0x06 idEcPublicKey ++ encode 0x06 oid, _, _, [], by rw [List.append_nil]; rfl,
    isTlv_encode 0x30 (by rw [List.length_append]; omega), ⟨_, _, [], by rw [List.append_nil], ?_, ?_⟩,
    isTlv_encode 0x03 (by omega)⟩
  · exact isTlv_encode 0x06 (by decide)
  · exact isTlv_encode 0x06 (by omega)

theorem curveFromAlgorithmIdentifier_eq_ok {alg : Bytes} {c : CurveKind} :
    curveFromAlgorithmIdentifier alg = .ok c ↔ IsAlgorithm alg c.oid := by
  constructor
  · intro h
    simp only [curveFromAlgorithmIdentifier, curveFromAlgorithmIdentifierWith, Exec.bind_eq_ok,
      Exec.mapErr_eq_ok, Prod.exists, readTlv_eq_ok, Exec.ite_err_eq_ok, not_not,
      sliceFrom_eq_ok] at h
    obtain ⟨_, _, ⟨eId, _, rfl, hId, rfl⟩, rfl, _, ⟨-, rfl⟩, oid, _, ⟨eCurve, rest, hr, hCurve, rfl⟩,
      h⟩ := h
    rw [List.drop_left] at hr
    subst hr
    -- The comparisons that are left find the curve with this OID.
    suffices hoid : oid = c.oid from ⟨eId, eCurve, rest, rfl, hId, hoid ▸ hCurve⟩
    split at h
    · next hp => cases h; exact hp
    · split at h
      · next hb => cases h; exact hb
      · cases h
  · rintro ⟨eId, eCurve, rest, rfl, hId, hCurve⟩
    rw [curveFromAlgorithmIdentifier, curveFromAlgorithmIdentifierWith, readTlv_append hId,
      Exec.mapErr_ok, Exec.ok_bind]
    dsimp only
    rw [if_neg (by simp), sliceFrom_append, Exec.ok_bind, readTlv_append hCurve, Exec.mapErr_ok,
      Exec.ok_bind]
    cases c <;> rfl

theorem curveFromAlgorithmIdentifier_ne_panic (alg : Bytes) :
    curveFromAlgorithmIdentifier alg ≠ .panic := by
  intro h
  simp only [curveFromAlgorithmIdentifier, curveFromAlgorithmIdentifierWith, Exec.bind_eq_panic,
    Exec.mapErr_eq_panic, readTlv_ne_panic, Exec.mapErr_eq_ok, Prod.exists, readTlv_eq_ok, Exec.ite_err_eq_panic,
    sliceFrom_eq_panic, false_or] at h
  obtain ⟨_, _, ⟨eId, r, rfl, -, rfl⟩, -, h | ⟨_, -, _, _, -, h⟩⟩ := h
  · simp only [List.length_append] at h
    omega
  · split at h
    · cases h
    · split at h <;> cases h

variable {E : EcLib}

theorem publicKeyOfSpki_eq_ok {spki : Bytes} {pk : PublicKey} :
    publicKeyOfSpki E spki = .ok pk ↔
      IsSpki spki pk.curve.oid pk.point ∧ PublicKey.fromBytes E pk.curve pk.point = .ok pk := by
  constructor
  · intro h
    simp only [publicKeyOfSpki, publicKeyOfSpkiWith, Exec.bind_eq_ok, Exec.mapErr_eq_ok,
      Prod.exists, readTlv_eq_ok, curveFromAlgorithmIdentifier_eq_ok, sliceFrom_eq_ok, Exec.ite_err_eq_ok, not_not,
      index_eq_ok] at h
    obtain ⟨alg, _, ⟨eAlg, _, rfl, hAlg, rfl⟩, c, hc, _, ⟨-, rfl⟩, bits, _,
      ⟨eBits, rest, hr, hBits, rfl⟩, hlen, _, hunused, rfl, _, ⟨-, rfl⟩, hpk⟩ := h
    rw [List.drop_left] at hr
    subst hr
    cases bits with
    | nil => simp at hunused
    | cons b point =>
        obtain rfl : b = 0x00 := by simpa using hunused
        have hpoint := (PublicKey.fromBytes_eq_ok.mp hpk).2.2.2
        rw [List.drop_succ_cons, List.drop_zero] at hpk hpoint
        subst hpoint
        exact ⟨⟨alg, eAlg, eBits, rest, rfl, hAlg, hc, hBits⟩, hpk⟩
  · rintro ⟨⟨alg, eAlg, eBits, rest, rfl, hAlg, hc, hBits⟩, hpk⟩
    have hlen := (PublicKey.fromBytes_eq_ok.mp hpk).1
    rw [publicKeyOfSpki, publicKeyOfSpkiWith, readTlv_append hAlg, Exec.mapErr_ok, Exec.ok_bind]
    dsimp only
    rw [curveFromAlgorithmIdentifier_eq_ok.mpr hc, Exec.ok_bind, sliceFrom_append, Exec.ok_bind,
      readTlv_append hBits, Exec.mapErr_ok, Exec.ok_bind]
    dsimp only
    rw [if_neg (by simp [hlen])]
    exact hpk

theorem publicKeyOfSpki_ne_panic (spki : Bytes) : publicKeyOfSpki E spki ≠ .panic := by
  intro h
  simp only [publicKeyOfSpki, publicKeyOfSpkiWith, Exec.bind_eq_panic, Exec.mapErr_eq_panic,
    readTlv_ne_panic, Exec.mapErr_eq_ok, Prod.exists, readTlv_eq_ok, curveFromAlgorithmIdentifier_ne_panic,
    sliceFrom_eq_panic, Exec.ite_err_eq_panic, index_eq_panic, PublicKey.fromBytes_ne_panic,
    false_or, not_not, and_false, exists_false, or_false] at h
  obtain ⟨_, _, ⟨eAlg, _, rfl, -, rfl⟩, _, -, h | ⟨_, -, bits, _, -, hlen, h⟩⟩ := h
  · simp only [List.length_append] at h
    omega
  · rcases h with h | ⟨_, -, -, h⟩ <;> omega

/-! ### The walk over tbsCertificate

A turn of the loop takes one element off what is left (`walkFields_append`), so by induction on
the turns the loop returns the tags and contents of all elements, or fails (`walkFields_eq_ok`).
As many turns as there are octets are enough, because an element has at least two. -/

theorem walkFields_nil (turns : Nat) (tags : List UInt8) (fields : List Bytes) :
    walkFields turns [] tags fields = .ok (tags, fields) := by
  cases turns <;> rfl

/-- One turn of the loop takes one element off. -/
theorem walkFields_append {turns : Nat} {tag : UInt8} {val e : Bytes} (he : IsTlv tag val e)
    (rest : Bytes) (tags : List UInt8) (fields : List Bytes) :
    walkFields (turns + 1) (e ++ rest) tags fields =
      walkFields turns rest (tags ++ [tag]) (fields ++ [val]) := by
  have hpos := he.two_le_length
  have hne : ¬ (e ++ rest).isEmpty := by
    rw [List.isEmpty_iff, List.append_eq_nil_iff]
    exact fun h => he.ne_nil h.1
  rw [walkFields, walkFieldsWith, if_neg hne, readTlvAny_append he, Exec.mapErr_ok, Exec.ok_bind]
  dsimp only
  rw [if_neg (by omega), if_neg (by simp), List.drop_left]

/-- The loop over tbsCertificate splits it into its elements. -/
theorem walkFields_eq_ok {turns : Nat} {rest : Bytes} {tags tags' : List UInt8}
    {fields fields' : List Bytes} (h : rest.length ≤ turns) :
    walkFields turns rest tags fields = .ok (tags', fields') ↔
      ∃ fs, TlvSeq fs rest ∧ tags' = tags ++ fs.map Prod.fst ∧
        fields' = fields ++ fs.map Prod.snd := by
  constructor
  · induction turns generalizing rest tags fields with
    | zero =>
        obtain rfl : rest = [] := List.eq_nil_of_length_eq_zero (Nat.le_zero.mp h)
        intro heq
        cases heq
        exact ⟨[], .nil, by simp, by simp⟩
    | succ turns ih =>
        -- A turn takes off at least two octets, so that the turns left are still enough.
        rw [walkFields, walkFieldsWith]
        split
        · next hempty =>
            obtain rfl := List.isEmpty_iff.mp hempty
            intro heq
            cases heq
            exact ⟨[], .nil, by simp, by simp⟩
        · simp only [Exec.bind_eq_ok, Exec.mapErr_eq_ok, Prod.exists, readTlvAny_eq_ok,
            Exec.ite_err_eq_ok]
          rintro ⟨tag, val, _, ⟨e, r, rfl, he, rfl⟩, -, -, hrec⟩
          have hpos := he.two_le_length
          rw [List.drop_left] at hrec
          rw [List.length_append] at h
          obtain ⟨fs, hs, rfl, rfl⟩ := ih (by omega) hrec
          exact ⟨(tag, val) :: fs, .cons he hs, by simp, by simp⟩
  · rintro ⟨fs, hs, rfl, rfl⟩
    induction hs generalizing turns tags fields with
    | nil => simp [walkFields_nil]
    | @cons tag val e r fs he _ ih =>
        have hpos := he.two_le_length
        rw [List.length_append] at h
        obtain ⟨turns, rfl⟩ : ∃ k, turns = k + 1 := ⟨turns - 1, by omega⟩
        rw [walkFields_append he, ih (by omega)]
        simp

theorem walkFields_ne_panic {turns : Nat} {rest : Bytes} {tags : List UInt8}
    {fields : List Bytes} (h : rest.length ≤ turns) :
    walkFields turns rest tags fields ≠ .panic := by
  induction turns generalizing rest tags fields with
  | zero =>
      obtain rfl : rest = [] := List.eq_nil_of_length_eq_zero (Nat.le_zero.mp h)
      simp [walkFields, walkFieldsWith]
  | succ turns ih =>
      rw [walkFields, walkFieldsWith]
      split
      · simp
      · intro hpanic
        simp only [Exec.bind_eq_panic, Exec.mapErr_eq_panic, readTlvAny_ne_panic,
          Exec.mapErr_eq_ok, Prod.exists, readTlvAny_eq_ok, Exec.ite_err_eq_panic,
          false_or] at hpanic
        obtain ⟨_, _, _, ⟨e, r, rfl, he, rfl⟩, -, -, hrec⟩ := hpanic
        have hpos := he.two_le_length
        rw [List.drop_left] at hrec
        rw [List.length_append] at h
        exact ih (by omega) hrec

/-! ### What `from_der` accepts

`from_der` records what webpki says of the certificate and does not act on it. So it accepts what
the extraction of the key accepts, and every `Certificate` has a layout
(`Certificate.exists_layout`). -/

/-- `extract_spki_public_key` returns the key of the element at the position of
subjectPublicKeyInfo. -/
theorem extractSpkiPublicKey_eq_ok {der : Bytes} {pk : PublicKey} :
    extractSpkiPublicKey E der = .ok pk ↔
      ∃ (l : Layout der) (spki : Bytes), l.spki? = some (0x30, spki) ∧
        publicKeyOfSpki E spki = .ok pk := by
  constructor
  · intro h
    simp only [extractSpkiPublicKey, extractSpkiPublicKeyWith, Exec.bind_eq_ok, Exec.ok_bind,
      Exec.mapErr_eq_ok, Prod.exists, readTlv_eq_ok, Exec.ite_err_eq_ok,
      walkFields_eq_ok Nat.le.refl, index_eq_ok] at h
    obtain ⟨body, _, ⟨outer, trailing, hder, houter, -⟩, tbs, _, ⟨tbsTlv, after, hbody, htbs, -⟩, _,
      _, ⟨fs, hs, rfl, rfl⟩, hspa, spki, hspki, hpk⟩ := h
    refine ⟨⟨outer, body, trailing, tbsTlv, tbs, after, fs, hder, houter, hbody, htbs, hs⟩, spki, ?_,
      hpk⟩
    simp only [List.nil_append] at hspa hspki
    have htag : (fs.map Prod.fst)[spkiIndex (fs.map Prod.fst)]? = some 0x30 := by
      simp only [spaMissing, Bool.or_eq_true, not_or, decide_eq_true_eq, bne_iff_ne, ne_eq,
        not_not] at hspa
      exact hspa.2
    rw [List.getElem?_map, Option.map_eq_some_iff] at htag hspki
    -- Tag and content are read from two lists, at the same place.
    obtain ⟨f, hf, hf1⟩ := htag
    obtain ⟨f', hf', hf2⟩ := hspki
    obtain rfl : f = f' := Option.some.inj (hf.symm.trans hf')
    rw [Layout.spki?, hf, ← hf1, ← hf2]
  · rintro ⟨l, spki, hspki, hpk⟩
    simp only [extractSpkiPublicKey, extractSpkiPublicKeyWith, Exec.bind_eq_ok, Exec.ok_bind,
      Exec.mapErr_eq_ok, Prod.exists, readTlv_eq_ok, Exec.ite_err_eq_ok,
      walkFields_eq_ok Nat.le.refl, index_eq_ok]
    have hat : l.members[spkiIndex (l.members.map Prod.fst)]? = some (0x30, spki) := hspki
    refine ⟨l.body, _, ⟨l.outer, l.trailing, l.der_eq, l.outer_isTlv, rfl⟩, l.tbs, _,
      ⟨l.tbsTlv, l.after, l.body_eq, l.tbs_isTlv, rfl⟩, _, _, ⟨l.members, l.members_seq, rfl, rfl⟩,
      ?_, spki, ?_, hpk⟩
    · have htag : (l.members.map Prod.fst)[spkiIndex (l.members.map Prod.fst)]? = some 0x30 := by
        rw [List.getElem?_map, hat]
        rfl
      have hlt := (List.getElem?_eq_some_iff.mp htag).1
      rw [List.nil_append, spaMissing, htag]
      simpa using hlt
    · simp [hat]

theorem extractSpkiPublicKey_ne_panic (der : Bytes) : extractSpkiPublicKey E der ≠ .panic := by
  intro h
  simp only [extractSpkiPublicKey, extractSpkiPublicKeyWith, Exec.bind_eq_panic, Exec.ok_bind,
    Exec.mapErr_eq_panic, readTlv_ne_panic, Exec.mapErr_eq_ok, Prod.exists, walkFields_ne_panic Nat.le.refl, Exec.ite_err_eq_panic,
    publicKeyOfSpki_ne_panic, index_eq_panic, false_or, and_false, exists_false, or_false,
    walkFields_eq_ok Nat.le.refl] at h
  obtain ⟨_, _, -, _, _, -, _, _, ⟨fs, -, rfl, rfl⟩, hspa, hidx⟩ := h
  simp only [spaMissing, Bool.or_eq_true, not_or, decide_eq_true_eq, List.nil_append,
    List.length_map] at hspa hidx
  omega

/-- The key is extracted from the DER of every certificate that has it in its
subjectPublicKeyInfo. -/
theorem extractSpkiPublicKey_certificateDer {members : List (UInt8 × Bytes)} {after : Bytes}
    {pk : PublicKey} (h : (encode 0x30 (encodeAll members) ++ after).length < 2 ^ 32)
    (hspki : members[spkiIndex (members.map Prod.fst)]? =
      some (0x30, spkiContent pk.curve.oid pk.point))
    (hpk : PublicKey.fromBytes E pk.curve pk.point = .ok pk) :
    extractSpkiPublicKey E (certificateDer members after) = .ok pk := by
  have hspkiLen : (spkiContent pk.curve.oid pk.point).length < (encodeAll members).length :=
    length_lt_length_encodeAll (List.mem_of_getElem? hspki)
  have htbsLen := length_lt_length_encode 0x30 (encodeAll members)
  have hlt : (spkiContent pk.curve.oid pk.point).length < 2 ^ 32 := by
    rw [List.length_append] at h
    omega
  exact extractSpkiPublicKey_eq_ok.mpr ⟨.ofMembers members after [] h (List.append_nil _).symm, _,
    hspki, publicKeyOfSpki_eq_ok.mpr ⟨isSpki_spkiContent hlt, hpk⟩⟩

/-- `from_der` accepts what has an extractable key, and keeps the string it was given. -/
theorem Certificate.fromDer_eq_ok {webpki : Bytes → Bool} {der : Bytes} {c : Certificate E} :
    fromDer webpki der = .ok c ↔ c.der = der ∧ c.webpkiParsed = webpki der := by
  have hne : ∀ {pk : PublicKey}, extractSpkiPublicKey E der = .ok pk → ¬ der.isEmpty := by
    intro pk h hempty
    rw [List.isEmpty_iff] at hempty
    obtain ⟨l, -⟩ := extractSpkiPublicKey_eq_ok.mp h
    exact l.outer_isTlv.ne_nil (List.append_eq_nil_iff.mp (l.der_eq.symm.trans hempty)).1
  constructor
  · intro h
    unfold fromDer at h
    split at h
    · cases h
    · split at h
      · cases h
        exact ⟨rfl, rfl⟩
      · cases h
      · cases h
  · rintro ⟨rfl, hw⟩
    unfold fromDer
    rw [if_neg (hne c.extracted)]
    split
    · next pk hpk =>
        have heq : (Exec.ok c.publicKey : Exec PublicKey) = .ok pk := c.extracted.symm.trans hpk
        cases c
        cases heq
        simp only at hw
        subst hw
        rfl
    · next e he => exact absurd (c.extracted.symm.trans he) (by simp)
    · next hp => exact absurd (c.extracted.symm.trans hp) (by simp)

/-- `from_der` fails where the extraction does. -/
theorem Certificate.fromDer_of_err {webpki : Bytes → Bool} {der : Bytes} {e : Error}
    (h : extractSpkiPublicKey E der = .err e) :
    ∃ e', (fromDer webpki der : Exec (Certificate E)) = .err e' := by
  unfold fromDer
  split
  · exact ⟨_, rfl⟩
  · split
    · next pk hpk => exact absurd (h.symm.trans hpk) (by simp)
    · exact ⟨_, rfl⟩
    · next hp => exact absurd (h.symm.trans hp) (by simp)

theorem Certificate.fromDer_ne_panic {webpki : Bytes → Bool} {der : Bytes} :
    (fromDer webpki der : Exec (Certificate E)) ≠ .panic := by
  unfold fromDer
  split
  · simp
  · split
    · simp
    · simp
    · next hp => exact absurd hp (extractSpkiPublicKey_ne_panic der)

/-- Every certificate has a layout, and its key is the one of the element at the position of
subjectPublicKeyInfo. -/
theorem Certificate.exists_layout (c : Certificate E) :
    ∃ (l : Layout c.der) (spki : Bytes), l.spki? = some (0x30, spki) ∧
      publicKeyOfSpki E spki = .ok c.publicKey :=
  extractSpkiPublicKey_eq_ok.mp c.extracted

end X509
end EuiccCrypto
