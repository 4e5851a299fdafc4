import EuiccCrypto.X509.Layout

/-!
# The second curve reader

`certificate_named_curve_oid` finds subjectPublicKeyInfo by shape, where the extraction of the
key finds it by position. `certificateNamedCurveOid_eq` says which element of tbsCertificate it
reads, and `namedCurve_agrees_iff` when the two agree.
-/

namespace EuiccCrypto
namespace X509

open Octets Tlv

/-- What the body of the loop of `certificate_named_curve_oid` reads in an `AlgorithmIdentifier` with
content `inner`; `none` is its `continue`. -/
def namedCurveOfAlgorithm (inner : Bytes) : Option Bytes := do
  let (algTag, algOid, algUsed) ← (readTlvAny inner).ok?
  if algTag ≠ 0x06 then none
  else if algOid ≠ idEcPublicKey then none
  else do
    let (curveTag, curveOid, _) ← (readTlvAny (inner.drop algUsed)).ok?
    if curveTag ≠ 0x06 then none else some curveOid

/-- The body of the loop of `certificate_named_curve_oid`, for a SEQUENCE with content `value`. -/
def namedCurveOfSequence (value : Bytes) : Option Bytes := do
  let (innerTag, inner, _) ← (readTlvAny value).ok?
  if innerTag ≠ 0x30 then none else namedCurveOfAlgorithm inner

/-- What the loop makes of one element. -/
def namedCurveOfMember (f : UInt8 × Bytes) : Option Bytes :=
  if f.1 ≠ 0x30 then none else namedCurveOfSequence f.2

/-- The loop of `certificate_named_curve_oid`, with the number of turns it has left. -/
def namedCurveLoop : Nat → Bytes → Option Bytes
  | turns, rest =>
    if rest.isEmpty then none
    else
      match turns with
      | 0 => none
      | turns + 1 => do
        let (tag, value, used) ← (readTlvAny rest).ok?
        match namedCurveOfMember (tag, value) with
        | some oid => some oid
        | none => namedCurveLoop turns (rest.drop used)

/-- `certificate_named_curve_oid`: the `namedCurve` OID a certificate declares, without
requiring a supported curve. -/
def certificateNamedCurveOid (der : Bytes) : Option Bytes := do
  let (_, cert, _) ← (readTlvAny der).ok?
  let (_, tbs, _) ← (readTlvAny cert).ok?
  namedCurveLoop tbs.length tbs

/-! ### The shape it looks for -/

/-- `value` starts with the `AlgorithmIdentifier` of an EC key on the curve named by `oid`. -/
def HasEcShape (value oid : Bytes) : Prop :=
  ∃ alg eAlg rest, value = eAlg ++ rest ∧ IsTlv 0x30 alg eAlg ∧ IsAlgorithm alg oid

theorem IsSpki.hasEcShape {spki oid point : Bytes} (h : IsSpki spki oid point) :
    HasEcShape spki oid := by
  obtain ⟨alg, eAlg, eBits, rest, rfl, hAlg, hId, -⟩ := h
  exact ⟨alg, eAlg, eBits ++ rest, rfl, hAlg, hId⟩

theorem namedCurveOfSequence_eq_some {value oid : Bytes} :
    namedCurveOfSequence value = some oid ↔ HasEcShape value oid := by
  constructor
  · intro h
    simp only [namedCurveOfSequence, namedCurveOfAlgorithm, Option.bind_eq_bind,
      Option.bind_eq_some_iff, Exec.ok?_eq_some, Prod.exists, readTlvAny_eq_ok,
      Option.ite_none_left_eq_some, not_not, Option.some.injEq] at h
    obtain ⟨_, alg, _, ⟨eAlg, rest, rfl, hAlg, rfl⟩, rfl, _, _, _, ⟨eId, _, rfl, hId, rfl⟩, rfl, rfl,
      _, _, _, ⟨eCurve, r, hr, hCurve, -⟩, rfl, rfl⟩ := h
    rw [List.drop_left] at hr
    subst hr
    exact ⟨_, eAlg, rest, rfl, hAlg, eId, eCurve, r, rfl, hId, hCurve⟩
  · rintro ⟨_, eAlg, rest, rfl, hAlg, eId, eCurve, r, rfl, hId, hCurve⟩
    have hparam : (eId ++ (eCurve ++ r)).drop eId.length = eCurve ++ r := List.drop_left
    simp [namedCurveOfSequence, namedCurveOfAlgorithm, readTlvAny_append hAlg,
      readTlvAny_append hId, hparam, readTlvAny_append hCurve, Exec.ok?]

theorem namedCurveOfMember_eq_some {f : UInt8 × Bytes} {oid : Bytes} :
    namedCurveOfMember f = some oid ↔ f.1 = 0x30 ∧ HasEcShape f.2 oid := by
  rw [namedCurveOfMember, Option.ite_none_left_eq_some, not_not, namedCurveOfSequence_eq_some]

/-- The loop reads the first element that has the shape. -/
theorem namedCurveLoop_eq {fs : List (UInt8 × Bytes)} {rest : Bytes} (hs : TlvSeq fs rest) :
    ∀ {turns : Nat}, rest.length ≤ turns →
      namedCurveLoop turns rest = fs.findSome? namedCurveOfMember := by
  induction hs with
  | nil => intro turns _; cases turns <;> rfl
  | @cons tag val e r fs he _ ih =>
      intro turns h
      have hpos := he.two_le_length
      rw [List.length_append] at h
      obtain ⟨turns, rfl⟩ : ∃ k, turns = k + 1 := ⟨turns - 1, by omega⟩
      have hne : ¬ (e ++ r).isEmpty := by
        rw [List.isEmpty_iff, List.append_eq_nil_iff]
        exact fun h => he.ne_nil h.1
      have hread : (readTlvAny (e ++ r)).ok? = some (tag, val, e.length) :=
        Exec.ok?_eq_some.mpr (readTlvAny_append he r)
      rw [namedCurveLoop, if_neg hne, List.findSome?_cons, Option.bind_eq_bind, hread,
        Option.bind_some]
      dsimp only
      rw [List.drop_left, ih (by omega)]
      cases namedCurveOfMember (tag, val) <;> rfl

/-- `certificate_named_curve_oid` reads the first element of tbsCertificate that has the shape
of subjectPublicKeyInfo. -/
theorem certificateNamedCurveOid_eq {der : Bytes} (l : Layout der) :
    certificateNamedCurveOid der = l.members.findSome? namedCurveOfMember := by
  have hcert : readTlvAny der = .ok (0x30, l.body, l.outer.length) :=
    readTlvAny_eq_ok.mpr ⟨l.outer, l.trailing, l.der_eq, l.outer_isTlv, rfl⟩
  have htbs : readTlvAny l.body = .ok (0x30, l.tbs, l.tbsTlv.length) :=
    readTlvAny_eq_ok.mpr ⟨l.tbsTlv, l.after, l.body_eq, l.tbs_isTlv, rfl⟩
  simp only [certificateNamedCurveOid, Option.bind_eq_bind, Exec.ok?_eq_some.mpr hcert,
    Exec.ok?_eq_some.mpr htbs, Option.bind_some]
  exact namedCurveLoop_eq l.members_seq Nat.le.refl

/-! ### When the two readers agree -/

theorem HasEcShape.unique {value oid oid' : Bytes} (h : HasEcShape value oid)
    (h' : HasEcShape value oid') : oid = oid' :=
  Option.some.inj ((namedCurveOfSequence_eq_some.mpr h).symm.trans
    (namedCurveOfSequence_eq_some.mpr h'))

namespace Layout

variable {der : Bytes}

/-- The elements in front of subjectPublicKeyInfo. -/
def earlier (l : Layout der) : List (UInt8 × Bytes) :=
  l.members.take (spkiIndex (l.members.map Prod.fst))

/-- The first element in front of subjectPublicKeyInfo that is shaped like one, if there is any,
names the curve that subjectPublicKeyInfo names. -/
def EarlierShapeAgrees (l : Layout der) : Prop :=
  ∀ pre value post oid, l.earlier = pre ++ (0x30, value) :: post → HasEcShape value oid →
    (∀ w, (0x30, w) ∈ pre → ∀ o, ¬ HasEcShape w o) →
      ∀ spki oid', l.spki? = some (0x30, spki) → HasEcShape spki oid' → oid = oid'

theorem members_eq {l : Layout der} {spki : Bytes} (h : l.spki? = some (0x30, spki)) :
    ∃ later, l.members = l.earlier ++ (0x30, spki) :: later := by
  obtain ⟨hlt, hget⟩ := List.getElem?_eq_some_iff.mp h
  refine ⟨l.members.drop (spkiIndex (l.members.map Prod.fst) + 1), ?_⟩
  rw [earlier, ← hget, ← List.drop_eq_getElem_cons hlt, List.take_append_drop]

end Layout

variable {E : EcLib}

/-- **The two curve readers agree** on an accepted certificate exactly when no element in front
of subjectPublicKeyInfo is shaped like one, or the first that is names the same curve. -/
theorem namedCurve_agrees_iff {webpki : Bytes → Bool} {der : Bytes} {c : Certificate E}
    (h : Certificate.fromDer webpki der = .ok c) :
    ∃ l : Layout der,
      (certificateNamedCurveOid der = some c.curve.oid ↔ l.EarlierShapeAgrees) := by
  obtain ⟨rfl, -⟩ := Certificate.fromDer_eq_ok.mp h
  obtain ⟨l, spki, hspki, hkey⟩ := c.exists_layout
  have hshape : HasEcShape spki c.curve.oid := (publicKeyOfSpki_eq_ok.mp hkey).1.hasEcShape
  obtain ⟨later, hmembers⟩ := l.members_eq hspki
  have hread : namedCurveOfMember (0x30, spki) = some c.curve.oid :=
    namedCurveOfMember_eq_some.mpr ⟨rfl, hshape⟩
  refine ⟨l, ?_⟩
  rw [certificateNamedCurveOid_eq l, hmembers, List.findSome?_append, List.findSome?_cons, hread]
  cases hfirst : l.earlier.findSome? namedCurveOfMember with
  | none =>
      -- Nothing earlier has the shape: both sides hold.
      rw [List.findSome?_eq_none_iff] at hfirst
      apply iff_of_true rfl
      intro pre value post oid hsplit hvalue _
      have := hfirst (0x30, value) (by rw [hsplit]; simp)
      rw [namedCurveOfMember_eq_some.mpr ⟨rfl, hvalue⟩] at this
      cases this
  | some oid =>
      -- The first that has the shape is the one the other reader stops at.
      obtain ⟨pre, ⟨tag, value⟩, post, hsplit, hvalue, hpre⟩ := List.findSome?_eq_some_iff.mp hfirst
      obtain ⟨rfl, hvalue⟩ := namedCurveOfMember_eq_some.mp hvalue
      have hnone : ∀ w, (0x30, w) ∈ pre → ∀ o, ¬ HasEcShape w o := by
        intro w hw o ho
        have := hpre _ hw
        rw [namedCurveOfMember_eq_some.mpr ⟨rfl, ho⟩] at this
        cases this
      constructor
      · intro heq pre' value' post' oid' hsplit' hvalue' hnone' spki' oid'' hspki' hshape'
        cases hspki.symm.trans hspki'
        have hfirst' : l.earlier.findSome? namedCurveOfMember = some oid' := by
          apply List.findSome?_eq_some_iff.mpr
          refine ⟨pre', _, post', hsplit', namedCurveOfMember_eq_some.mpr ⟨rfl, hvalue'⟩, ?_⟩
          intro g hg
          apply Option.eq_none_iff_forall_not_mem.mpr
          intro o ho
          obtain ⟨htag, ho⟩ := namedCurveOfMember_eq_some.mp ho
          exact hnone' g.2 (by rw [← htag]; exact hg) o ho
        rw [hfirst] at hfirst'
        cases hfirst'
        have hoid : oid = c.curve.oid := by simpa using heq
        rw [hoid]
        exact hshape.unique hshape'
      · intro hagree
        rw [hagree pre value post oid hsplit hvalue hnone spki c.curve.oid hspki hshape]
        rfl

/-- A P-256 point. -/
def serverPoint : Bytes :=
  [0x04, 0xec, 0x1a, 0x4d, 0x2f, 0x92, 0x80, 0xfc, 0xbe, 0x76, 0x27, 0x8d, 0xc2, 0x13, 0xd4,
    0x2d, 0x44, 0xb4, 0x00, 0x22, 0x3e, 0x80, 0x02, 0x42, 0xbd, 0xbc, 0x88, 0x01, 0xf8, 0x97,
    0x86, 0xb4, 0x01, 0xce, 0x5e, 0x48, 0xa8, 0x8f, 0xa9, 0xe8, 0x3f, 0x18, 0xbb, 0x36, 0x6e,
    0xd0, 0x06, 0xdb, 0xcb, 0xde, 0x7b, 0x8b, 0xd3, 0x28, 0x2f, 0x60, 0x86, 0x50, 0xa0, 0x57,
    0xcf, 0x3a, 0xdd, 0x05, 0x78]

/-- The content of a SET with one CommonName. -/
def commonName (name : String) : Bytes :=
  encode 0x30 (encode 0x06 [0x55, 0x04, 0x03] ++ encode 0x0c name.toUTF8.toList)

/-- A certificate for `serverPoint` whose `signature` member has the content `signature`. -/
def certificateWithSignature (signature : Bytes) : Bytes :=
  certificateDer [(0x02, [0x01]), (0x30, signature), (0x30, encode 0x31 (commonName "CI")),
    (0x30, encode 0x17 "250101000000Z".toUTF8.toList ++ encode 0x17 "350101000000Z".toUTF8.toList),
    (0x30, encode 0x31 (commonName "server A")),
    (0x30, spkiContent CurveKind.p256.oid serverPoint)] []

theorem namedCurve_agrees_iff_server :
    ∃ l : Layout (certificateWithSignature (encode 0x06 [0x2a, 0x86, 0x48, 0xce, 0x3d, 0x04, 0x03,
      0x02])), l.EarlierShapeAgrees := by
  let der := certificateWithSignature (encode 0x06 [0x2a, 0x86, 0x48, 0xce, 0x3d, 0x04, 0x03, 0x02])
  let c : Certificate (EcLib.ofTable []) :=
    ⟨der, { curve := .p256, point := serverPoint }, false, by decide +kernel⟩
  obtain ⟨l, hl⟩ := namedCurve_agrees_iff
    (Certificate.fromDer_eq_ok.mpr ⟨rfl, rfl⟩ : Certificate.fromDer (fun _ => false) der = .ok c)
  exact ⟨l, hl.mp (by decide +kernel)⟩

/-- A `signature` member that looks like subjectPublicKeyInfo on the other curve. -/
def mislabelledDer : Bytes :=
  certificateWithSignature (encode 0x30 (encode 0x06 idEcPublicKey ++
    encode 0x06 CurveKind.brainpoolP256r1.oid))

/-- The certificate is accepted with a P-256 key, and the other reader says brainpoolP256r1. -/
theorem namedCurve_disagrees : ∃ c : Certificate (EcLib.ofTable []),
    Certificate.fromDer (fun _ => false) mislabelledDer = .ok c ∧ c.curve = .p256 ∧
      certificateNamedCurveOid mislabelledDer = some CurveKind.brainpoolP256r1.oid ∧
      certificateNamedCurveOid mislabelledDer ≠ some c.curve.oid :=
  ⟨⟨mislabelledDer, { curve := .p256, point := serverPoint }, false, by decide +kernel⟩,
    Certificate.fromDer_eq_ok.mpr ⟨rfl, rfl⟩, rfl, by decide +kernel, by decide +kernel⟩

end X509
end EuiccCrypto
