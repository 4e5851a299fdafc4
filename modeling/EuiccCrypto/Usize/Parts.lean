import EuiccCrypto.Usize.Walks
import EuiccCrypto.X509.NamedCurve

/-!
# Signed part and curve on machine words

`extract_tbs_and_signature` and `certificate_named_curve_oid`. The first adds an offset and a length
that both lie in the certificate, so that this sum fits; what goes wrong is again the reading of
elements.
-/

namespace EuiccCrypto
namespace Usize

open Octets Tlv

variable {w : Width}

/-! ### The signed part

The bodies are those of `X509`, with `add w` for the sum and the readers of words. A certificate
has at most `isize::MAX` octets and both terms of the sum are lengths in it, so the sum fits in
either width. What is left are the two elements that are read before the sum and the two that are
read after it (`SignatureOverflows`). -/

/-- Where `extract_tbs_and_signature` takes the signed bytes from. -/
def tbsBounds (w : Width) (der : Bytes) : Exec (Bytes × Nat × Nat) :=
  X509.tbsBoundsWith (readTlv w) der

/-- The signature in what follows tbsCertificate in the certificate body. -/
def signatureAfterTbs (w : Width) (afterTbs : Bytes) : Exec Bytes :=
  X509.signatureAfterTbsWith (readTlv w) afterTbs

/-- `extract_tbs_and_signature`: `(tbsCertificate DER as signed, signature payload)`. -/
def extractTbsAndSignature (w : Width) (der : Bytes) : Exec (Bytes × Bytes) :=
  X509.extractTbsAndSignatureWith (add w) (tbsBounds w) (signatureAfterTbs w) der

/-- One of the elements read behind tbsCertificate declares too much. -/
def AfterOverflows (after : Bytes) : Prop :=
  DeclaresTooMuch after ∨
    ∃ alg bits, Starts after 0x30 alg bits ∧ DeclaresTooMuch bits

/-- One of the elements that lead to the signature declares too much. -/
def SignatureOverflows (der : Bytes) : Prop :=
  DeclaresTooMuch der ∨ ∃ body trailing, Starts der 0x30 body trailing ∧
    (DeclaresTooMuch body ∨ ∃ tbs after, Starts body 0x30 tbs after ∧ AfterOverflows after)

theorem signatureAfterTbs_tracks (after : Bytes) :
    Tracks w (AfterOverflows after) (signatureAfterTbs w after) (X509.signatureAfterTbs after) := by
  rw [AfterOverflows, ← exists_readTlv_iff (Q := fun _ bits => DeclaresTooMuch bits)]
  refine (((readTlv_tracks after 0x30).mapErr _).bind
    (R := fun a => DeclaresTooMuch (after.drop a.2)) ?_).congr (by simp only [Exec.mapErr_eq_ok])
  rintro ⟨alg, used⟩ hread
  have hused := (readTlv_eq_ok_iff.mp (Exec.mapErr_eq_ok.mp hread)).2
  dsimp only
  rw [sliceFrom_eq_ok.mpr ⟨hused, rfl⟩, Exec.ok_bind, Exec.ok_bind]
  exact ((readTlv_tracks _ 0x03).mapErr _).bind_same fun _ => rfl

theorem tbsBounds_tracks (der : Bytes) :
    Tracks w (DeclaresTooMuch der ∨ ∃ body trailing, Starts der 0x30 body trailing ∧
      DeclaresTooMuch body) (tbsBounds w der) (X509.tbsBounds der) := by
  rw [← exists_readTlv_iff (Q := fun body _ => DeclaresTooMuch body)]
  refine (((readTlv_tracks der 0x30).mapErr _).bind (R := fun a => DeclaresTooMuch a.1) ?_).congr
    (by simp only [Exec.mapErr_eq_ok])
  rintro ⟨body, used⟩ hread
  -- The body is shorter than the certificate.
  obtain ⟨e, rest, rfl, he, rfl⟩ := X509.readTlv_eq_ok.mp (Exec.mapErr_eq_ok.mp hread)
  have hlen := he.length_lt
  refine (Tracks.guard _ fun _ => ?_).congr (and_iff_right ?_)
  · exact ((readTlv_tracks body 0x30).mapErr _).bind_same fun _ => rfl
  · rw [List.length_append]
    omega

/-- What the bounds are. -/
theorem tbsBounds_eq_ok {der body : Bytes} {tbsStart tbsTlvLen : Nat} :
    X509.tbsBounds der = .ok (body, tbsStart, tbsTlvLen) ↔
      ∃ outer trailing tbs tbsTlv after, der = outer ++ trailing ∧ IsTlv 0x30 body outer ∧
        body = tbsTlv ++ after ∧ IsTlv 0x30 tbs tbsTlv ∧ tbsStart = der.length - body.length ∧
          tbsTlvLen = tbsTlv.length := by
  simp only [X509.tbsBounds, X509.tbsBoundsWith, Exec.bind_eq_ok, Exec.mapErr_eq_ok, Prod.exists,
    X509.readTlv_eq_ok, Exec.ite_err_eq_ok]
  constructor
  · rintro ⟨_, _, ⟨outer, trailing, hder, houter, -⟩, -, tbs, _, ⟨tbsTlv, after, hbody, htbs, rfl⟩, h⟩
    cases h
    exact ⟨outer, trailing, tbs, tbsTlv, after, hder, houter, hbody, htbs, rfl, rfl⟩
  · rintro ⟨outer, trailing, tbs, tbsTlv, after, rfl, houter, hbody, htbs, rfl, rfl⟩
    have hlen := houter.length_lt
    refine ⟨body, _, ⟨outer, trailing, rfl, houter, rfl⟩, ?_, tbs, _,
      ⟨tbsTlv, after, hbody, htbs, rfl⟩, rfl⟩
    rw [List.length_append]
    omega

/-- The places behind tbsCertificate. -/
theorem exists_tbsBounds_iff {der : Bytes} {Q : Bytes → Prop} :
    (∃ a, X509.tbsBounds der = .ok a ∧ Q (a.1.drop a.2.2)) ↔
      ∃ body trailing, Starts der 0x30 body trailing ∧ ∃ tbs after, Starts body 0x30 tbs after ∧
        Q after := by
  constructor
  · rintro ⟨⟨_, _, _⟩, hbounds, hq⟩
    obtain ⟨outer, trailing, tbs, tbsTlv, after, rfl, houter, rfl, htbs, -, rfl⟩ :=
      tbsBounds_eq_ok.mp hbounds
    rw [List.drop_left] at hq
    exact ⟨_, trailing, ⟨outer, rfl, houter⟩, tbs, after, ⟨tbsTlv, rfl, htbs⟩, hq⟩
  · rintro ⟨_, trailing, ⟨outer, rfl, houter⟩, tbs, after, ⟨tbsTlv, rfl, htbs⟩, hq⟩
    exact ⟨(_, _, _), tbsBounds_eq_ok.mpr
      ⟨outer, trailing, tbs, tbsTlv, after, rfl, houter, rfl, htbs, rfl, rfl⟩,
      by rwa [List.drop_left]⟩

theorem extractTbsAndSignature_tracks {der : Bytes} (h : der.length ≤ w.isizeMax) :
    Tracks w (SignatureOverflows der) (extractTbsAndSignature w der)
      (X509.extractTbsAndSignature der) := by
  refine ((tbsBounds_tracks der).bind (R := fun a => AfterOverflows (a.1.drop a.2.2)) ?_).congr ?_
  · rintro ⟨body, tbsStart, tbsTlvLen⟩ hbounds
    obtain ⟨outer, trailing, tbs, tbsTlv, after, rfl, houter, rfl, htbs, rfl, rfl⟩ :=
      tbsBounds_eq_ok.mp hbounds
    have hlen := houter.length_lt
    have hmax := w.isizeMax_lt
    simp only [List.length_append] at h hlen ⊢
    -- The sum is an offset in the certificate.
    rw [add_eq_ok (by omega), Exec.ok_bind, Exec.ok_bind, if_neg (by omega), if_neg (by omega)]
    have hslice : ∃ wire, slice (outer ++ trailing)
        (outer.length + trailing.length - (tbsTlv.length + after.length))
        (outer.length + trailing.length - (tbsTlv.length + after.length) + tbsTlv.length) =
          .ok wire :=
      ⟨_, slice_eq_ok.mpr ⟨⟨by omega, by rw [List.length_append]; omega⟩, rfl⟩⟩
    obtain ⟨wire, hwire⟩ := hslice
    rw [hwire, Exec.ok_bind, Exec.ok_bind, if_neg (by omega), if_neg (by omega), sliceFrom_append,
      Exec.ok_bind, Exec.ok_bind, List.drop_left]
    exact (signatureAfterTbs_tracks after).bind_same fun _ => rfl
  · rw [exists_tbsBounds_iff (Q := AfterOverflows), SignatureOverflows]
    constructor
    · rintro ((hder | ⟨body, trailing, hbody, hlarge⟩) | ⟨body, trailing, hbody, hafter⟩)
      · exact .inl hder
      · exact .inr ⟨body, trailing, hbody, .inl hlarge⟩
      · exact .inr ⟨body, trailing, hbody, .inr hafter⟩
    · rintro (hder | ⟨body, trailing, hbody, hlarge | hafter⟩)
      · exact .inl (.inl hder)
      · exact .inl (.inr ⟨body, trailing, hbody, hlarge⟩)
      · exact .inr ⟨body, trailing, hbody, hafter⟩

/-! ### The curve

`certificate_named_curve_oid` makes an error into `None`. What goes wrong is therefore told apart
from what is not there: its bodies are repeated here with `Exec`, where `X509` needs `Option`
only. Its loop stops at the first element that looks like a subjectPublicKeyInfo, and
`LoopOverflows` says the same of what goes wrong: the elements in front are ones the loop passes
over. -/

/-- `x.ok()?` in a function that returns an `Option`, and `let Ok(a) = x else` with the end of the
function or of the turn behind it. -/
def orNone {α β : Type} (x : Exec α) (f : α → Exec (Option β)) : Exec (Option β) := do
  match ← x.toOption with
  | some a => f a
  | none => .ok none

/-- What the body of the loop of `certificate_named_curve_oid` reads in an `AlgorithmIdentifier` with
content `inner`; `none` is its `continue`. -/
def namedCurveOfAlgorithm (w : Width) (inner : Bytes) : Exec (Option Bytes) :=
  orNone (readTlvAny w inner) fun (algTag, algOid, algUsed) =>
    if algTag ≠ 0x06 then .ok none
    else if algOid ≠ X509.idEcPublicKey then .ok none
    else do
      let parameters ← sliceFrom inner algUsed
      orNone (readTlvAny w parameters) fun (curveTag, curveOid, _) =>
        if curveTag ≠ 0x06 then .ok none else .ok (some curveOid)

/-- The body of the loop of `certificate_named_curve_oid`, for a SEQUENCE with content `value`. -/
def namedCurveOfSequence (w : Width) (value : Bytes) : Exec (Option Bytes) :=
  orNone (readTlvAny w value) fun (innerTag, inner, _) =>
    if innerTag ≠ 0x30 then .ok none else namedCurveOfAlgorithm w inner

/-- What the loop makes of one element. -/
def namedCurveOfMember (w : Width) (f : UInt8 × Bytes) : Exec (Option Bytes) :=
  if f.1 ≠ 0x30 then .ok none else namedCurveOfSequence w f.2

/-- The loop of `certificate_named_curve_oid`, with the number of turns it has left. -/
def namedCurveLoop (w : Width) : Nat → Bytes → Exec (Option Bytes)
  | turns, rest =>
    if rest.isEmpty then .ok none
    else
      match turns with
      | 0 => .panic
      | turns + 1 =>
        orNone (readTlvAny w rest) fun (tag, value, used) => do
          let rest ← sliceFrom rest used
          match ← namedCurveOfMember w (tag, value) with
          | some oid => .ok (some oid)
          | none => namedCurveLoop w turns rest

/-- `certificate_named_curve_oid`. -/
def certificateNamedCurveOid (w : Width) (der : Bytes) : Exec (Option Bytes) :=
  orNone (readTlvAny w der) fun (_, cert, _) =>
    orNone (readTlvAny w cert) fun (_, tbs, _) =>
      namedCurveLoop w tbs.length tbs

/-- One of the elements read in a SEQUENCE declares too much. -/
def SequenceOverflows (value : Bytes) : Prop :=
  DeclaresTooMuch value ∨ ∃ inner rest, Starts value 0x30 inner rest ∧ AlgorithmOverflows inner

/-- A call whose error becomes `None`. -/
theorem Tracks.orNone {α β : Type} {P : Prop} {x y : Exec α} {f : α → Exec (Option β)}
    {g : α → Option β} {R : α → Prop} (h : Tracks w P x y) (hy : y ≠ .panic)
    (hf : ∀ a, y = .ok a → Tracks w (R a) (f a) (.ok (g a))) :
    Tracks w (P ∨ ∃ a, y = .ok a ∧ R a) (orNone x f) (.ok (y.ok? >>= g)) := by
  constructor
  · rintro ⟨hw, hp | ⟨a, ha, hr⟩⟩
    · rw [Usize.orNone, h.panics ⟨hw, hp⟩]
      rfl
    · by_cases hp : P
      · rw [Usize.orNone, h.panics ⟨hw, hp⟩]
        rfl
      · rw [Usize.orNone, h.agrees fun hwp => hp hwp.2, ha]
        exact (hf a ha).panics ⟨hw, hr⟩
  · intro hnot
    rw [Usize.orNone, h.agrees fun hwp => hnot ⟨hwp.1, .inl hwp.2⟩]
    cases ha : y with
    | ok a => exact (hf a ha).agrees fun hwr => hnot ⟨hwr.1, .inr ⟨a, ha, hwr.2⟩⟩
    | err e => rfl
    | panic => exact absurd ha hy

/-- A test that ends the turn. -/
theorem Tracks.skip {β : Type} {c P : Prop} [Decidable c] {x : Exec (Option β)} {o : Option β}
    (h : ¬ c → Tracks w P x (.ok o)) :
    Tracks w (¬ c ∧ P) (if c then .ok none else x) (.ok (if c then none else o)) := by
  split
  · next hc => exact (Tracks.of_eq rfl).congr (by simp [hc])
  · next hc => exact (h hc).congr (by simp [hc])

/-- The parameters are read behind id-ecPublicKey. -/
theorem namedCurveOfAlgorithm_tracks (inner : Bytes) :
    Tracks w (AlgorithmOverflows inner) (namedCurveOfAlgorithm w inner)
      (.ok (X509.namedCurveOfAlgorithm inner)) := by
  have hplaces : (∃ a, X509.readTlvAny inner = .ok a ∧ a.1 = 0x06 ∧ a.2.1 = X509.idEcPublicKey ∧
      DeclaresTooMuch (inner.drop a.2.2)) ↔ ∃ id parameters, Starts inner 0x06 id parameters ∧
        id = X509.idEcPublicKey ∧ DeclaresTooMuch parameters := by
    rw [exists_readTlvAny_iff (Q := fun tag val rest =>
      tag = 0x06 ∧ val = X509.idEcPublicKey ∧ DeclaresTooMuch rest)]
    constructor
    · rintro ⟨_, id, parameters, hstarts, rfl, h⟩
      exact ⟨id, parameters, hstarts, h⟩
    · rintro ⟨id, parameters, hstarts, h⟩
      exact ⟨0x06, id, parameters, hstarts, rfl, h⟩
  rw [AlgorithmOverflows, ← hplaces]
  refine (readTlvAny_tracks inner).orNone (X509.readTlvAny_ne_panic inner) ?_
  rintro ⟨tag, oid, used⟩ hread
  refine (Tracks.skip fun _ => ?_).congr (and_congr_left fun _ => not_not)
  refine (Tracks.skip fun _ => ?_).congr (and_congr_left fun _ => not_not)
  obtain ⟨e, rest, rfl, -, rfl⟩ := X509.readTlvAny_eq_ok.mp hread
  rw [sliceFrom_append, Exec.ok_bind, List.drop_left]
  refine ((readTlvAny_tracks rest).orNone (X509.readTlvAny_ne_panic rest) (R := fun _ => False)
    ?_).congr (by simp)
  rintro ⟨curveTag, curveOid, _⟩ -
  exact .of_eq (apply_ite Exec.ok _ _ _).symm

theorem namedCurveOfSequence_tracks (value : Bytes) :
    Tracks w (SequenceOverflows value) (namedCurveOfSequence w value)
      (.ok (X509.namedCurveOfSequence value)) := by
  have hplaces : (∃ a, X509.readTlvAny value = .ok a ∧ a.1 = 0x30 ∧ AlgorithmOverflows a.2.1) ↔
      ∃ inner rest, Starts value 0x30 inner rest ∧ AlgorithmOverflows inner := by
    rw [exists_readTlvAny_iff (Q := fun tag val _ => tag = 0x30 ∧ AlgorithmOverflows val)]
    constructor
    · rintro ⟨_, inner, rest, hstarts, rfl, h⟩
      exact ⟨inner, rest, hstarts, h⟩
    · rintro ⟨inner, rest, hstarts, h⟩
      exact ⟨0x30, inner, rest, hstarts, rfl, h⟩
  rw [SequenceOverflows, ← hplaces]
  refine (readTlvAny_tracks value).orNone (X509.readTlvAny_ne_panic value) ?_
  rintro ⟨tag, inner, used⟩ -
  refine (Tracks.skip fun _ => ?_).congr (and_congr_left fun _ => not_not)
  exact namedCurveOfAlgorithm_tracks inner

/-- What follows some elements that are not shaped like subjectPublicKeyInfo declares too much, or is
a SEQUENCE that goes wrong. -/
def LoopOverflows (s : Bytes) : Prop :=
  ∃ pre rest fs, s = pre ++ rest ∧ TlvSeq fs pre ∧ (∀ f ∈ fs, X509.namedCurveOfMember f = none) ∧
    (DeclaresTooMuch rest ∨ ∃ value after, Starts rest 0x30 value after ∧ SequenceOverflows value)

/-- One of the elements that lead to the curve declares too much. -/
def CurveOverflows (der : Bytes) : Prop :=
  DeclaresTooMuch der ∨ ∃ tag cert trailing, Starts der tag cert trailing ∧
    (DeclaresTooMuch cert ∨ ∃ tag' tbs after, Starts cert tag' tbs after ∧ LoopOverflows tbs)

/-- The loop goes wrong at its first element, or behind it. -/
theorem loopOverflows_iff {s : Bytes} : LoopOverflows s ↔
    DeclaresTooMuch s ∨ ∃ tag val rest, Starts s tag val rest ∧
      ((tag = 0x30 ∧ SequenceOverflows val) ∨
        (X509.namedCurveOfMember (tag, val) = none ∧ LoopOverflows rest)) := by
  constructor
  · rintro ⟨_, rest, fs, rfl, hseq, hfs, h⟩
    cases hseq with
    | nil =>
        rcases h with hlarge | ⟨value, after, hstarts, hvalue⟩
        · exact .inl hlarge
        · exact .inr ⟨0x30, value, after, hstarts, .inl ⟨rfl, hvalue⟩⟩
    | @cons tag val e pre fs he hseq =>
        rw [List.forall_mem_cons] at hfs
        exact .inr ⟨tag, val, pre ++ rest, ⟨e, by simp, he⟩,
          .inr ⟨hfs.1, pre, rest, fs, rfl, hseq, hfs.2, h⟩⟩
  · rintro (hlarge | ⟨tag, val, rest, hstarts, ⟨rfl, hvalue⟩ | ⟨hnone, pre, rest', fs, rfl, hseq, hfs,
      h⟩⟩)
    · exact ⟨[], s, [], rfl, .nil, by simp, .inl hlarge⟩
    · exact ⟨[], s, [], rfl, .nil, by simp, .inr ⟨val, rest, hstarts, hvalue⟩⟩
    · obtain ⟨e, rfl, he⟩ := hstarts
      exact ⟨e ++ pre, rest', _, by simp, .cons he hseq, List.forall_mem_cons.mpr ⟨hnone, hfs⟩, h⟩

theorem not_loopOverflows_nil : ¬ LoopOverflows [] := by
  rw [loopOverflows_iff, not_or]
  refine ⟨not_declaresTooMuch_nil, ?_⟩
  rintro ⟨_, _, _, ⟨e, h, he⟩, -⟩
  exact he.ne_nil (List.append_eq_nil_iff.mp h.symm).1

theorem namedCurveOfMember_tracks (f : UInt8 × Bytes) :
    Tracks w (f.1 = 0x30 ∧ SequenceOverflows f.2) (namedCurveOfMember w f)
      (.ok (X509.namedCurveOfMember f)) :=
  (Tracks.skip fun _ => namedCurveOfSequence_tracks f.2).congr (and_congr_left fun _ => not_not)

theorem namedCurveLoop_tracks {turns : Nat} {rest : Bytes} (h : rest.length ≤ turns) :
    Tracks w (LoopOverflows rest) (namedCurveLoop w turns rest)
      (.ok (X509.namedCurveLoop turns rest)) := by
  induction turns generalizing rest with
  | zero =>
      obtain rfl : rest = [] := List.eq_nil_of_length_eq_zero (Nat.le_zero.mp h)
      exact (Tracks.of_eq rfl).congr (iff_of_false not_false not_loopOverflows_nil)
  | succ turns ih =>
      rw [namedCurveLoop, X509.namedCurveLoop]
      split
      · next hempty =>
          obtain rfl := List.isEmpty_iff.mp hempty
          exact (Tracks.of_eq rfl).congr (iff_of_false not_false not_loopOverflows_nil)
      · rw [loopOverflows_iff, ← exists_readTlvAny_iff (Q := fun tag val rest =>
          (tag = 0x30 ∧ SequenceOverflows val) ∨
            (X509.namedCurveOfMember (tag, val) = none ∧ LoopOverflows rest))]
        refine (readTlvAny_tracks rest).orNone (X509.readTlvAny_ne_panic rest) ?_
        rintro ⟨tag, val, used⟩ hread
        obtain ⟨e, r, rfl, he, rfl⟩ := X509.readTlvAny_eq_ok.mp hread
        have hpos := he.two_le_length
        rw [List.length_append] at h
        dsimp only
        rw [sliceFrom_append, Exec.ok_bind, List.drop_left]
        refine (((namedCurveOfMember_tracks (tag, val)).bind
          (g := fun found => match found with
            | some oid => .ok (some oid)
            | none => .ok (X509.namedCurveLoop turns r))
          (R := fun found => found = none ∧ LoopOverflows r) ?_).congr (by simp)).trans_eq ?_
        · intro found _
          cases found with
          | some oid => exact (Tracks.of_eq rfl).congr (by simp)
          | none => exact (ih (by omega)).congr (by simp)
        · cases X509.namedCurveOfMember (tag, val) <;> rfl

theorem certificateNamedCurveOid_tracks (der : Bytes) :
    Tracks w (CurveOverflows der) (certificateNamedCurveOid w der)
      (.ok (X509.certificateNamedCurveOid der)) := by
  rw [CurveOverflows, ← exists_readTlvAny_iff (Q := fun _ cert _ => DeclaresTooMuch cert ∨
    ∃ tag' tbs after, Starts cert tag' tbs after ∧ LoopOverflows tbs)]
  refine (readTlvAny_tracks der).orNone (X509.readTlvAny_ne_panic der) ?_
  rintro ⟨tag, cert, _⟩ -
  dsimp only
  rw [← exists_readTlvAny_iff (Q := fun _ tbs _ => LoopOverflows tbs)]
  refine (readTlvAny_tracks cert).orNone (X509.readTlvAny_ne_panic cert) ?_
  rintro ⟨tag', tbs, _⟩ -
  exact namedCurveLoop_tracks Nat.le.refl

end Usize
end EuiccCrypto
