import EuiccCrypto.Usize
import EuiccCrypto.X509.Signed

/-!
# Walks on machine words

The functions of `x509.rs` that read elements with `read_tlv_any`, with the sums and slices they
compute. `read_tlv_any` adds the length an element declares to the length of its header with `+`.
The conditions of this module follow each function through its input, and collect the places at
which an element that declares too much is read.
-/

namespace EuiccCrypto
namespace Usize

open Octets Tlv

variable {w : Width}

/-! ### Elements

`read_tlv_any` computes two sums, where a header starts and where its value ends. The first is at
most 6. The second is the one that can be too large, and `DeclaresTooMuch` says when it is. -/

/-- `s` starts with an element, which is followed by `rest`. -/
def Starts (s : Bytes) (tag : UInt8) (val rest : Bytes) : Prop :=
  ∃ e, s = e ++ rest ∧ IsTlv tag val e

/-- `read_length`: read a DER length, returning `(length, bytes_consumed)`. -/
def readLength (w : Width) (input : Bytes) : Exec (Nat × Nat) :=
  readLengthWith w .certificate X509.unsupportedLength input

/-- `read_tlv_any`: read any single TLV, returning `(tag, value, bytes_used)`. -/
def readTlvAny (w : Width) (input : Bytes) : Exec (UInt8 × Bytes × Nat) :=
  if input.length < 2 then .err (.certificate "truncated TLV")
  else do
    let tag ← index input 0
    let (len, lenBytes) ← sliceFrom input 1 >>= readLength w
    let start ← add w 1 lenBytes
    let stop ← add w start len
    if input.length < stop then do
      let remain ← sub input.length start
      .err (.certificate ("TLV " ++ hexPrefixed tag ++ " declares " ++ toString len ++
        " bytes, only " ++ toString remain ++ " remain"))
    else do
      let value ← slice input start stop
      .ok (tag, value, stop)

/-- `read_tlv`: read a TLV with a specific expected tag, returning `(value, bytes_used)`. -/
def readTlv (w : Width) (input : Bytes) (expected : UInt8) : Exec (Bytes × Nat) :=
  X509.readTlvWith (readTlvAny w) input expected

theorem readLength_eq (input : Bytes) : readLength w input = X509.readLength input :=
  readLengthWith_eq _ _ input

/-- What declares too much is read as a length. -/
theorem DeclaresTooMuch.exists_lengthOctets {input : Bytes} (h : DeclaresTooMuch input) :
    ∃ (tag : UInt8) (n : Nat) (os rest : Bytes),
      input = tag :: (os ++ rest) ∧ LengthOctets n os := by
  obtain ⟨tag, x, rest, rfl, -⟩ := h
  exact ⟨tag, _, [0x84, 0xff, 0xff, 0xff, x], rest, rfl, .long rfl (by simp) (by decide)⟩

/-- The sums of `read_tlv_any` fit, unless the words are short and too much is declared. -/
theorem add_start_len {tag : UInt8} {n : Nat} {os rest : Bytes} (h : LengthOctets n os) :
    Tracks w (DeclaresTooMuch (tag :: (os ++ rest))) (add w (1 + os.length) n)
      (.ok (1 + os.length + n)) := by
  have hlt := h.lt
  have hle := h.length_le
  rw [declaresTooMuch_iff h]
  constructor
  · rintro ⟨rfl, hlarge⟩
    exact add_eq_panic hlarge
  · intro hnot
    cases w with
    | w32 => exact add_eq_ok (Nat.not_le.mp fun hlarge => hnot ⟨rfl, hlarge⟩)
    | w64 =>
        refine add_eq_ok (Nat.lt_of_lt_of_le ?_ (by decide : 2 ^ 33 ≤ 2 ^ Width.w64.bits))
        omega

/-- Reading an element goes wrong on a 32-bit target when it declares too much. -/
theorem readTlvAny_tracks (input : Bytes) :
    Tracks w (DeclaresTooMuch input) (readTlvAny w input) (X509.readTlvAny input) := by
  by_cases hlen : input.length < 2
  · have hnot : ¬ DeclaresTooMuch input := by
      rintro ⟨tag, x, rest, rfl, -⟩
      simp only [List.length_cons] at hlen
      omega
    refine (Tracks.of_eq ?_).congr (iff_of_false not_false hnot)
    rw [readTlvAny, X509.readTlvAny, if_pos hlen, if_pos hlen]
  · obtain ⟨tag, tl, rfl⟩ : ∃ tag tl, input = tag :: tl :=
      List.exists_cons_of_length_pos (by omega)
    have htag : index (tag :: tl) 0 = .ok tag := rfl
    have htl : sliceFrom (tag :: tl) 1 = .ok tl := by simp
    rw [readTlvAny, X509.readTlvAny, if_neg hlen, if_neg hlen, htag, Exec.ok_bind, Exec.ok_bind, htl,
      Exec.ok_bind, Exec.ok_bind, readLength_eq]
    cases hread : X509.readLength tl with
    | ok r =>
        obtain ⟨os, rest, rfl, hos, hk⟩ := Der.readLengthWith_eq_ok.mp hread
        obtain ⟨n, k⟩ := r
        subst hk
        have hle := hos.length_le
        rw [Exec.ok_bind, Exec.ok_bind]
        dsimp only
        rw [add_small (by omega), Exec.ok_bind]
        refine (add_start_len hos).bind_ok ?_
        split
        · rw [sub_eq_ok (by simp only [List.length_cons, List.length_append]; omega), Exec.ok_bind]
        · rfl
    | err e =>
        refine (Tracks.of_eq rfl).congr (iff_of_false not_false fun hlarge => ?_)
        obtain ⟨_, n, os, rest, h, hos⟩ := hlarge.exists_lengthOctets
        obtain ⟨-, rfl⟩ := List.cons.inj h
        rw [X509.readLength, Der.readLengthWith_append hos rest] at hread
        cases hread
    | panic => exact absurd hread (Der.readLengthWith_ne_panic tl)

theorem readTlv_tracks (input : Bytes) (tag : UInt8) :
    Tracks w (DeclaresTooMuch input) (readTlv w input tag) (X509.readTlv input tag) :=
  (readTlvAny_tracks input).bind_same fun _ => rfl

/-- What is read, and what is left. -/
theorem readTlv_eq_ok_iff {s val : Bytes} {tag : UInt8} {used : Nat} :
    X509.readTlv s tag = .ok (val, used) ↔
      Starts s tag val (s.drop used) ∧ used ≤ s.length := by
  rw [X509.readTlv_eq_ok]
  constructor
  · rintro ⟨e, rest, rfl, he, rfl⟩
    rw [List.drop_left, List.length_append]
    exact ⟨⟨e, rfl, he⟩, Nat.le_add_right _ _⟩
  · rintro ⟨⟨e, hs, he⟩, hle⟩
    refine ⟨e, s.drop used, hs, he, ?_⟩
    have hlen := congrArg List.length hs
    rw [List.length_append, List.length_drop] at hlen
    omega

/-- Places behind an element that is read. -/
theorem exists_readTlv_iff {s : Bytes} {tag : UInt8} {Q : Bytes → Bytes → Prop} :
    (∃ a, X509.readTlv s tag = .ok a ∧ Q a.1 (s.drop a.2)) ↔
      ∃ val rest, Starts s tag val rest ∧ Q val rest := by
  constructor
  · rintro ⟨⟨val, used⟩, hread, hq⟩
    exact ⟨val, s.drop used, (readTlv_eq_ok_iff.mp hread).1, hq⟩
  · rintro ⟨val, rest, ⟨e, rfl, he⟩, hq⟩
    exact ⟨(val, e.length), X509.readTlv_append he rest, by rwa [List.drop_left]⟩

theorem exists_readTlvAny_iff {s : Bytes} {Q : UInt8 → Bytes → Bytes → Prop} :
    (∃ a, X509.readTlvAny s = .ok a ∧ Q a.1 a.2.1 (s.drop a.2.2)) ↔
      ∃ tag val rest, Starts s tag val rest ∧ Q tag val rest := by
  constructor
  · rintro ⟨⟨tag, val, used⟩, hread, hq⟩
    obtain ⟨e, rest, rfl, he, rfl⟩ := X509.readTlvAny_eq_ok.mp hread
    rw [List.drop_left] at hq
    exact ⟨tag, val, rest, ⟨e, rfl, he⟩, hq⟩
  · rintro ⟨tag, val, rest, ⟨e, rfl, he⟩, hq⟩
    exact ⟨(tag, val, e.length), X509.readTlvAny_append he rest, by rwa [List.drop_left]⟩

/-! ### The subject public key

The bodies of `X509` with the readers of words. Each condition lists the elements that a function
reads, in the order in which it reads them: the first, and behind it the ones it reads if the
first is there. `exists_readTlv_iff` is what takes such a condition from the calls to the octets. -/

/-- `curve_from_algorithm_identifier`. -/
def curveFromAlgorithmIdentifier (w : Width) (alg : Bytes) : Exec CurveKind :=
  X509.curveFromAlgorithmIdentifierWith (readTlv w) alg

/-- The element at the front of `alg` declares too much, or the one behind id-ecPublicKey. -/
def AlgorithmOverflows (alg : Bytes) : Prop :=
  DeclaresTooMuch alg ∨
    ∃ id parameters, Starts alg 0x06 id parameters ∧ id = X509.idEcPublicKey ∧
      DeclaresTooMuch parameters

theorem curveFromAlgorithmIdentifier_tracks (alg : Bytes) :
    Tracks w (AlgorithmOverflows alg) (curveFromAlgorithmIdentifier w alg)
      (X509.curveFromAlgorithmIdentifier alg) := by
  rw [AlgorithmOverflows, ← exists_readTlv_iff]
  refine (((readTlv_tracks alg 0x06).mapErr _).bind
    (R := fun a => a.1 = X509.idEcPublicKey ∧ DeclaresTooMuch (alg.drop a.2)) ?_).congr
    (by simp only [Exec.mapErr_eq_ok])
  rintro ⟨algorithm, used⟩ hread
  refine (Tracks.guard _ fun _ => ?_).congr (and_congr_left fun _ => not_not)
  have hused := (readTlv_eq_ok_iff.mp (Exec.mapErr_eq_ok.mp hread)).2
  rw [sliceFrom_eq_ok.mpr ⟨hused, rfl⟩, Exec.ok_bind, Exec.ok_bind]
  exact ((readTlv_tracks _ 0x06).mapErr _).bind_same fun _ => rfl

section Extract

variable (E : EcLib)

/-- The second half of `extract_spki_public_key`. -/
def publicKeyOfSpki (w : Width) (spki : Bytes) : Exec PublicKey :=
  X509.publicKeyOfSpkiWith E (readTlv w) (curveFromAlgorithmIdentifier w) spki

/-- One of the elements read in subjectPublicKeyInfo declares too much. -/
def SpkiOverflows (spki : Bytes) : Prop :=
  DeclaresTooMuch spki ∨
    ∃ alg bits, Starts spki 0x30 alg bits ∧
      (AlgorithmOverflows alg ∨
        ∃ curve : CurveKind, X509.IsAlgorithm alg curve.oid ∧ DeclaresTooMuch bits)

theorem publicKeyOfSpki_tracks (spki : Bytes) :
    Tracks w (SpkiOverflows spki) (publicKeyOfSpki E w spki) (X509.publicKeyOfSpki E spki) := by
  rw [SpkiOverflows, ← exists_readTlv_iff]
  refine (((readTlv_tracks spki 0x30).mapErr _).bind
    (R := fun a => AlgorithmOverflows a.1 ∨
      ∃ curve : CurveKind, X509.IsAlgorithm a.1 curve.oid ∧ DeclaresTooMuch (spki.drop a.2))
    ?_).congr (by simp only [Exec.mapErr_eq_ok])
  rintro ⟨alg, used⟩ hread
  refine ((curveFromAlgorithmIdentifier_tracks alg).bind
    (R := fun _ => DeclaresTooMuch (spki.drop used)) fun curve _ => ?_).congr
    (by simp only [X509.curveFromAlgorithmIdentifier_eq_ok])
  have hused := (readTlv_eq_ok_iff.mp (Exec.mapErr_eq_ok.mp hread)).2
  rw [sliceFrom_eq_ok.mpr ⟨hused, rfl⟩, Exec.ok_bind, Exec.ok_bind]
  exact ((readTlv_tracks _ 0x03).mapErr _).bind_same fun _ => rfl

/-- The loop of `extract_spki_public_key` over the elements of tbsCertificate, with the number
of turns it has left. -/
def walkFields (w : Width) : Nat → Bytes → List UInt8 → List Bytes →
    Exec (List UInt8 × List Bytes) :=
  X509.walkFieldsWith (readTlvAny w)

/-- What follows some of the elements of `s` declares too much. -/
def WalkOverflows (s : Bytes) : Prop :=
  ∃ pre rest fs, s = pre ++ rest ∧ TlvSeq fs pre ∧ DeclaresTooMuch rest

theorem not_declaresTooMuch_nil : ¬ DeclaresTooMuch [] := by
  rintro ⟨_, _, _, h, -⟩
  cases h

/-- A walk goes wrong at once, or behind the first element. -/
theorem walkOverflows_iff {s : Bytes} : WalkOverflows s ↔
    DeclaresTooMuch s ∨ ∃ tag val rest, Starts s tag val rest ∧ WalkOverflows rest := by
  constructor
  · rintro ⟨_, rest, fs, rfl, hseq, hlarge⟩
    cases hseq with
    | nil => exact .inl hlarge
    | @cons tag val e pre fs he hseq =>
        refine .inr ⟨tag, val, pre ++ rest, ⟨e, by simp, he⟩, pre, rest, fs, rfl, hseq, hlarge⟩
  · rintro (hlarge | ⟨tag, val, _, ⟨e, rfl, he⟩, pre, rest, fs, rfl, hseq, hlarge⟩)
    · exact ⟨[], s, [], rfl, .nil, hlarge⟩
    · exact ⟨e ++ pre, rest, _, by simp, .cons he hseq, hlarge⟩

theorem not_walkOverflows_nil : ¬ WalkOverflows [] := by
  rw [walkOverflows_iff, not_or]
  refine ⟨not_declaresTooMuch_nil, ?_⟩
  rintro ⟨_, _, _, ⟨e, h, he⟩, -⟩
  exact he.ne_nil (List.append_eq_nil_iff.mp h.symm).1

theorem walkFields_tracks {turns : Nat} {rest : Bytes} {tags : List UInt8} {fields : List Bytes}
    (h : rest.length ≤ turns) :
    Tracks w (WalkOverflows rest) (walkFields w turns rest tags fields)
      (X509.walkFields turns rest tags fields) := by
  induction turns generalizing rest tags fields with
  | zero =>
      obtain rfl : rest = [] := List.eq_nil_of_length_eq_zero (Nat.le_zero.mp h)
      exact (Tracks.of_eq rfl).congr (iff_of_false not_false not_walkOverflows_nil)
  | succ turns ih =>
      rw [walkFields, X509.walkFields, X509.walkFieldsWith, X509.walkFieldsWith]
      split
      · next hempty =>
          obtain rfl := List.isEmpty_iff.mp hempty
          exact (Tracks.of_eq rfl).congr (iff_of_false not_false not_walkOverflows_nil)
      · rw [walkOverflows_iff, ← exists_readTlvAny_iff]
        refine (((readTlvAny_tracks rest).mapErr _).bind
          (R := fun a => WalkOverflows (rest.drop a.2.2)) ?_).congr (by simp only [Exec.mapErr_eq_ok])
        rintro ⟨tag, val, used⟩ hread
        -- The element has at least two octets, so neither of the guards fires.
        obtain ⟨e, r, rfl, he, rfl⟩ := X509.readTlvAny_eq_ok.mp (Exec.mapErr_eq_ok.mp hread)
        have hpos := he.two_le_length
        rw [List.length_append] at h
        dsimp only
        rw [if_neg (by omega), if_neg (by rw [List.length_append]; omega), if_neg (by omega),
          if_neg (by rw [List.length_append]; omega), List.drop_left]
        exact ih (by omega)

/-- `spa_missing`: whether `tags` is too short to contain index `i` as a SEQUENCE. -/
def spaMissing (tags : List UInt8) (i : Nat) : Exec Bool :=
  if tags.length ≤ i then .ok true
  else do
    let tag ← index tags i
    .ok (tag != 0x30)

theorem spaMissing_eq (tags : List UInt8) (i : Nat) :
    spaMissing tags i = .ok (X509.spaMissing tags i) := by
  rw [spaMissing, X509.spaMissing]
  by_cases h : tags.length ≤ i
  · rw [if_pos h, decide_eq_true h, Bool.true_or]
  · have hget : index tags i = .ok tags[i] := index_eq_ok.mpr (List.getElem?_eq_getElem (by omega))
    rw [if_neg h, hget, Exec.ok_bind, decide_eq_false h, Bool.false_or,
      List.getElem?_eq_getElem (by omega)]
    rfl

/-- `extract_spki_public_key`. -/
def extractSpkiPublicKey (w : Width) (der : Bytes) : Exec PublicKey :=
  X509.extractSpkiPublicKeyWith (readTlv w) (walkFields w) spaMissing (publicKeyOfSpki E w) der

/-- One of the elements of tbsCertificate declares too much, or one read in
subjectPublicKeyInfo. -/
def MembersOverflow (tbs : Bytes) : Prop :=
  WalkOverflows tbs ∨ ∃ members spki, TlvSeq members tbs ∧
    members[X509.spkiIndex (members.map Prod.fst)]? = some (0x30, spki) ∧ SpkiOverflows spki

/-- The same in the certificate body, with tbsCertificate. -/
def BodyOverflows (body : Bytes) : Prop :=
  DeclaresTooMuch body ∨ ∃ tbs after, Starts body 0x30 tbs after ∧ MembersOverflow tbs

/-- One of the elements that lead to the subject public key declares too much. -/
def KeyOverflows (der : Bytes) : Prop :=
  DeclaresTooMuch der ∨ ∃ body trailing, Starts der 0x30 body trailing ∧ BodyOverflows body

/-- The walk goes on to an element that is there and is a SEQUENCE. -/
theorem spaMissing_eq_false_iff {members : List (UInt8 × Bytes)} {i : Nat} {spki : Bytes} :
    X509.spaMissing (members.map Prod.fst) i = false ∧ (members.map Prod.snd)[i]? = some spki ↔
      members[i]? = some (0x30, spki) := by
  rw [X509.spaMissing, List.getElem?_map, List.getElem?_map, List.length_map]
  cases h : members[i]? with
  | none => simp
  | some f =>
      have hlt := (List.getElem?_eq_some_iff.mp h).1
      simp [Prod.ext_iff, hlt]

theorem extractSpkiPublicKey_tracks (der : Bytes) :
    Tracks w (KeyOverflows der) (extractSpkiPublicKey E w der)
      (X509.extractSpkiPublicKey E der) := by
  rw [KeyOverflows, ← exists_readTlv_iff (Q := fun body _ => BodyOverflows body)]
  refine (((readTlv_tracks der 0x30).mapErr _).bind (R := fun a => BodyOverflows a.1) ?_).congr
    (by simp only [Exec.mapErr_eq_ok])
  rintro ⟨body, used⟩ -
  rw [BodyOverflows, ← exists_readTlv_iff (Q := fun tbs _ => MembersOverflow tbs)]
  refine (((readTlv_tracks body 0x30).mapErr _).bind (R := fun a => MembersOverflow a.1) ?_).congr
    (by simp only [Exec.mapErr_eq_ok])
  rintro ⟨tbs, used⟩ -
  refine ((walkFields_tracks Nat.le.refl).bind (R := fun a =>
    ∃ spki, (X509.spaMissing a.1 (X509.spkiIndex a.1) = false ∧
      a.2[X509.spkiIndex a.1]? = some spki) ∧ SpkiOverflows spki) ?_).congr ?_
  · rintro ⟨tags, fields⟩ -
    dsimp only
    rw [spaMissing_eq, Exec.ok_bind, Exec.ok_bind]
    cases X509.spaMissing tags (X509.spkiIndex tags) with
    | true => exact (Tracks.of_eq rfl).congr (by simp)
    | false =>
        cases hspki : fields[X509.spkiIndex tags]? with
        | none => exact (Tracks.of_eq (by simp [index, hspki])).congr (by simp)
        | some spki =>
            have hindex : index fields (X509.spkiIndex tags) = .ok spki := index_eq_ok.mpr hspki
            rw [if_neg Bool.false_ne_true, if_neg Bool.false_ne_true, hindex, Exec.ok_bind,
              Exec.ok_bind]
            exact (publicKeyOfSpki_tracks E spki).congr (by simp)
  · rw [MembersOverflow]
    apply or_congr_right
    simp only [Prod.exists, X509.walkFields_eq_ok Nat.le.refl, List.nil_append]
    constructor
    · rintro ⟨_, _, ⟨members, hseq, rfl, rfl⟩, spki, hspki, hover⟩
      exact ⟨members, spki, hseq, spaMissing_eq_false_iff.mp hspki, hover⟩
    · rintro ⟨members, spki, hseq, hspki, hover⟩
      exact ⟨_, _, ⟨members, hseq, rfl, rfl⟩, spki, spaMissing_eq_false_iff.mpr hspki, hover⟩

/-- `Certificate::from_der`: the DER, the key, and whether `webpki` parses the DER. -/
def fromDer (w : Width) (webpki : Bytes → Bool) (der : Bytes) : Exec (Bytes × PublicKey × Bool) :=
  if der.isEmpty then .err (.certificate "empty certificate")
  else do
    let publicKey ← extractSpkiPublicKey E w der
    .ok (der, publicKey, webpki der)

theorem not_keyOverflows_nil : ¬ KeyOverflows [] := by
  rw [KeyOverflows, not_or]
  refine ⟨not_declaresTooMuch_nil, ?_⟩
  rintro ⟨_, _, ⟨e, h, he⟩, -⟩
  exact he.ne_nil (List.append_eq_nil_iff.mp h.symm).1

theorem fromDer_eq_panic_iff {webpki : Bytes → Bool} {der : Bytes} :
    fromDer E w webpki der = .panic ↔ w = .w32 ∧ KeyOverflows der := by
  rw [fromDer]
  cases der with
  | nil => exact iff_of_false (by simp) fun h => not_keyOverflows_nil h.2
  | cons b der =>
      rw [if_neg (by simp), ← (extractSpkiPublicKey_tracks E (b :: der)).eq_panic_iff
        (X509.extractSpkiPublicKey_ne_panic _)]
      simp [Exec.bind_eq_panic]

end Extract

end Usize
end EuiccCrypto
