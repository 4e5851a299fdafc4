import EuiccCrypto.X509.Roles

/-!
# Where the EID comes from

`subject_serial_number` says that it walks to the subject, and searches the certificate from its
first octet. `subject_serial_iff` says when what it returns has been read in the subject: when every
place that looks like a serialNumber attribute has one of the subject at or before it.
`serial_from_issuer` is a certificate whose EID is passed over for a number in the issuer name.
-/

namespace EuiccCrypto
namespace X509

open Octets Tlv Search

/-! ### The first place that looks like a serialNumber

What the search does at one place is `serialTurn_eq_done_some`. Over the whole certificate it finds
the first place that looks like an attribute: the only other way for it to stop is the end of the
certificate, which comes later. -/

/-- The search finds the first place that looks like a serialNumber attribute. -/
theorem settlesAt_serial_iff {der v : Bytes} {k : Nat} :
    SettlesAt oidSerialNumber.length serialTurn der k (some v) ↔
      LooksLikeSerial (der.drop k) v ∧ ∀ j < k, ∀ v', ¬ LooksLikeSerial (der.drop j) v' := by
  constructor
  · intro h
    refine ⟨serialTurn_eq_done_some.mp h.done, ?_⟩
    intro j hj v' hlooks
    have hdone := serialTurn_eq_done_some.mpr hlooks
    rw [h.earlier j hj] at hdone
    cases hdone
  · rintro ⟨hlooks, hearlier⟩
    have hlen := hlooks.length
    refine ⟨?_, serialTurn_eq_done_some.mpr hlooks, by omega⟩
    intro j hj
    cases hturn : serialTurn (der.drop j) with
    | next => rfl
    | done r =>
        cases r with
        | some v' => exact absurd (serialTurn_eq_done_some.mp hturn) (hearlier j hj v')
        | none =>
            -- What follows the place `k` is already too long for that.
            have := length_le_of_serialTurn hturn
            rw [List.length_drop] at this hlen
            omega

/-! ### The subject -/

section Layout

variable {der : Bytes} (l : Layout der)

/-- The position of the subject: the one in front of subjectPublicKeyInfo. -/
def Layout.subjectIndex : Nat := spkiIndex (l.members.map Prod.fst) - 1

/-- A serialNumber attribute of the subject with the value `v`: an element of a SET of the Name at
the position of the subject. The content of the attribute starts at offset `k`. -/
def SubjectSerial (k : Nat) (v : Bytes) : Prop :=
  ∃ name set attr earlierSets earlierAttrs kBody kTbs kName kSet kAttr,
    ContentAt der [] kBody 0x30 l.body ∧ ContentAt l.body [] kTbs 0x30 l.tbs ∧
    l.members[l.subjectIndex]? = some (0x30, name) ∧
    ContentAt l.tbs (l.members.take l.subjectIndex) kName 0x30 name ∧
    ContentAt name earlierSets kSet 0x31 set ∧ ContentAt set earlierAttrs kAttr 0x30 attr ∧
    IsSerialNumber attr v ∧ k = kBody + (kTbs + (kName + (kSet + kAttr)))

/-- The value `v` that the search finds is the one of a serialNumber attribute of the subject. -/
def ReadFromSubject (v : Bytes) : Prop :=
  ∃ k, SubjectSerial l k v ∧
    SettlesAt oidSerialNumber.length serialTurn der k (some v)

/-- Every place that looks like a serialNumber attribute has one of the subject at or before
it. -/
def SubjectSerialFirst : Prop :=
  ∀ k v, LooksLikeSerial (der.drop k) v →
    ∃ k' ≤ k, ∃ v', v'.length ≤ 0x7F ∧ SubjectSerial l k' v'

variable {l}

theorem SubjectSerial.prefix_drop {k : Nat} {v : Bytes} (h : SubjectSerial l k v) :
    ∃ attr, IsSerialNumber attr v ∧ attr <+: der.drop k := by
  obtain ⟨_, _, attr, _, _, _, _, _, _, _, hbody, htbs, -, hname, hset, hattr, hserial, rfl⟩ := h
  refine ⟨attr, hserial, ?_⟩
  apply hbody.prefix_drop_add
  apply htbs.prefix_drop_add
  apply hname.prefix_drop_add
  exact hset.prefix_drop_add hattr.prefix_drop

theorem SubjectSerial.looksLike {k : Nat} {v : Bytes} (h : SubjectSerial l k v)
    (hv : v.length ≤ 0x7F) : LooksLikeSerial (der.drop k) v :=
  ⟨hv, h.prefix_drop⟩

/-- The value of a serialNumber attribute of the subject is part of the subject. -/
theorem SubjectSerial.isInfix {k : Nat} {v : Bytes} (h : SubjectSerial l k v) :
    ∃ name, l.members[l.subjectIndex]? = some (0x30, name) ∧ v <:+: name := by
  obtain ⟨name, set, _, _, _, _, _, _, _, _, -, -, hname, -, hset, hattr, ⟨tag, -, rfl⟩, -⟩ := h
  have hvalue : v <:+: oidSerialNumber ++ encode tag v := by
    have hsuffix : v <:+ encode tag v := by
      rw [encode, ← List.cons_append]
      exact List.suffix_append _ v
    exact (hsuffix.trans (List.suffix_append _ _)).isInfix
  exact ⟨name, hname, hvalue.trans (hattr.isInfix.trans hset.isInfix)⟩

theorem SubjectSerialFirst.readFromSubject {v : Bytes} (h : SubjectSerialFirst l)
    (hv : scan oidSerialNumber.length serialTurn der = some v) : ReadFromSubject l v := by
  obtain ⟨k, hk⟩ := scan_eq_some_iff.mp hv
  obtain ⟨hlooks, hearlier⟩ := settlesAt_serial_iff.mp hk
  obtain ⟨k', hle, v', hshort, hserial⟩ := h k v hlooks
  -- The search has not passed over the attribute of the subject, so it has stopped there.
  have heq : k' = k := by
    by_contra hne
    exact hearlier k' (by omega) v' (hserial.looksLike hshort)
  subst heq
  have hturn := hk.done.symm.trans (serialTurn_eq_done_some.mpr (hserial.looksLike hshort))
  cases hturn
  exact ⟨k', hserial, hk⟩

theorem subjectSerialFirst_of_readFromSubject
    (h : ∀ v, scan oidSerialNumber.length serialTurn der = some v → ReadFromSubject l v) :
    SubjectSerialFirst l := by
  intro k v hlooks
  classical
  have hex : ∃ j v', LooksLikeSerial (der.drop j) v' := ⟨k, v, hlooks⟩
  obtain ⟨v₀, hfirst⟩ := Nat.find_spec hex
  -- The first of these places is where the search stops.
  have hsettles : SettlesAt oidSerialNumber.length serialTurn der (Nat.find hex) (some v₀) := by
    apply settlesAt_serial_iff.mpr
    refine ⟨hfirst, ?_⟩
    intro j hj v' hj'
    exact Nat.find_min hex hj ⟨v', hj'⟩
  obtain ⟨k', hserial, hsettles'⟩ := h v₀ hsettles.scan_eq
  obtain ⟨heq, -⟩ := hsettles'.unique hsettles
  refine ⟨k', ?_, v₀, hfirst.1, hserial⟩
  rw [heq]
  exact Nat.find_min' hex ⟨v, hlooks⟩

end Layout

variable {E : EcLib}

/-- **Where the EID comes from.** What `subject_serial_number` returns has been read in a
serialNumber attribute of the subject exactly when every place that looks like such an attribute
has one of the subject at or before it. -/
theorem subject_serial_iff {webpki : Bytes → Bool} {der : Bytes} {c : Certificate E}
    (hc : Certificate.fromDer webpki der = .ok c) :
    ∃ l : Layout der,
      (∀ v, c.subjectSerialNumber = some v → ReadFromSubject l v) ↔ SubjectSerialFirst l := by
  obtain ⟨rfl, -⟩ := Certificate.fromDer_eq_ok.mp hc
  obtain ⟨l, -⟩ := c.exists_layout
  refine ⟨l, ?_⟩
  constructor
  · intro h
    exact subjectSerialFirst_of_readFromSubject h
  · intro h v hv
    exact h.readFromSubject hv

/-- The serialNumber attribute in the subject of `fullFields`. -/
def fullSerial : Bytes := oidSerialNumber ++ encode 0x13 "89049032".toUTF8.toList

theorem subjectSerial_full : SubjectSerial fullLayout 74 "89049032".toUTF8.toList := by
  have hat : ∀ (fs : List (UInt8 × Bytes)) (tag : UInt8) (val post b : Bytes) (k : Nat),
      (encodeAll fs).length < 2 ^ 32 ∧ val.length < 2 ^ 32 ∧
        b = encodeAll fs ++ (encode tag val ++ post) ∧
        k = (encodeAll fs).length + (1 + (lengthOctets val.length).length) →
      ContentAt b fs k tag val := by
    rintro fs tag val post b k ⟨hfs, hval, rfl, rfl⟩
    exact contentAt_append hfs hval post
  refine ⟨nameContent fullFields.subject, encode 0x30 fullSerial, fullSerial, [], [], 3, 3, 64, 2,
    2, hat [] 0x30 _ [] _ _ ?_, hat [] 0x30 _ [] _ _ ?_, by decide +kernel,
    hat _ 0x30 _ (encodeAll (fullLayout.members.drop 5)) _ _ ?_, hat [] 0x31 _ [] _ _ ?_,
    hat [] 0x30 _ [] _ _ ?_, ⟨0x13, .inl rfl, rfl⟩, rfl⟩
  all_goals decide +kernel

theorem subjectSerialFirst_full : SubjectSerialFirst fullLayout := by
  have hearlier : ∀ t ∈ fullFields.encode.tails, ¬ oidSerialNumber <+: t ∨
      t.length + 74 ≤ fullFields.encode.length := by
    decide +kernel
  intro k v hlooks
  refine ⟨74, ?_, _, by decide +kernel, subjectSerial_full⟩
  by_contra hk
  obtain ⟨-, _, ⟨tag, -, rfl⟩, hprefix⟩ := hlooks
  exact forall_lt_drop hearlier k (by omega) ((List.prefix_append _ _).trans hprefix)

theorem subject_serial_iff_full : ∃ c : Certificate (.ofTable []),
    Certificate.fromDer (fun _ => false) fullFields.encode = .ok c ∧
      c.subjectSerialNumber = some "89049032".toUTF8.toList ∧
      ReadFromSubject fullLayout "89049032".toUTF8.toList := by
  obtain ⟨l, hiff⟩ := subject_serial_iff fromDer_full
  obtain rfl := Subsingleton.elim l fullLayout
  have hserial : fullCertificate.subjectSerialNumber = some "89049032".toUTF8.toList := by
    decide +kernel
  exact ⟨fullCertificate, fromDer_full, hserial, hiff.mpr subjectSerialFirst_full _ hserial⟩

/-- `serverFields` with a serialNumber in the issuer name and an EID in the subject. -/
def numberedIssuer : CertFields :=
  { serverFields with
    issuer := [encode 0x30 (oidSerialNumber ++ encode 0x13 "CI-1".toUTF8.toList)]
    subject := [encode 0x30
      (oidSerialNumber ++ encode 0x13 "89049032123451234512345678901235".toUTF8.toList)] }

/-- The number in the issuer name is taken for the EID. -/
theorem serial_from_issuer : ∃ c : Certificate (.ofTable []),
    Certificate.fromDer (fun _ => false) numberedIssuer.encode = .ok c ∧
      c.subjectSerialNumber = some "CI-1".toUTF8.toList ∧
      ∀ l : Layout numberedIssuer.encode, ¬ ReadFromSubject l "CI-1".toUTF8.toList := by
  refine ⟨⟨numberedIssuer.encode, { curve := .p256, point := serverPoint }, false,
    by decide +kernel⟩, Certificate.fromDer_eq_ok.mpr ⟨rfl, rfl⟩, by decide +kernel, ?_⟩
  rintro l ⟨k, hserial, -⟩
  obtain ⟨name, hname, hinfix⟩ := hserial.isInfix
  rw [Subsingleton.elim l (numberedIssuer.layout (by decide +kernel))] at hname
  have hsubject : some (0x30, nameContent numberedIssuer.subject) = some ((0x30 : UInt8), name) :=
    hname
  cases hsubject
  revert hinfix
  decide +kernel

end X509
end EuiccCrypto
