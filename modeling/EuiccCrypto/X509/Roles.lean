import EuiccCrypto.X509.SignedContent

/-!
# Where roles come from

`certificate_policies` reads the first value that the search for the OID of
`certificatePolicies` finds anywhere in the certificate. `role_from_policies_iff` says when that
value is the one of a `certificatePolicies` extension: when nothing in front of the extension
stops the search. Then the role is one the extension grants. `role_from_name` is a certificate
without extensions that takes its role from the issuer name.
-/

namespace EuiccCrypto
namespace X509

open Octets Tlv Search

/-! ### Extensions

The extensions are found where a parser would look for them: in the `[3]` element of
tbsCertificate. `Extensions.At` adds the offset of one of them in the certificate, since that is
what a search for an OID arrives at. -/

/-- `extn` is the content of a `certificatePolicies` Extension with the value `v`. -/
def IsPoliciesExtension (extn v : Bytes) : Prop :=
  ∃ eOid eVal, IsTlv 0x06 [0x55, 0x1D, 0x20] eOid ∧ IsTlv 0x04 v eVal ∧
    (extn = eOid ++ eVal ∨ ∃ critical eCrit, IsTlv 0x01 critical eCrit ∧
      extn = eOid ++ (eCrit ++ eVal))

/-- The `certificatePolicies` value `v` has a PolicyInformation with the identifier `p`. -/
def PolicyIn (v p : Bytes) : Prop :=
  ∃ list eList r, v = eList ++ r ∧ IsTlv 0x30 list eList ∧
    ∃ fs pre info eInfo post, list = pre ++ (eInfo ++ post) ∧ TlvSeq fs pre ∧
      IsTlv 0x30 info eInfo ∧ ∃ eOid r', info = eOid ++ r' ∧ IsTlv 0x06 p eOid

/-- The extensions element of a tbsCertificate: `[3]`, a SEQUENCE OF Extension. -/
structure Extensions {der : Bytes} (l : Layout der) where
  before : List (UInt8 × Bytes)
  later : List (UInt8 × Bytes)
  content : Bytes
  seq : Bytes
  items : List (UInt8 × Bytes)
  members_eq : l.members = before ++ (0xa3, content) :: later
  content_isTlv : IsTlv 0x30 seq content
  items_seq : TlvSeq items seq

section Extensions

variable {der : Bytes} {l : Layout der}

/-- `front` is all of `der` in front of the content `extn` of an Extension. -/
def Extensions.At (x : Extensions l) (front extn : Bytes) : Prop :=
  ∃ es es' hdr hdrTbs before hdrContent hdrSeq earlier hdrExt rest,
    x.items = es ++ (0x30, extn) :: es' ∧ TlvSeq x.before before ∧ TlvSeq es earlier ∧
    IsHeader 0x30 l.body.length hdr ∧ IsHeader 0x30 l.tbs.length hdrTbs ∧
    IsHeader 0xa3 x.content.length hdrContent ∧ IsHeader 0x30 x.seq.length hdrSeq ∧
    IsHeader 0x30 extn.length hdrExt ∧
    front = hdr ++ hdrTbs ++ before ++ hdrContent ++ hdrSeq ++ earlier ++ hdrExt ∧
    der = front ++ (extn ++ rest)

/-- Every Extension lies somewhere. -/
theorem Extensions.exists_at (x : Extensions l) {extn : Bytes} (h : (0x30, extn) ∈ x.items) :
    ∃ front, x.At front extn := by
  -- Split the extensions at `extn` and the members at the extensions element, and put the
  -- headers in between.
  obtain ⟨es, es', hitems⟩ := List.append_of_mem h
  obtain ⟨earlier, eExt, post, hseq, hearlier, ⟨hdrExt, hhExt, heExt⟩, -⟩ :=
    TlvSeq.split (hitems ▸ x.items_seq)
  obtain ⟨before, eContent, mpost, htbs, hbefore, ⟨hdrContent, hhContent, heContent⟩, -⟩ :=
    TlvSeq.split (x.members_eq ▸ l.members_seq)
  obtain ⟨hdrSeq, hhSeq, hcontent⟩ := x.content_isTlv
  obtain ⟨hdrTbs, hhTbs, htbsTlv⟩ := l.tbs_isTlv
  obtain ⟨hdr, hh, hder, -⟩ := l.exists_header
  refine ⟨_, es, es', hdr, hdrTbs, before, hdrContent, hdrSeq, earlier, hdrExt,
    post ++ (mpost ++ (l.after ++ l.trailing)), hitems, hbefore, hearlier, hh, hhTbs, hhContent,
    hhSeq, hhExt, rfl, hder.trans ?_⟩
  rw [htbsTlv, htbs, heContent, hcontent, hseq, heExt]
  simp

theorem Extensions.At.mem {x : Extensions l} {front extn : Bytes} (h : x.At front extn) :
    (0x30, extn) ∈ x.items := by
  obtain ⟨es, es', _, _, _, _, _, _, _, _, hitems, -⟩ := h
  rw [hitems]
  simp

theorem Extensions.At.drop_eq {x : Extensions l} {front extn : Bytes} (h : x.At front extn) :
    ∃ rest, der.drop front.length = extn ++ rest := by
  obtain ⟨_, _, _, _, _, _, _, _, _, rest, -, -, -, -, -, -, -, -, -, hder⟩ := h
  exact ⟨rest, (congrArg (List.drop front.length) hder).trans List.drop_left⟩

end Extensions

/-! ### What the policy reader reads

The short-form reader reads an element exactly when its content has at most 127 octets
(`readTlvConsumed_eq_some_iff`). From there on outwards: what the loop over the policies collects
are identifiers of PolicyInformation elements (`mem_policiesLoop`, by induction on the turns), and
so is what is read out of a value (`policyIn_of_mem`). -/

/-- The short-form reader reads the element its input starts with, if its content has at most 127
octets. -/
theorem readTlvConsumed_encode {tag : UInt8} {val : Bytes} (h : val.length ≤ 0x7F) (rest : Bytes) :
    readTlvConsumed (encode tag val ++ rest) = some (tag, val, (encode tag val).length) := by
  have hlen : (UInt8.ofNat val.length).toNat = val.length :=
    UInt8.toNat_ofNat_of_lt' (Nat.lt_of_le_of_lt h (by decide))
  have henc : encode tag val ++ rest = tag :: UInt8.ofNat val.length :: (val ++ rest) := by
    rw [encode_of_lt (by omega)]
    rfl
  have hstop : (encode tag val).length = 2 + val.length := by
    rw [encode_of_lt (by omega), List.length_cons, List.length_cons]
    omega
  have hfits : ¬ 2 + val.length > (tag :: UInt8.ofNat val.length :: (val ++ rest)).length := by
    simp only [List.length_cons, List.length_append]
    omega
  rw [henc, hstop, readTlvConsumed]
  simp only [List.getElem?_cons_zero, List.getElem?_cons_succ, Option.bind_eq_bind,
    Option.bind_some, hlen]
  rw [if_neg (by omega), if_neg hfits, List.drop_succ_cons, List.drop_succ_cons, List.drop_zero,
    List.take_left]

theorem readTlvConsumed_encode_self {tag : UInt8} {val : Bytes} (h : val.length ≤ 0x7F) :
    readTlvConsumed (encode tag val) = some (tag, val, (encode tag val).length) := by
  have hread := @readTlvConsumed_encode tag val h []
  rwa [List.append_nil] at hread

/-- An element is read when its length is in the short form. -/
theorem readTlvConsumed_eq_some_iff {buf content : Bytes} {tag : UInt8} {consumed : Nat} :
    readTlvConsumed buf = some (tag, content, consumed) ↔
      content.length ≤ 0x7F ∧ consumed = (encode tag content).length ∧
        ∃ rest, buf = encode tag content ++ rest := by
  constructor
  · intro h
    simp only [readTlvConsumed, Option.bind_eq_bind, Option.bind_eq_some_iff,
      Option.ite_none_left_eq_some, Option.some.injEq, Prod.mk.injEq] at h
    obtain ⟨t, ht, len, hlen, hshort, hfits, rfl, rfl, rfl⟩ := h
    rcases buf with _ | ⟨tag, _ | ⟨len', value⟩⟩
    · simp at ht
    · simp at hlen
    · obtain rfl : tag = t := by simpa using ht
      obtain rfl : len' = len := by simpa using hlen
      simp only [List.length_cons] at hfits
      have hval : (value.take len'.toNat).length = len'.toNat :=
        List.length_take_of_le (by omega)
      have hcontent : ((tag :: len' :: value).drop 2).take len'.toNat = value.take len'.toNat := rfl
      rw [hcontent, encode_of_lt (by omega), hval, UInt8.ofNat_toNat]
      refine ⟨by omega, ?_, value.drop len'.toNat, by simp⟩
      simp only [List.length_cons, hval]
      omega
  · rintro ⟨hshort, rfl, rest, rfl⟩
    exact readTlvConsumed_encode hshort rest

theorem readTlvConsumed_eq_some {buf content : Bytes} {tag : UInt8} {consumed : Nat}
    (h : readTlvConsumed buf = some (tag, content, consumed)) :
    ∃ e r, buf = e ++ r ∧ IsTlv tag content e ∧ consumed = e.length := by
  obtain ⟨hshort, hconsumed, rest, hbuf⟩ := readTlvConsumed_eq_some_iff.mp h
  exact ⟨encode tag content, rest, hbuf, isTlv_encode tag (by omega), hconsumed⟩

/-- The checked reader succeeds where the other one does. -/
theorem readTlvConsumedChecked_ok? (buf : Bytes) :
    (readTlvConsumedChecked buf).ok? = readTlvConsumed buf := by
  rw [readTlvConsumedChecked, readTlvConsumed]
  cases buf[0]? with
  | none => rfl
  | some tag =>
      cases buf[1]? with
      | none => rfl
      | some len =>
          simp only [Exec.okOr_some, Exec.ok_bind, Option.bind_eq_bind, Option.bind_some]
          split
          · rfl
          · split <;> rfl

theorem unwrapSequence_eq_some {buf content : Bytes} (h : unwrapSequence buf = some content) :
    ∃ e r, buf = e ++ r ∧ IsTlv 0x30 content e := by
  simp only [unwrapSequence, readShortTlv, Option.bind_eq_bind, Option.bind_eq_some_iff,
    Prod.exists, Option.some.injEq, Prod.mk.injEq, Option.ite_none_right_eq_some] at h
  obtain ⟨_, _, ⟨tag, c, used, hread, rfl, rfl⟩, rfl, rfl⟩ := h
  obtain ⟨e, r, hbuf, he, -⟩ := readTlvConsumed_eq_some hread
  exact ⟨e, r, hbuf, he⟩

theorem mem_policyOfInfo {info p : Bytes} (h : p ∈ policyOfInfo info) :
    ∃ eOid r, info = eOid ++ r ∧ IsTlv 0x06 p eOid := by
  rw [policyOfInfo, readTlvConsumedChecked_ok?] at h
  split at h
  · next tag content used hread =>
      obtain ⟨e, r, hinfo, he, -⟩ := readTlvConsumed_eq_some hread
      split at h
      · next htag =>
          rw [List.mem_singleton.mp h]
          exact ⟨e, r, hinfo, htag ▸ he⟩
      · simp at h
  · simp at h

/-- The loop collects identifiers of PolicyInformation elements of the list it walks. -/
theorem mem_policiesLoop {p : Bytes} : ∀ {turns : Nat} {rest : Bytes} {out : List Bytes},
    p ∈ policiesLoop turns rest out → p ∈ out ∨
      ∃ fs pre info eInfo post, rest = pre ++ (eInfo ++ post) ∧ TlvSeq fs pre ∧
        IsTlv 0x30 info eInfo ∧ ∃ eOid r', info = eOid ++ r' ∧ IsTlv 0x06 p eOid := by
  intro turns
  induction turns with
  | zero =>
      intro rest out h
      rw [policiesLoop] at h
      split at h <;> exact .inl h
  | succ turns ih =>
      intro rest out h
      rw [policiesLoop, readTlvConsumedChecked_ok?] at h
      split at h
      · exact .inl h
      · split at h
        · exact .inl h
        · next tag info used hread =>
            obtain ⟨e, r, rfl, he, rfl⟩ := readTlvConsumed_eq_some hread
            rw [List.drop_left] at h
            rcases ih h with h | ⟨fs, pre, info', eInfo, post, rfl, hfs, hinfo, hoid⟩
            · -- The identifier was there before this turn, or this turn has added it.
              split at h
              · exact .inl h
              · next htag =>
                  rw [not_not] at htag
                  rcases List.mem_append.mp h with h | h
                  · exact .inl h
                  · exact .inr ⟨[], [], info, e, r, rfl, .nil, htag ▸ he, mem_policyOfInfo h⟩
            · exact .inr ⟨(tag, info) :: fs, e ++ pre, info', eInfo, post, by simp, .cons he hfs,
                hinfo, hoid⟩

theorem policyIn_of_mem {v p : Bytes} {ps : List Bytes} (h : policiesOf v = some ps)
    (hp : p ∈ ps) : PolicyIn v p := by
  simp only [policiesOf, Option.bind_eq_bind, Option.bind_eq_some_iff, Option.some.injEq] at h
  obtain ⟨list, hlist, rfl⟩ := h
  obtain ⟨eList, r, hv, heList⟩ := unwrapSequence_eq_some hlist
  rcases mem_policiesLoop hp with h | h
  · simp at h
  · exact ⟨list, eList, r, hv, heList, h⟩

/-! ### What the search reads at an extension

At the content of a `certificatePolicies` extension the search stops, whether or not the length of
the value is one it can read (`extensionTurn_policies`), if the identifier is spelled as the search
looks for it. So nothing behind such an extension has a say. -/

theorem isTlv_oidCertificatePolicies : IsTlv 0x06 [0x55, 0x1D, 0x20] oidCertificatePolicies :=
  isTlv_encode 0x06 (by decide)

/-- An element either has its length in short form, or starts with a length octet above `7F`. -/
theorem eq_encode_or_long {tag : UInt8} {v e : Bytes} (h : IsTlv tag v e) :
    (v.length ≤ 0x7F ∧ e = encode tag v) ∨
      ∃ len : UInt8, 0x7F < len.toNat ∧ [tag, len] <+: e := by
  obtain ⟨_, ⟨os, hos, rfl⟩, rfl⟩ := h
  generalize hn : v.length = n at hos
  cases hos with
  | @short b hb =>
      refine .inl ⟨by omega, ?_⟩
      rw [encode_of_lt (by omega), hn, UInt8.ofNat_toNat]
      rfl
  | @long m d ds hm _ _ => exact .inr ⟨m, by omega, List.prefix_append [tag, m] _⟩

/-- At a `certificatePolicies` extension the search stops, with the value of the extension or
with nothing. -/
theorem extensionTurn_policies {extn v : Bytes} (h : IsPoliciesExtension extn v)
    (hoid : oidCertificatePolicies <+: extn) (rest : Bytes) :
    extensionTurn oidCertificatePolicies (extn ++ rest) = .done (some v) ∨
      extensionTurn oidCertificatePolicies (extn ++ rest) = .done none := by
  have hvalue : ∀ {crit eVal : Bytes}, IsCritical crit → IsTlv 0x04 v eVal →
      HasValue oidCertificatePolicies (oidCertificatePolicies ++ (crit ++ eVal)) v ∨
        HasLongLength oidCertificatePolicies (oidCertificatePolicies ++ (crit ++ eVal)) := by
    intro crit eVal hcrit hVal
    rcases eq_encode_or_long hVal with ⟨hv, rfl⟩ | ⟨len, hlen, hlong⟩
    · exact .inl ⟨hv, crit, hcrit, List.prefix_rfl⟩
    · refine .inr ⟨len, hlen, .inr ⟨crit, hcrit, ?_⟩⟩
      exact (List.prefix_append_right_inj _).mpr ((List.prefix_append_right_inj _).mpr hlong)
  have hstops : HasValue oidCertificatePolicies extn v ∨
      HasLongLength oidCertificatePolicies extn := by
    obtain ⟨t, rfl⟩ := hoid
    obtain ⟨eOid, eVal, hOid, hVal, h | ⟨critical, eCrit, hCrit, h⟩⟩ := h
    · obtain ⟨-, -, -, rfl⟩ := isTlv_oidCertificatePolicies.append_inj hOid h
      exact hvalue (.inl rfl) hVal
    · obtain ⟨-, -, -, rfl⟩ := isTlv_oidCertificatePolicies.append_inj hOid h
      rcases eq_encode_or_long hCrit with ⟨hcritical, rfl⟩ | ⟨len, hlen, hlong⟩
      · exact hvalue (.inr ⟨critical, hcritical, rfl⟩) hVal
      · -- A `critical` with a long-form length makes the source return.
        refine .inr ⟨len, hlen, .inl ?_⟩
        exact (List.prefix_append_right_inj _).mpr (hlong.trans (List.prefix_append _ _))
  rcases hstops with h | h
  · exact .inl (h.append rest).turn
  · exact .inr (h.append rest).turn

theorem IsPoliciesExtension.length {extn v : Bytes} (h : IsPoliciesExtension extn v) :
    5 < extn.length := by
  obtain ⟨eOid, eVal, hOid, hVal, h⟩ := h
  have hOid : 3 < eOid.length := hOid.length_lt
  have hVal := hVal.two_le_length
  obtain rfl | ⟨critical, eCrit, -, rfl⟩ := h
  all_goals
    simp only [List.length_append]
    omega

/-! ### Where a role comes from

A role reader answers from the value that the search has found, which may lie anywhere
(`readFromPolicies_iff`). It lies in the extension when the search reaches the extension, that is,
when it stops at no place in front of it: that is `PoliciesFirst`, on octets. -/

section Layout

variable {der : Bytes} (l : Layout der)

/-- The extensions element has a `certificatePolicies` extension with a PolicyInformation for one
of `roles`. -/
def GrantedByPolicies (roles : List Bytes) : Prop :=
  ∃ (x : Extensions l) (extn v p : Bytes), (0x30, extn) ∈ x.items ∧ IsPoliciesExtension extn v ∧
    PolicyIn v p ∧ p ∈ roles

/-- The value the search for `certificatePolicies` finds is the one of a `certificatePolicies`
extension, which has a PolicyInformation for one of `roles`. -/
def ReadFromPolicies (roles : List Bytes) : Prop :=
  ∃ (x : Extensions l) (front extn v p : Bytes), x.At front extn ∧ IsPoliciesExtension extn v ∧
    PolicyIn v p ∧ p ∈ roles ∧
    SettlesAt oidCertificatePolicies.length (extensionTurn oidCertificatePolicies) der front.length
      (some v)

/-- There is a `certificatePolicies` extension, its extnID in the shortest spelling, and in front of
its content the OID stands at no place where the search stops. -/
def PoliciesFirst : Prop :=
  ∃ (x : Extensions l) (front extn v : Bytes), x.At front extn ∧ IsPoliciesExtension extn v ∧
    oidCertificatePolicies <+: extn ∧
    ∀ j < front.length, ¬ StopsAt oidCertificatePolicies (der.drop j)

variable {l}

theorem ReadFromPolicies.granted {roles : List Bytes} (h : ReadFromPolicies l roles) :
    GrantedByPolicies l roles := by
  obtain ⟨x, front, extn, v, p, hat, hextn, hp, hrole, -⟩ := h
  exact ⟨x, extn, v, p, hat.mem, hextn, hp, hrole⟩

theorem ReadFromPolicies.first {roles : List Bytes} (h : ReadFromPolicies l roles) :
    PoliciesFirst l := by
  obtain ⟨x, front, extn, v, p, hat, hextn, -, -, hsettles⟩ := h
  obtain ⟨rest, hdrop⟩ := hat.drop_eq
  refine ⟨x, front, extn, v, hat, hextn, ?_, (settlesAt_extension_iff.mp hsettles).2⟩
  -- The search stops only where the OID is, so the extension starts with these octets.
  have hprefix : oidCertificatePolicies <+: extn ++ rest := by
    by_contra hnot
    have hdone := hsettles.done
    rw [hdrop, extensionTurn, atPattern_eq_next hnot] at hdone
    cases hdone
  exact List.prefix_of_prefix_length_le hprefix (List.prefix_append extn rest) hextn.length.le

theorem PoliciesFirst.readFromPolicies {roles ps : List Bytes} {v p : Bytes} (h : PoliciesFirst l)
    (hv : extensionValue der oidCertificatePolicies = some v) (hps : policiesOf v = some ps)
    (hp : p ∈ ps) (hrole : p ∈ roles) : ReadFromPolicies l roles := by
  obtain ⟨x, front, extn, v', hat, hextn, hoid, hnone⟩ := h
  have hearlier : ∀ j < front.length, extensionTurn oidCertificatePolicies (der.drop j) = .next :=
    fun j hj => extensionTurn_eq_next.mpr (hnone j hj)
  obtain ⟨rest, hdrop⟩ := hat.drop_eq
  obtain ⟨i, hi⟩ := scan_eq_some_iff.mp hv
  have hroom : oidCertificatePolicies.length < (der.drop front.length).length := by
    have := hextn.length
    rw [hdrop, List.length_append]
    show 5 < _
    omega
  -- The search stops at the extension, so it is there that it has found `v`.
  rcases extensionTurn_policies hextn hoid rest with hdone | hdone
  · rw [← hdrop] at hdone
    obtain ⟨rfl, heq⟩ := hi.unique ⟨hearlier, hdone, hroom⟩
    cases heq
    exact ⟨x, front, extn, v, p, hat, hextn, policyIn_of_mem hps hp, hrole, hi⟩
  · rw [← hdrop] at hdone
    obtain ⟨-, heq⟩ := hi.unique ⟨hearlier, hdone, hroom⟩
    cases heq

end Layout

variable {E : EcLib}

/-- A role reader that answers `true` has read the role in the value the search finds. -/
theorem readFromPolicies_iff {c : Certificate E} (l : Layout c.der) {roles ps : List Bytes}
    {p : Bytes} (hps : c.certificatePolicies = some ps) (hp : p ∈ ps) (hrole : p ∈ roles) :
    ReadFromPolicies l roles ↔ PoliciesFirst l := by
  obtain ⟨v, hv, hps⟩ := Option.bind_eq_some_iff.mp hps
  exact ⟨ReadFromPolicies.first, fun h => h.readFromPolicies hv hps hp hrole⟩

/-- `rsp_roles` leaves every server role in. -/
theorem isServerCertificateRole_iff {c : Certificate E} :
    c.isServerCertificateRole = some true ↔
      ∃ ps, c.certificatePolicies = some ps ∧ ∃ p ∈ ps, p ∈ serverRoleOids := by
  simp only [Certificate.isServerCertificateRole, Certificate.rspRoles, Option.bind_eq_bind,
    Option.bind_eq_some_iff, Option.some.injEq, List.any_eq_true]
  constructor
  · rintro ⟨_, ⟨ps, hps, rfl⟩, p, hp, hrole⟩
    refine ⟨ps, hps, p, (List.mem_filter.mp hp).1, ?_⟩
    simpa [serverRoleOids, or_assoc] using hrole
  · rintro ⟨ps, hps, p, hp, hrole⟩
    refine ⟨_, ⟨ps, hps, rfl⟩, p, ?_, ?_⟩
    · apply List.mem_filter.mpr
      exact ⟨hp, by simpa using mem_rspRoleOids_of_server hrole⟩
    · simpa [serverRoleOids, or_assoc] using hrole

theorem indicatesDpPbRole_iff {c : Certificate E} :
    c.indicatesDpPbRole = some true ↔
      ∃ ps, c.certificatePolicies = some ps ∧ ∃ p ∈ ps, p ∈ dpPbRoleOids := by
  simp only [Certificate.indicatesDpPbRole, Option.bind_eq_bind, Option.bind_eq_some_iff,
    Option.some.injEq, List.any_eq_true]
  simp [dpPbRoleOids]

/-- **Where a role comes from.** A certificate that is taken to have a role has it from its
`certificatePolicies` extension exactly when nothing in front of that extension stops the search
for it, and then the extension grants the role. -/
theorem role_from_policies_iff {webpki : Bytes → Bool} {der : Bytes} {c : Certificate E}
    (hc : Certificate.fromDer webpki der = .ok c) :
    ∃ l : Layout der,
      (c.isServerCertificateRole = some true →
        (ReadFromPolicies l serverRoleOids ↔ PoliciesFirst l) ∧
          (PoliciesFirst l → GrantedByPolicies l serverRoleOids)) ∧
      (c.indicatesDpPbRole = some true →
        (ReadFromPolicies l dpPbRoleOids ↔ PoliciesFirst l) ∧
          (PoliciesFirst l → GrantedByPolicies l dpPbRoleOids)) := by
  obtain ⟨rfl, -⟩ := Certificate.fromDer_eq_ok.mp hc
  obtain ⟨l, -⟩ := c.exists_layout
  refine ⟨l, ?_, ?_⟩
  · intro h
    obtain ⟨ps, hps, p, hp, hrole⟩ := isServerCertificateRole_iff.mp h
    have hiff := readFromPolicies_iff l hps hp hrole
    exact ⟨hiff, fun hfirst => (hiff.mpr hfirst).granted⟩
  · intro h
    obtain ⟨ps, hps, p, hp, hrole⟩ := indicatesDpPbRole_iff.mp h
    have hiff := readFromPolicies_iff l hps hp hrole
    exact ⟨hiff, fun hfirst => (hiff.mpr hfirst).granted⟩

/-- The content of the `certificatePolicies` extension of `fullFields`. -/
def fullPolicies : Bytes := oidCertificatePolicies ++ encode 0x04 (policiesValue oidRspRoleDpAuth)

def fullLayout : Layout fullFields.encode := fullFields.layout (by decide +kernel)

/-- The extensions of `fullFields`. -/
def fullExtensions : Extensions fullLayout :=
  let items : List (UInt8 × Bytes) :=
    [(0x30, oidSubjectAltName ++ encode 0x04 (encode 0x30 (encode 0x88 [0x83, 0x37, 0x81, 0x67]))),
      (0x30, oidSubjectKeyIdentifier ++ encode 0x04 (encode 0x04 [0x01, 0x02, 0x03, 0x04])),
      (0x30, oidAuthorityKeyIdentifier ++
        encode 0x04 (encode 0x30 (encode 0x80 [0x05, 0x06, 0x07, 0x08]))),
      (0x30, fullPolicies)]
  { before := fullFields.members.dropLast
    later := []
    content := encode 0x30 (encodeAll items)
    seq := encodeAll items
    items
    members_eq := by decide +kernel
    content_isTlv := isTlv_encode 0x30 (by decide +kernel)
    items_seq := tlvSeq_encodeAll (by decide +kernel) }

theorem policiesFirst_full : PoliciesFirst fullLayout := by
  have hheader : ∀ (tag : UInt8) (n : Nat), n < 2 ^ 32 → IsHeader tag n (tag :: lengthOctets n) :=
    fun tag n h => ⟨_, lengthOctets_spec h, rfl⟩
  refine ⟨fullExtensions, fullFields.encode.take 235, fullPolicies, policiesValue oidRspRoleDpAuth,
    ⟨fullExtensions.items.take 3, [], _, _, encodeAll fullExtensions.before, _, _,
      encodeAll (fullExtensions.items.take 3), _, [], by decide +kernel,
      tlvSeq_encodeAll (by decide +kernel), tlvSeq_encodeAll (by decide +kernel),
      hheader _ _ (by decide +kernel), hheader _ _ (by decide +kernel),
      hheader _ _ (by decide +kernel), hheader _ _ (by decide +kernel),
      hheader _ _ (by decide +kernel), by decide +kernel, by decide +kernel⟩,
    ⟨_, _, isTlv_oidCertificatePolicies, isTlv_encode 0x04 (by decide), .inl rfl⟩,
    List.prefix_append _ _, ?_⟩
  have hearlier : ∀ t ∈ fullFields.encode.tails, extensionTurn oidCertificatePolicies t = .next ∨
      t.length + 235 ≤ fullFields.encode.length := by
    decide +kernel
  intro j hj
  rw [List.length_take] at hj
  exact extensionTurn_eq_next.mp (forall_lt_drop hearlier j (by omega))

theorem role_from_policies_iff_full :
    PoliciesFirst fullLayout ∧ GrantedByPolicies fullLayout serverRoleOids := by
  obtain ⟨l, hserver, -⟩ := role_from_policies_iff fromDer_full
  obtain rfl := Subsingleton.elim l fullLayout
  exact ⟨policiesFirst_full, (hserver (by decide +kernel)).2 policiesFirst_full⟩

/-- `serverFields` issued by a name with an attribute that looks like a `certificatePolicies`
extension. -/
def policiesInName : CertFields :=
  { serverFields with
    issuer := [encode 0x30
      (oidCertificatePolicies ++ encode 0x04 (policiesValue oidRspRoleDpAuthV2))] }

/-- The certificate has no extensions, and is taken for a server certificate. -/
theorem role_from_name : ∃ c : Certificate (.ofTable []),
    Certificate.fromDer (fun _ => false) policiesInName.encode = .ok c ∧
      c.isServerCertificateRole = some true ∧
      ∀ l : Layout policiesInName.encode, ¬ GrantedByPolicies l serverRoleOids := by
  refine ⟨⟨policiesInName.encode, { curve := .p256, point := serverPoint }, false,
    by decide +kernel⟩, Certificate.fromDer_eq_ok.mpr ⟨rfl, rfl⟩, by decide +kernel, ?_⟩
  rintro l ⟨x, -⟩
  have hmembers : l.members = policiesInName.members := by
    rw [Subsingleton.elim l (policiesInName.layout (by decide +kernel))]
    rfl
  have hmem : (0xa3, x.content) ∈ policiesInName.members := by
    rw [← hmembers, x.members_eq]
    simp
  have htags : (0xa3 : UInt8) ∉ policiesInName.members.map Prod.fst := by decide +kernel
  exact htags (List.mem_map_of_mem hmem)

end X509
end EuiccCrypto
