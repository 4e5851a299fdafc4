import EuiccCrypto.X509.Roles

/-!
# Reading a policy list

What the short-form reader reads at an element in DER, and what `certificate_policies` and
`rsp_roles` read out of a `certificatePolicies` value in DER: `certificatePolicies_exact`.
-/

namespace EuiccCrypto
namespace X509

open Octets Tlv Search

/-! ### Short-form elements in DER -/

theorem readShortTlv_encode {tag : UInt8} {val : Bytes} (h : val.length ≤ 0x7F) :
    readShortTlv (encode tag val) = some (tag, val) := by
  rw [readShortTlv, readTlvConsumed_encode_self h]
  rfl

theorem unwrapSequence_encode {val : Bytes} (h : val.length ≤ 0x7F) :
    unwrapSequence (encode 0x30 val) = some val := by
  rw [unwrapSequence, readShortTlv_encode h]
  rfl

/-- A SEQUENCE is unwrapped when its length is in the short form. -/
theorem unwrapSequence_eq_some_iff {buf content : Bytes} :
    unwrapSequence buf = some content ↔
      content.length ≤ 0x7F ∧ ∃ rest, buf = encode 0x30 content ++ rest := by
  constructor
  · intro h
    simp only [unwrapSequence, readShortTlv, Option.bind_eq_bind, Option.bind_eq_some_iff,
      Prod.exists, Option.some.injEq, Prod.mk.injEq, Option.ite_none_right_eq_some] at h
    obtain ⟨_, _, ⟨tag, c, used, hread, rfl, rfl⟩, rfl, rfl⟩ := h
    obtain ⟨hshort, -, hbuf⟩ := readTlvConsumed_eq_some_iff.mp hread
    exact ⟨hshort, hbuf⟩
  · rintro ⟨hlen, rest, rfl⟩
    rw [unwrapSequence, readShortTlv, readTlvConsumed_encode hlen]
    rfl

/-! ### PolicyInformation

The loop over the policies reads an element in short form, and in it the identifier; the
qualifiers behind the identifier are not looked at. `policiesLoop_flatMap` goes through a list in
DER by induction, and collects every identifier in its place. -/

/-- A PolicyInformation: the OID content and whatever qualifiers follow it. -/
structure PolicyInformation where
  oid : Bytes
  qualifiers : Bytes

/-- The PolicyInformation in DER. -/
def PolicyInformation.encode (p : PolicyInformation) : Bytes :=
  Tlv.encode 0x30 (Tlv.encode 0x06 p.oid ++ p.qualifiers)

/-- The `certificatePolicies` value with the given entries, in DER. -/
def policiesSequence (ps : List PolicyInformation) : Bytes :=
  Tlv.encode 0x30 (ps.flatMap PolicyInformation.encode)

theorem policyOfInfo_encode {oid : Bytes} (h : oid.length ≤ 0x7F) (qualifiers : Bytes) :
    policyOfInfo (Tlv.encode 0x06 oid ++ qualifiers) = [oid] := by
  rw [policyOfInfo, readTlvConsumedChecked_ok?, readTlvConsumed_encode h]
  rfl

/-- The loop takes one entry off in each turn, and collects its OID. -/
theorem policiesLoop_flatMap {ps : List PolicyInformation} {turns : Nat} {out : List Bytes}
    (hturns : (ps.flatMap PolicyInformation.encode).length ≤ turns)
    (hshort : (ps.flatMap PolicyInformation.encode).length ≤ 0x7F) :
    policiesLoop turns (ps.flatMap PolicyInformation.encode) out =
      out ++ ps.map PolicyInformation.oid := by
  induction ps generalizing turns out with
  | nil => cases turns <;> simp [policiesLoop]
  | cons p ps ih =>
      rw [List.flatMap_cons, List.length_append] at hturns hshort
      have hinfo := length_lt_length_encode 0x30 (Tlv.encode 0x06 p.oid ++ p.qualifiers)
      have hoid := length_lt_length_encode 0x06 p.oid
      rw [List.length_append] at hinfo
      have hp : p.encode = Tlv.encode 0x30 (Tlv.encode 0x06 p.oid ++ p.qualifiers) := rfl
      rw [← hp] at hinfo
      obtain ⟨turns, rfl⟩ : ∃ k, turns = k + 1 := ⟨turns - 1, by omega⟩
      have hne : ¬ (p.encode ++ ps.flatMap PolicyInformation.encode).isEmpty := by
        rw [List.isEmpty_iff, List.append_eq_nil_iff]
        exact fun h => absurd (congrArg List.length h.1) (by simp only [List.length_nil]; omega)
      have hread : readTlvConsumed (p.encode ++ ps.flatMap PolicyInformation.encode) =
          some (0x30, Tlv.encode 0x06 p.oid ++ p.qualifiers, p.encode.length) :=
        readTlvConsumed_encode (by rw [List.length_append]; omega) _
      rw [List.flatMap_cons, policiesLoop, if_neg hne, readTlvConsumedChecked_ok?, hread]
      simp only [List.drop_left]
      rw [ih (by omega) (by omega), if_neg (by decide), policyOfInfo_encode (by omega)]
      simp

theorem policiesOf_policiesSequence {ps : List PolicyInformation}
    (h : (policiesSequence ps).length ≤ 0x7F) :
    policiesOf (policiesSequence ps) = some (ps.map PolicyInformation.oid) := by
  have hlt := length_lt_length_encode 0x30 (ps.flatMap PolicyInformation.encode)
  have hseq : policiesSequence ps = Tlv.encode 0x30 (ps.flatMap PolicyInformation.encode) := rfl
  rw [← hseq] at hlt
  rw [policiesOf, hseq, unwrapSequence_encode (by omega)]
  exact congrArg some (policiesLoop_flatMap Nat.le.refl (by omega))

/-! ### Policies that can be read

Between no policies and policies that cannot be read the readers do tell: `some []` and `none`.
The value has to be found, and has to start with a SEQUENCE in short form. -/

/-- `der` has the OID of `certificatePolicies` with a value that starts with a SEQUENCE of at most 127
octets, and no place in front of it where the search stops. -/
def PoliciesReadable (der : Bytes) : Prop :=
  ∃ i v list rest, HasValue oidCertificatePolicies (der.drop i) v ∧
    (∀ j < i, ¬ StopsAt oidCertificatePolicies (der.drop j)) ∧
    v = encode 0x30 list ++ rest ∧ list.length ≤ 0x7F

variable {E : EcLib}

theorem certificatePolicies_ne_none_iff {c : Certificate E} :
    c.certificatePolicies ≠ none ↔ PoliciesReadable c.der := by
  rw [Option.ne_none_iff_exists']
  constructor
  · rintro ⟨ps, h⟩
    obtain ⟨v, hv, hps⟩ := Option.bind_eq_some_iff.mp h
    obtain ⟨i, hi⟩ := scan_eq_some_iff.mp hv
    obtain ⟨list, hlist, -⟩ := Option.bind_eq_some_iff.mp hps
    obtain ⟨hlen, rest, rfl⟩ := unwrapSequence_eq_some_iff.mp hlist
    obtain ⟨hvalue, hearlier⟩ := settlesAt_extension_iff.mp hi
    exact ⟨i, _, list, rest, hvalue, hearlier, rfl, hlen⟩
  · rintro ⟨i, v, list, rest, hi, hearlier, hv, hlen⟩
    have hvalue : c.extensionValue oidCertificatePolicies = some v :=
      (settlesAt_extension_iff.mpr ⟨hi, hearlier⟩).scan_eq
    have hlist : unwrapSequence v = some list := unwrapSequence_eq_some_iff.mpr ⟨hlen, rest, hv⟩
    refine ⟨policiesLoop list.length list [], ?_⟩
    rw [Certificate.certificatePolicies, hvalue, Option.bind_eq_bind, Option.bind_some, policiesOf,
      hlist, Option.bind_eq_bind, Option.bind_some]

/-- The role is answered exactly when the policies are read. -/
theorem indicatesDpPbRole_eq_none_iff {c : Certificate E} :
    c.indicatesDpPbRole = none ↔ ¬ PoliciesReadable c.der := by
  rw [← certificatePolicies_ne_none_iff, not_not, Certificate.indicatesDpPbRole]
  cases c.certificatePolicies <;> simp

/-- **A policy list is read as it is.** The policies are the OIDs of the entries in order, the
roles are those of them that are role OIDs, and a role is found as often as its own OID is there. -/
theorem certificatePolicies_exact {c : Certificate E} {ps : List PolicyInformation}
    (hlen : (policiesSequence ps).length ≤ 127)
    (hvalue : c.extensionValue oidCertificatePolicies = some (policiesSequence ps)) :
    c.certificatePolicies = some (ps.map PolicyInformation.oid) ∧
    ∃ roles, c.rspRoles = some roles ∧
      roles = (ps.map PolicyInformation.oid).filter (· ∈ rspRoleOids) ∧
      ∀ role ∈ rspRoleOids, roles.count role = (ps.map PolicyInformation.oid).count role := by
  have hpolicies : c.certificatePolicies = some (ps.map PolicyInformation.oid) := by
    rw [Certificate.certificatePolicies, hvalue]
    exact policiesOf_policiesSequence hlen
  have htest : (fun p => rspRoleOids.any fun r => r == p) = fun p => decide (p ∈ rspRoleOids) := by
    funext p
    rw [Bool.eq_iff_iff]
    simp
  refine ⟨hpolicies, _, ?_, rfl, ?_⟩
  · rw [Certificate.rspRoles, hpolicies, htest]
    rfl
  · intro role hrole
    exact List.count_filter (by simpa using hrole)

/-- Three policies: a role with a qualifier, an OID that extends that of the role, and the role once
more. -/
def threePolicies : List PolicyInformation :=
  [⟨oidRspRoleDpAuth, encode 0x30 (encode 0x0c "policy".toUTF8.toList)⟩,
    ⟨oidRspRoleDpAuth ++ [0x01], []⟩, ⟨oidRspRoleDpAuth, []⟩]

/-- `serverFields` with these policies. -/
def threePoliciesFields : CertFields :=
  { serverFields with
    trailing := [(0xa3, encode 0x30
      (extension oidCertificatePolicies (policiesSequence threePolicies)))] }

theorem certificatePolicies_exact_three : ∃ c : Certificate (.ofTable []),
    Certificate.fromDer (fun _ => false) threePoliciesFields.encode = .ok c ∧
      c.certificatePolicies =
        some [oidRspRoleDpAuth, oidRspRoleDpAuth ++ [0x01], oidRspRoleDpAuth] ∧
      c.rspRoles = some [oidRspRoleDpAuth, oidRspRoleDpAuth] := by
  let c : Certificate (.ofTable []) :=
    ⟨threePoliciesFields.encode, { curve := .p256, point := serverPoint }, false, by decide +kernel⟩
  have hvalue : c.extensionValue oidCertificatePolicies =
      some (policiesSequence threePolicies) := by
    decide +kernel
  obtain ⟨hpolicies, roles, hroles, rfl, -⟩ := certificatePolicies_exact (by decide +kernel) hvalue
  exact ⟨c, Certificate.fromDer_eq_ok.mpr ⟨rfl, rfl⟩, hpolicies, hroles⟩

end X509
end EuiccCrypto
