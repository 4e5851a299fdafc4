import EuiccCrypto.Sgp26.Verify
import EuiccCrypto.X509.Policies

/-!
# The role of the binding certificate

`verify` refuses a DPpb certificate whose policies it has read without finding the role, and lets
one pass whose policies it cannot read. `verify_role_iff` says when material that passes has the
role; `unreadable_accepted` is material that passes with a certificate that has no extensions.
-/

namespace EuiccCrypto
namespace Sgp26

open Octets Tlv X509

/-! ### The role in material that passes -/

variable {E : EcLib} {m : Sgp26VariantO E}

/-- What `verify` checks besides the role. -/
structure OtherChecks (m : Sgp26VariantO E) : Prop where
  pairs : CheckedPairs m (·.point = ·.point)
  euicc : m.euicc.verifySignedBy m.eum = .ok ()
  eum : m.eum.verifySignedBy m.ci = .ok ()

theorem verify_eq_ok_of_dpPb {cert : Certificate E} {k : KeyPair E} (hcert : m.dpPb = some cert)
    (hk : m.dpPbPrivate = some k) :
    m.verify = .ok () ↔ OtherChecks m ∧ cert.indicatesDpPbRole ≠ some false := by
  rw [verify_eq_ok, hcert, hk]
  constructor
  · rintro ⟨hpairs, heuicc, heum, hrole⟩
    exact ⟨⟨hpairs, heuicc, heum⟩, hrole rfl cert rfl⟩
  · rintro ⟨⟨hpairs, heuicc, heum⟩, hrole⟩
    exact ⟨hpairs, heuicc, heum, fun _ c hc => Option.some.inj hc ▸ hrole⟩

/-- **Material that passes has the role**: where the other checks are met, exactly when the policies
of the DPpb certificate can be read. Where one of them is not, the material does not pass. -/
theorem verify_role_iff {cert : Certificate E} {k : KeyPair E} (hcert : m.dpPb = some cert)
    (hk : m.dpPbPrivate = some k) :
    (OtherChecks m → ((m.verify = .ok () → cert.indicatesDpPbRole = some true) ↔
      PoliciesReadable cert.der)) ∧ (¬ OtherChecks m → m.verify ≠ .ok ()) := by
  rw [verify_eq_ok_of_dpPb hcert hk]
  refine ⟨?_, fun hfails h => hfails ((verify_eq_ok_of_dpPb hcert hk).mp h).1⟩
  intro hchecks
  constructor
  · intro h
    by_contra hunreadable
    have hnone := indicatesDpPbRole_eq_none_iff.mpr hunreadable
    -- Unreadable policies are not `some false`, so such material passes.
    have hrole := h ⟨hchecks, by simp [hnone]⟩
    simp [hnone] at hrole
  · rintro hreadable ⟨-, hrole⟩
    cases hanswer : cert.indicatesDpPbRole with
    | none => exact absurd hreadable (indicatesDpPbRole_eq_none_iff.mp hanswer)
    | some b => cases b with
      | true => rfl
      | false => exact absurd hanswer hrole

/-! ### A certificate without extensions -/

/-- A DPpb certificate with the binding role. -/
def bindingCert : Certificate chainLib where
  der := { serverFields with
    trailing := [(0xa3, encode 0x30
      (extension oidCertificatePolicies (policiesValue oidRspRoleDpPb)))] : CertFields }.encode
  publicKey := { curve := .p256, point := serverPoint }
  webpkiParsed := false
  extracted := by decide +kernel

/-- The material of the chain with a DPpb pair. -/
def bindingMaterial (cert : Certificate chainLib) : Sgp26VariantO chainLib :=
  { material serverPoint with
    dpPb := some cert, dpPbPrivate := some { curve := .p256, inner := serverPoint } }

theorem verify_role_iff_binding :
    (bindingMaterial bindingCert).verify = .ok () ∧ bindingCert.indicatesDpPbRole = some true := by
  have hverify : (bindingMaterial bindingCert).verify = .ok () := by decide +kernel
  have hreadable : PoliciesReadable bindingCert.der := by
    rw [← certificatePolicies_ne_none_iff]
    decide +kernel
  have hchecks : OtherChecks (bindingMaterial bindingCert) :=
    ((verify_eq_ok_of_dpPb rfl rfl).mp hverify).1
  exact ⟨hverify, ((verify_role_iff rfl rfl).1 hchecks).mpr hreadable hverify⟩

/-- Material that passes with a DPpb pair whose certificate indicates no role: it is the one of the
EUM, which has no extensions. -/
theorem unreadable_accepted :
    (bindingMaterial eumCert).dpPb = some eumCert ∧ (bindingMaterial eumCert).dpPbPrivate.isSome ∧
      (bindingMaterial eumCert).verify = .ok () ∧ eumCert.indicatesDpPbRole = none := by
  refine ⟨rfl, rfl, ?_⟩
  decide +kernel

end Sgp26
end EuiccCrypto
