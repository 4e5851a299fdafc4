import EuiccCrypto.Lib.Search
import EuiccCrypto.X509

/-!
# The readers of names, identifiers and roles

The readers of `x509.rs` that search the DER of a certificate for an OID. Their loops over
`der[i..]` are searches (`Search.scan`): `serialTurn` and `extensionTurn` are the bodies of the
two loops, on the suffix the loop has arrived at: `atPattern` is `starts_with` and the `i += 1` that
goes with it. Where the source leaves the function with `?`, the body stops the search.
-/

namespace EuiccCrypto
namespace X509

open Octets Search

/-! ### Short-form elements -/

/-- `read_tlv_consumed`: read one TLV with a short-form length, also returning how many bytes
it occupied. -/
def readTlvConsumed (buf : Bytes) : Option (UInt8 × Bytes × Nat) := do
  let tag ← buf[0]?
  let len ← buf[1]?
  if len.toNat > 0x7F then none
  else
    let stop := 2 + len.toNat
    if stop > buf.length then none else some (tag, (buf.drop 2).take len.toNat, stop)

/-- `read_tlv_consumed_checked`: like `read_tlv_consumed`, with an error in place of `None`. -/
def readTlvConsumedChecked (buf : Bytes) : Exec (UInt8 × Bytes × Nat) := do
  let tag ← Exec.okOr (.certificate "truncated") buf[0]?
  let len ← Exec.okOr (.certificate "truncated") buf[1]?
  if len.toNat > 0x7F then .err (.certificate "long-form length")
  else
    let stop := 2 + len.toNat
    if stop > buf.length then .err (.certificate "truncated value")
    else .ok (tag, (buf.drop 2).take len.toNat, stop)

/-- `Certificate::read_tlv`: read one TLV from the front of `buf`. -/
def readShortTlv (buf : Bytes) : Option (UInt8 × Bytes) := do
  let (tag, content, _) ← readTlvConsumed buf
  some (tag, content)

/-- `unwrap_sequence`: the content of the SEQUENCE `buf` starts with. -/
def unwrapSequence (buf : Bytes) : Option Bytes := do
  let (tag, content) ← readShortTlv buf
  if tag = 0x30 then some content else none

/-! ### The searches -/

def oidSerialNumber : Bytes := [0x06, 0x03, 0x55, 0x04, 0x05]
def oidSubjectAltName : Bytes := [0x06, 0x03, 0x55, 0x1D, 0x11]
def oidSubjectKeyIdentifier : Bytes := [0x06, 0x03, 0x55, 0x1D, 0x0E]
def oidAuthorityKeyIdentifier : Bytes := [0x06, 0x03, 0x55, 0x1D, 0x23]
def oidCertificatePolicies : Bytes := [0x06, 0x03, 0x55, 0x1D, 0x20]

/-- What `subject_serial_number` does with the octets after an occurrence of the OID. -/
def serialAfter : Bytes → Turn Bytes
  | [] => .done none
  | tag :: rest =>
    if tag ≠ 0x13 ∧ tag ≠ 0x0C then .next
    else
      match rest with
      | [] => .done none
      | len :: value =>
        if len.toNat > 0x7F then .next
        else if len.toNat ≤ value.length then .done (some (value.take len.toNat))
        else .next

/-- One turn of the loop of `subject_serial_number`. -/
def serialTurn : Bytes → Turn Bytes := atPattern oidSerialNumber serialAfter

/-- What is left of an extension after `critical`, which is skipped if it is there; `none` where
the source returns. -/
def skipCritical (rest : Bytes) : Option Bytes :=
  match rest with
  | [] => none
  | b :: after =>
    if b = 0x01 then
      match after with
      | [] => none
      | len :: content => if len.toNat > 0x7F then none else some (content.drop len.toNat)
    else some rest

/-- What `extension_value` does with the octets from the extnValue on. -/
def extnValueTurn : Bytes → Turn Bytes
  | [] => .done none
  | tag :: rest =>
    if tag ≠ 0x04 then .next
    else
      match rest with
      | [] => .done none
      | len :: value =>
        if len.toNat > 0x7F then .done none
        else if len.toNat ≤ value.length then .done (some (value.take len.toNat))
        else .next

/-- What `extension_value` does with the octets after an occurrence of the OID. -/
def extensionAfter (t : Bytes) : Turn Bytes :=
  match skipCritical t with
  | none => .done none
  | some rest => extnValueTurn rest

/-- One turn of the loop of `extension_value`. -/
def extensionTurn (oid : Bytes) : Bytes → Turn Bytes := atPattern oid extensionAfter

/-- `extension_value`: the `extnValue` octet string of the extension carrying `oid`. -/
def extensionValue (der oid : Bytes) : Option Bytes := scan oid.length (extensionTurn oid) der

/-! ### What is read out of an extension -/

/-- The loop of `authority_key_identifier`, with the number of turns it has left. -/
def keyIdentifierLoop : Nat → Bytes → Option Bytes
  | turns, rest =>
    if rest.isEmpty then none
    else
      match turns with
      | 0 => none
      | turns + 1 => do
        let (tag, content, consumed) ← readTlvConsumed rest
        if tag = 0x80 then some content else keyIdentifierLoop turns (rest.drop consumed)

/-- What one PolicyInformation adds to the policies: its OID, if it starts with one. -/
def policyOfInfo (info : Bytes) : List Bytes :=
  match (readTlvConsumedChecked info).ok? with
  | some (oidTag, oidContent, _) => if oidTag = 0x06 then [oidContent] else []
  | none => []

/-- The loop of `certificate_policies`, with the number of turns it has left. -/
def policiesLoop : Nat → Bytes → List Bytes → List Bytes
  | turns, rest, out =>
    if rest.isEmpty then out
    else
      match turns with
      | 0 => out
      | turns + 1 =>
        match (readTlvConsumedChecked rest).ok? with
        | none => out
        | some (tag, info, consumed) =>
          policiesLoop turns (rest.drop consumed)
            (if tag ≠ 0x30 then out else out ++ policyOfInfo info)

/-- The first GeneralName of a `subjectAltName` value. -/
def altNameOf (ext : Bytes) : Option Bytes := do
  let inner ← unwrapSequence ext
  if inner.isEmpty then none
  else do
    let (_, content) ← readShortTlv inner
    some content

/-- The identifier in a `subjectKeyIdentifier` value. -/
def subjectKeyIdOf (ext : Bytes) : Option Bytes := do
  let (tag, keyId) ← readShortTlv ext
  if tag ≠ 0x04 then none else some keyId

/-- The `keyIdentifier` of an `authorityKeyIdentifier` value. -/
def authorityKeyIdOf (ext : Bytes) : Option Bytes := do
  let seq ← unwrapSequence ext
  keyIdentifierLoop seq.length seq

/-- The policy OIDs of a `certificatePolicies` value. -/
def policiesOf (ext : Bytes) : Option (List Bytes) := do
  let list ← unwrapSequence ext
  some (policiesLoop list.length list [])

/-! ### The role OIDs -/

def oidRspRoleCi : Bytes := [0x67, 0x81, 0x12, 0x01, 0x02, 0x01, 0x00]
def oidRspRoleCiSubCa : Bytes := [0x67, 0x81, 0x12, 0x01, 0x02, 0x01, 0x00, 0x00]
def oidRspRoleEum : Bytes := [0x67, 0x81, 0x12, 0x01, 0x02, 0x01, 0x00, 0x00, 0x00]
def oidRspRoleEumSubCa : Bytes := [0x67, 0x81, 0x12, 0x01, 0x02, 0x01, 0x00, 0x00, 0x00, 0x00]
def oidRspRoleEuicc : Bytes :=
  [0x67, 0x81, 0x12, 0x01, 0x02, 0x01, 0x00, 0x00, 0x00, 0x00, 0x00]
def oidRspRoleDpSubCa : Bytes := [0x67, 0x81, 0x12, 0x01, 0x02, 0x01, 0x00, 0x00, 0x01]
def oidRspRoleDpTls : Bytes := [0x67, 0x81, 0x12, 0x01, 0x02, 0x01, 0x00, 0x00, 0x01, 0x00]
def oidRspRoleDpAuth : Bytes := [0x67, 0x81, 0x12, 0x01, 0x02, 0x01, 0x00, 0x00, 0x01, 0x01]
def oidRspRoleDpPb : Bytes := [0x67, 0x81, 0x12, 0x01, 0x02, 0x01, 0x00, 0x00, 0x01, 0x02]
def oidRspRoleDsSubCa : Bytes := [0x67, 0x81, 0x12, 0x01, 0x02, 0x01, 0x00, 0x00, 0x02]
def oidRspRoleDsTls : Bytes := [0x67, 0x81, 0x12, 0x01, 0x02, 0x01, 0x00, 0x00, 0x02, 0x00]
def oidRspRoleDsAuth : Bytes := [0x67, 0x81, 0x12, 0x01, 0x02, 0x01, 0x00, 0x00, 0x02, 0x01]
def oidRspRoleEuiccV2 : Bytes := [0x67, 0x81, 0x12, 0x01, 0x02, 0x01, 0x01]
def oidRspRoleEumV2 : Bytes := [0x67, 0x81, 0x12, 0x01, 0x02, 0x01, 0x02]
def oidRspRoleDpTlsV2 : Bytes := [0x67, 0x81, 0x12, 0x01, 0x02, 0x01, 0x03]
def oidRspRoleDpAuthV2 : Bytes := [0x67, 0x81, 0x12, 0x01, 0x02, 0x01, 0x04]
def oidRspRoleDpPbV2 : Bytes := [0x67, 0x81, 0x12, 0x01, 0x02, 0x01, 0x05]
def oidRspRoleDsTlsV2 : Bytes := [0x67, 0x81, 0x12, 0x01, 0x02, 0x01, 0x06]
def oidRspRoleDsAuthV2 : Bytes := [0x67, 0x81, 0x12, 0x01, 0x02, 0x01, 0x07]

/-- `RSP_ROLE_OIDS`: every role OID the specification defines, both arc sets. -/
def rspRoleOids : List Bytes :=
  [oidRspRoleCi, oidRspRoleCiSubCa, oidRspRoleEum, oidRspRoleEumSubCa, oidRspRoleEuicc,
    oidRspRoleDpSubCa, oidRspRoleDpTls, oidRspRoleDpAuth, oidRspRoleDpPb, oidRspRoleDsSubCa,
    oidRspRoleDsTls, oidRspRoleDsAuth, oidRspRoleEuiccV2, oidRspRoleEumV2, oidRspRoleDpTlsV2,
    oidRspRoleDpAuthV2, oidRspRoleDpPbV2, oidRspRoleDsTlsV2, oidRspRoleDsAuthV2]

/-- The roles `is_server_certificate_role` looks for. -/
def serverRoleOids : List Bytes :=
  [oidRspRoleDpAuth, oidRspRoleDpAuthV2, oidRspRoleDsAuth, oidRspRoleDsAuthV2]

/-- The roles `indicates_dp_pb_role` looks for. -/
def dpPbRoleOids : List Bytes := [oidRspRoleDpPb, oidRspRoleDpPbV2]

theorem mem_rspRoleOids_of_server {p : Bytes} (h : p ∈ serverRoleOids) : p ∈ rspRoleOids := by
  revert p
  decide

/-! ### The readers -/

namespace Certificate

variable {E : EcLib} (c : Certificate E)

/-- `Certificate::extension_value`. -/
def extensionValue (oid : Bytes) : Option Bytes := X509.extensionValue c.der oid

/-- `subject_serial_number`: the `serialNumber` attribute of the subject. -/
def subjectSerialNumber : Option Bytes := scan oidSerialNumber.length serialTurn c.der

/-- `subject_alt_name`: the content of the first name in `subjectAltName`. -/
def subjectAltName : Option Bytes := do altNameOf (← c.extensionValue oidSubjectAltName)

/-- `subject_key_identifier`. -/
def subjectKeyIdentifier : Option Bytes := do
  subjectKeyIdOf (← c.extensionValue oidSubjectKeyIdentifier)

/-- `authority_key_identifier`. -/
def authorityKeyIdentifier : Option Bytes := do
  authorityKeyIdOf (← c.extensionValue oidAuthorityKeyIdentifier)

/-- `certificate_policies`: the policy OIDs in the `certificatePolicies` extension. -/
def certificatePolicies : Option (List Bytes) := do
  policiesOf (← c.extensionValue oidCertificatePolicies)

/-- `rsp_roles`: the role OIDs among the policies. -/
def rspRoles : Option (List Bytes) := do
  let policies ← c.certificatePolicies
  some (policies.filter fun p => rspRoleOids.any fun r => r == p)

/-- `is_server_certificate_role`: whether a DPauth or DSauth role is among the roles. -/
def isServerCertificateRole : Option Bool := do
  let roles ← c.rspRoles
  some (roles.any fun r => r == oidRspRoleDpAuth || r == oidRspRoleDpAuthV2 ||
    r == oidRspRoleDsAuth || r == oidRspRoleDsAuthV2)

/-- `indicates_dp_pb_role`: whether a Profile Package Binding role is among the policies. -/
def indicatesDpPbRole : Option Bool := do
  let policies ← c.certificatePolicies
  some (policies.any fun p => p == oidRspRoleDpPb || p == oidRspRoleDpPbV2)

end Certificate

end X509
end EuiccCrypto
