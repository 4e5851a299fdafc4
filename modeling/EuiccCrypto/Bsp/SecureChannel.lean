import EuiccCrypto.Bsp.Keys
import EuiccCrypto.Bsp.Session
import EuiccCrypto.Ecdh

/-!
# From ephemeral keys to a session

The parts of a session in one piece: two ephemeral keys, the secret they agree on, the session keys
that are derived from it, and the segments that are protected with them. `secure_channel` says when
what one side sends arrives at the other.
-/

namespace EuiccCrypto
namespace Bsp

open Octets

/-- `is_well_formed`: whether the three keys are all `KEY_LEN`, and distinct. -/
def BspSessionKeys.isWellFormed (keys : BspSessionKeys) : Bool :=
  keys.macChaining.length == keyLen && keys.sEnc.length == keyLen && keys.sMac.length == keyLen &&
    keys.macChaining != keys.sEnc && keys.sEnc != keys.sMac && keys.macChaining != keys.sMac

section SecureChannel

variable (sha256 : Bytes → Vector UInt8 32) {L : EcdhLib}

/-- One side of the key agreement: the session keys derived from the secret it shares with the
peer. -/
def establish (own : EphemeralKey L) (peerPublic : Bytes) (keyType : BspKeyType) (keyLen : UInt8)
    (hostId eid : Bytes) : Exec BspSessionKeys := do
  let sharedSecret ← own.agree peerPublic
  BspSessionKeys.derive sha256 sharedSecret keyType keyLen hostId eid

variable {sha256}

/-- Both sides derive from one secret. -/
theorem exists_establish_eq (hL : L.Documented) {a b : EphemeralKey L} (ha : a.Generated)
    (hb : b.Generated) (keyType : BspKeyType) (len : UInt8) (hostId eid : Bytes) :
    ∃ secret, establish sha256 a b.publicKey keyType len hostId eid =
        BspSessionKeys.derive sha256 secret keyType len hostId eid ∧
      establish sha256 b a.publicKey keyType len hostId eid =
        BspSessionKeys.derive sha256 secret keyType len hostId eid := by
  obtain ⟨secret, -, hab, hba⟩ := EphemeralKey.exists_agree hL ha hb
  refine ⟨secret, ?_, ?_⟩
  · rw [establish, hab, Exec.ok_bind]
  · rw [establish, hba, Exec.ok_bind]

section Derived

variable {C : Ciphers} {keys : BspSessionKeys} {segments : List Segment}

/-- Under a chaining value of another length nothing can be sent. -/
theorem send_eq_ok_of_length_ne {chaining last : Bytes} {sent : List (Bytes × Bytes)}
    (hne : chaining.length ≠ keyLen) (h : send C keys segments chaining = (.ok sent, last)) :
    segments = [] := by
  cases segments with
  | nil => rfl
  | cons s segments =>
      obtain ⟨tlv, chaining', rest, hwrap, -, -⟩ := send_cons_eq_ok h
      exact absurd (Segment.wrap_eq_ok.mp hwrap).2.2.length_left hne

variable {secret hostId eid : Bytes} {keyType : BspKeyType} {len : UInt8}

/-- How long derived keys are. -/
theorem length_of_derive
    (h : BspSessionKeys.derive sha256 secret keyType len hostId eid = .ok keys) :
    keys.macChaining.length = len.toNat ∧ keys.sEnc.length = len.toNat ∧
      keys.sMac.length = len.toNat := by
  obtain ⟨-, info, -, hsplit⟩ := derive_eq_ok.mp h
  exact ⟨hsplit.length_macChaining, hsplit.length_sEnc, hsplit.length_sMac⟩

theorem eq_sixteen_iff : len = 16 ↔ len.toNat = keyLen := UInt8.toNat_inj.symm

/-- When something can be sent with derived keys. -/
theorem exists_send_iff_of_derive
    (h : BspSessionKeys.derive sha256 secret keyType len hostId eid = .ok keys) :
    (∃ sent last, send C keys segments keys.macChaining = (.ok sent, last)) ↔
      segments = [] ∨ len = 16 ∧ ∀ s ∈ segments, s.carriedLength + cmacLen ≤ 0xFFFF := by
  obtain ⟨hc, hEnc, hMac⟩ := length_of_derive h
  by_cases hlen : len.toNat = keyLen
  · rw [send_isOk (hEnc.trans hlen) (hMac.trans hlen) segments (hc.trans hlen), eq_sixteen_iff]
    constructor
    · intro hfits
      exact .inr ⟨hlen, hfits⟩
    · rintro (rfl | ⟨-, hfits⟩)
      · exact fun s hs => absurd hs List.not_mem_nil
      · exact hfits
  · constructor
    · intro ⟨sent, last, hsend⟩
      exact .inl (send_eq_ok_of_length_ne (hc ▸ hlen) hsend)
    · rintro (rfl | ⟨hlen', -⟩)
      · exact ⟨[], keys.macChaining, rfl⟩
      · exact absurd (eq_sixteen_iff.mp hlen') hlen

/-- What is sent with derived keys is received. -/
theorem exists_receive_of_derive
    (h : BspSessionKeys.derive sha256 secret keyType len hostId eid = .ok keys)
    (htags : ∀ s ∈ segments, IsTag s.tag) {sent : List (Bytes × Bytes)} {last : Bytes}
    (hsend : send C keys segments keys.macChaining = (.ok sent, last)) :
    ∃ received, receive C keys ((segments.zip sent).map fun p =>
        (p.1.protection, p.1.blockNumber, p.2.1)) keys.macChaining = (.ok received, last) ∧
      received.map Prod.fst = segments.map Segment.plaintext ∧
      received.map Prod.snd = sent.map Prod.snd := by
  obtain ⟨hc, hEnc, hMac⟩ := length_of_derive h
  by_cases hlen : len.toNat = keyLen
  · exact receive_send (hEnc.trans hlen) segments htags hsend
  · -- Nothing has been sent.
    obtain rfl := send_eq_ok_of_length_ne (hc ▸ hlen) hsend
    cases hsend
    exact ⟨[], rfl, rfl, rfl⟩

end Derived

/-- **From ephemeral keys to a session.** Two parties that exchange their public points derive the
same session keys or fail alike; they succeed for identifiers of at most 255 octets and key lengths
from 1 to 96. What one then sends, the other receives, with the chaining values, whatever AES and
CMAC are; and something can be sent exactly with keys of 16 octets, as well-formed keys have. -/
theorem secure_channel (hL : L.Documented) {a b : EphemeralKey L} (ha : a.Generated)
    (hb : b.Generated) (keyType : BspKeyType) (len : UInt8) (hostId eid : Bytes) :
    establish sha256 a b.publicKey keyType len hostId eid =
      establish sha256 b a.publicKey keyType len hostId eid ∧
    ((∃ keys, establish sha256 a b.publicKey keyType len hostId eid = .ok keys) ↔
      hostId.length ≤ 255 ∧ eid.length ≤ 255 ∧ 1 ≤ len.toNat ∧ len.toNat ≤ 96) ∧
    ∀ keys, establish sha256 a b.publicKey keyType len hostId eid = .ok keys →
      (keys.isWellFormed = true → len = 16) ∧
      ∀ (C : Ciphers) (segments : List Segment), (∀ s ∈ segments, IsTag s.tag) →
        ((∃ sent last, send C keys segments keys.macChaining = (.ok sent, last)) ↔
          segments = [] ∨ len = 16 ∧ ∀ s ∈ segments, s.carriedLength + cmacLen ≤ 0xFFFF) ∧
        ∀ sent last, send C keys segments keys.macChaining = (.ok sent, last) →
          ∃ received, receive C keys ((segments.zip sent).map fun p =>
              (p.1.protection, p.1.blockNumber, p.2.1)) keys.macChaining = (.ok received, last) ∧
            received.map Prod.fst = segments.map Segment.plaintext ∧
            received.map Prod.snd = sent.map Prod.snd := by
  obtain ⟨secret, ha', hb'⟩ := @exists_establish_eq sha256 _ hL _ _ ha hb keyType len hostId eid
  rw [ha', hb']
  refine ⟨rfl, exists_derive_iff, ?_⟩
  intro keys hkeys
  refine ⟨?_, ?_⟩
  · intro hwell
    simp only [BspSessionKeys.isWellFormed, Bool.and_eq_true, beq_iff_eq] at hwell
    rw [eq_sixteen_iff, ← (length_of_derive hkeys).1]
    exact hwell.1.1.1.1.1
  · intro C segments htags
    refine ⟨exists_send_iff_of_derive hkeys, ?_⟩
    intro sent last hsend
    exact exists_receive_of_derive hkeys htags hsend

end SecureChannel

/-! ### Two keys -/

/-- The public points of two private keys. -/
def samplePoint : Fin 2 → Bytes
  | 0 =>
    [0x04, 0x60, 0xfe, 0xd4, 0xba, 0x25, 0x5a, 0x9d, 0x31, 0xc9, 0x61, 0xeb, 0x74, 0xc6, 0x35,
     0x6d, 0x68, 0xc0, 0x49, 0xb8, 0x92, 0x3b, 0x61, 0xfa, 0x6c, 0xe6, 0x69, 0x62, 0x2e, 0x60,
     0xf2, 0x9f, 0xb6, 0x79, 0x03, 0xfe, 0x10, 0x08, 0xb8, 0xbc, 0x99, 0xa4, 0x1a, 0xe9, 0xe9,
     0x56, 0x28, 0xbc, 0x64, 0xf2, 0xf1, 0xb2, 0x0c, 0x2d, 0x7e, 0x9f, 0x51, 0x77, 0xa3, 0xc2,
     0x94, 0xd4, 0x46, 0x22, 0x99]
  | 1 =>
    [0x04, 0x49, 0x26, 0x97, 0xeb, 0x6e, 0xe8, 0x66, 0x24, 0x94, 0x34, 0x56, 0x60, 0xfc, 0x8d,
     0xdf, 0xc7, 0x22, 0x32, 0x71, 0xcd, 0x9e, 0xf7, 0x84, 0x59, 0xc5, 0x6c, 0xeb, 0xad, 0x11,
     0xe9, 0x21, 0x91, 0xc1, 0xa8, 0x96, 0x49, 0x1c, 0x5f, 0xed, 0xc9, 0x05, 0xb6, 0x52, 0x43,
     0xa6, 0x3f, 0x46, 0xc4, 0xd7, 0x00, 0xe7, 0x4d, 0xd6, 0x65, 0x89, 0x91, 0xc6, 0xcc, 0x0d,
     0xa7, 0xf8, 0x2d, 0x70, 0x41]

/-- The secret each agrees on with itself and with the other. -/
def sampleSecret : Fin 2 → Fin 2 → Bytes
  | 0, 0 =>
    [0x23, 0x88, 0xee, 0x99, 0x0c, 0x93, 0xc4, 0xbb, 0x75, 0x72, 0x03, 0x22, 0x5b, 0x77, 0x86,
     0xd6, 0x99, 0x50, 0xd2, 0xf0, 0xde, 0x43, 0xcd, 0xf2, 0x3d, 0xc7, 0x1f, 0x5e, 0xfa, 0xa1,
     0x69, 0xc8]
  | 1, 1 =>
    [0xc5, 0x13, 0xeb, 0x8e, 0x73, 0xa2, 0x88, 0x99, 0xe0, 0x22, 0xf6, 0x51, 0x94, 0xc9, 0x41,
     0xcb, 0x7e, 0x05, 0xfa, 0x03, 0x93, 0x24, 0xbd, 0xe3, 0xbe, 0x9f, 0x80, 0x44, 0xfd, 0xfe,
     0xe4, 0x75]
  | _, _ =>
    [0xae, 0x9a, 0x7d, 0xc9, 0xd4, 0xa1, 0x93, 0x55, 0x66, 0xd3, 0x78, 0x19, 0xaf, 0x8c, 0x3f,
     0xe5, 0x39, 0x99, 0xd4, 0x93, 0x96, 0x82, 0xed, 0x60, 0x1c, 0x98, 0xa3, 0x3a, 0xaa, 0xf4,
     0x1a, 0x8b]

/-- A library with these two keys. -/
def sampleEcdhLib : EcdhLib where
  PrivateKey := Fin 2
  computePublicKey k := some (samplePoint k)
  agreeEphemeral k point :=
    ((List.finRange 2).find? fun k' => samplePoint k' = point).map (sampleSecret k)

/-- SHA-256 of what is hashed for the keys of the session. -/
def sessionSha256 (input : Bytes) : Vector UInt8 32 :=
  if (input.drop sharedSecretLen).take 4 = [0x00, 0x00, 0x00, 0x01] then
    #v[0xaf, 0xe4, 0xbe, 0xe8, 0x61, 0x29, 0x85, 0x24, 0x2d, 0x3d, 0x2a, 0x94, 0xad, 0xd9, 0x7d,
       0x79, 0xf2, 0x92, 0x49, 0x29, 0xee, 0x01, 0x27, 0x8b, 0x7e, 0xd3, 0xa0, 0x01, 0x6a, 0x75,
       0x64, 0x51]
  else
    #v[0x5b, 0x61, 0x69, 0x58, 0x49, 0xb4, 0xe0, 0xea, 0xd9, 0xef, 0x83, 0xbb, 0x4a, 0x93, 0xfd,
       0x1b, 0xd5, 0x7a, 0x30, 0x52, 0xe2, 0x03, 0xcf, 0x3a, 0xcd, 0x81, 0xa1, 0xca, 0x62, 0xdd,
       0x7a, 0xf9]

def sampleEphemeralKey (k : Fin 2) : EphemeralKey sampleEcdhLib where
  inner := k
  publicKey := samplePoint k

def sampleEid : Bytes :=
  [0x89, 0x04, 0x90, 0x32, 0x12, 0x34, 0x51, 0x23, 0x45, 0x12, 0x34, 0x56, 0x78, 0x90, 0x12,
   0x35]

theorem secure_channel_sample :
    let establish := fun k k' : Fin 2 => establish sessionSha256 (sampleEphemeralKey k)
      (samplePoint k') .sessionKeys 16 "smdp.example.com".toUTF8.toList sampleEid
    ∃ keys, establish 0 1 = .ok keys ∧ establish 1 0 = .ok keys ∧
      ∃ sent last, send sampleCiphers keys sampleSegments keys.macChaining = (.ok sent, last) := by
  intro establish
  have hL : sampleEcdhLib.Documented := by
    refine ⟨?_, ?_⟩
    · rintro k _ ⟨⟩
      have hall : ∀ k : Fin 2, (samplePoint k).length = publicKeyLen ∧
          (samplePoint k).head? = some 0x04 := by decide +kernel
      exact hall k
    · rintro k k' _ _ ⟨⟩ ⟨⟩
      have hall : ∀ k k' : Fin 2, (sampleSecret k k').length = sharedSecretLen ∧
          sampleEcdhLib.agreeEphemeral k (samplePoint k') = some (sampleSecret k k') ∧
          sampleEcdhLib.agreeEphemeral k' (samplePoint k) = some (sampleSecret k k') := by
        decide +kernel
      exact ⟨_, hall k k'⟩
  have hgenerated : ∀ k, (sampleEphemeralKey k).Generated := fun k => ⟨some k, rfl⟩
  obtain ⟨hsame, hexists, hkeys⟩ := @secure_channel sessionSha256 _ hL _ _ (hgenerated 0)
    (hgenerated 1) .sessionKeys 16 "smdp.example.com".toUTF8.toList sampleEid
  obtain ⟨keys, hestablish⟩ := hexists.mpr (by decide +kernel)
  obtain ⟨-, hsession⟩ := hkeys keys hestablish
  exact ⟨keys, hestablish, hsame.symm.trans hestablish,
    (hsession sampleCiphers sampleSegments (by decide)).1.mpr (.inr ⟨rfl, by decide +kernel⟩)⟩

end Bsp
end EuiccCrypto
