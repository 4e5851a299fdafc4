import EuiccCrypto.Bsp
import EuiccCrypto.X963

/-!
# BSP session keys

The derivation of the session keys in `bsp_keys.rs`, over an arbitrary SHA-256. `derive_eq_ok` says
when it succeeds and which part of the key data each key is, `x963_refines` puts that on top of the
definition of the KDF, and `hashInputs_separate` says that no two derivations hash the same string.
-/

namespace EuiccCrypto
namespace Bsp

open Octets X963

/-! ### Derivation -/

/-- `keyType` values for the BSP session-key derivation. -/
inductive BspKeyType
  | sessionKeys
  | profileKeys
  deriving DecidableEq

/-- `key_type as u8`. -/
def BspKeyType.toUInt8 : BspKeyType → UInt8
  | .sessionKeys => 0x01
  | .profileKeys => 0x02

theorem BspKeyType.toUInt8_injective : Function.Injective BspKeyType.toUInt8 := by
  intro t t' h
  cases t <;> cases t' <;> first | rfl | exact absurd h (by decide)

/-- `from_key_data`: split the key data. -/
def BspSessionKeys.fromKeyData (keyData : Bytes) (keyLen : Nat) : Exec BspSessionKeys :=
  let expected := 3 * keyLen
  if keyData.length < expected then
    .err (.malformed ("KeyData is " ++ toString keyData.length ++ " bytes; three " ++
      toString keyLen ++ "-byte keys need " ++ toString expected))
  else do
    -- The MAC chaining value is first, not the cipher key.
    let macChaining ← slice keyData 0 keyLen
    let sEnc ← slice keyData keyLen (2 * keyLen)
    let sMac ← slice keyData (2 * keyLen) (3 * keyLen)
    .ok { macChaining, sEnc, sMac }

/-- `derive`: derive the three keys from the ECKA shared secret. -/
def BspSessionKeys.derive (sha256 : Bytes → Vector UInt8 32) (sharedSecret : Bytes)
    (keyType : BspKeyType) (keyLen : UInt8) (hostId eid : Bytes) : Exec BspSessionKeys := do
  let len := keyLen.toNat
  let info ← bspSharedInfo keyType.toUInt8 keyLen hostId eid
  let keyData ← x963Kdf sha256 sharedSecret info (3 * len)
  BspSessionKeys.fromKeyData keyData len

/-! ### The split -/

/-- The keys are three pieces of `keyLen` octets, in the order chaining value, S-ENC, S-MAC. -/
structure SplitInto (keys : BspSessionKeys) (keyLen : Nat) (keyData : Bytes) : Prop where
  pieces : keyData = keys.macChaining ++ keys.sEnc ++ keys.sMac
  length_macChaining : keys.macChaining.length = keyLen
  length_sEnc : keys.sEnc.length = keyLen
  length_sMac : keys.sMac.length = keyLen

/-- The three pieces of key data of the right length. -/
def cutKeys (keyData : Bytes) (keyLen : Nat) : BspSessionKeys where
  macChaining := keyData.take keyLen
  sEnc := (keyData.drop keyLen).take keyLen
  sMac := keyData.drop (2 * keyLen)

theorem splitInto_iff {keyData : Bytes} {keyLen : Nat} {keys : BspSessionKeys}
    (h : keyData.length = 3 * keyLen) :
    SplitInto keys keyLen keyData ↔ cutKeys keyData keyLen = keys := by
  constructor
  · rintro ⟨rfl, hmac, henc, -⟩
    have hpair : (keys.macChaining ++ keys.sEnc).length = 2 * keyLen := by
      rw [List.length_append, hmac, henc, Nat.two_mul]
    rw [cutKeys, List.drop_left' hpair, List.append_assoc, List.take_left' hmac,
      List.drop_left' hmac, List.take_left' henc]
  · rintro rfl
    have hrest : keyData.drop keyLen =
        (keyData.drop keyLen).take keyLen ++ keyData.drop (2 * keyLen) := by
      rw [Nat.two_mul, ← List.drop_drop, List.take_append_drop]
    refine ⟨?_, ?_, ?_, ?_⟩
    · rw [cutKeys, List.append_assoc, ← hrest, List.take_append_drop]
    all_goals
      simp only [cutKeys, List.length_take, List.length_drop]
      omega

theorem fromKeyData_eq_ok {keyData : Bytes} {keyLen : Nat} {keys : BspSessionKeys}
    (h : keyData.length = 3 * keyLen) :
    BspSessionKeys.fromKeyData keyData keyLen = .ok keys ↔ SplitInto keys keyLen keyData := by
  have hfirst : slice keyData 0 keyLen = .ok (keyData.take keyLen) :=
    slice_eq_ok.mpr ⟨⟨by omega, by omega⟩, by simp⟩
  have hsecond : slice keyData keyLen (2 * keyLen) = .ok ((keyData.drop keyLen).take keyLen) :=
    slice_eq_ok.mpr ⟨⟨by omega, by omega⟩, by congr 1; omega⟩
  have hthird : slice keyData (2 * keyLen) (3 * keyLen) = .ok (keyData.drop (2 * keyLen)) := by
    refine slice_eq_ok.mpr ⟨⟨by omega, by omega⟩, List.take_of_length_le ?_⟩
    rw [List.length_drop]
    omega
  rw [BspSessionKeys.fromKeyData, if_neg (by omega), hfirst, Exec.ok_bind, hsecond, Exec.ok_bind,
    hthird, Exec.ok_bind, Exec.ok.injEq, splitInto_iff h, cutKeys]

/-- The derivation succeeds for identifiers that have a length octet and keys that need no more than
nine blocks. -/
theorem derive_eq_ok {sha256 : Bytes → Vector UInt8 32} {sharedSecret hostId eid : Bytes}
    {keyType : BspKeyType} {keyLen : UInt8} {keys : BspSessionKeys} :
    BspSessionKeys.derive sha256 sharedSecret keyType keyLen hostId eid = .ok keys ↔
      (hostId.length ≤ 255 ∧ eid.length ≤ 255 ∧ 1 ≤ keyLen.toNat ∧ keyLen.toNat ≤ 96) ∧
      ∃ info, bspSharedInfo keyType.toUInt8 keyLen hostId eid = .ok info ∧
        SplitInto keys keyLen.toNat (x963Loop sha256 sharedSecret info (3 * keyLen.toNat)) := by
  simp only [BspSessionKeys.derive, Exec.bind_eq_ok, x963Kdf_eq_ok]
  constructor
  · rintro ⟨info, hinfo, out, ⟨hpos, hle, rfl⟩, hkeys⟩
    obtain ⟨hhost, heid, -⟩ := bspSharedInfo_eq_ok.mp hinfo
    exact ⟨⟨hhost, heid, by omega, by omega⟩, info, hinfo,
      (fromKeyData_eq_ok (length_x963Loop _ _ _)).mp hkeys⟩
  · rintro ⟨⟨-, -, hpos, hle⟩, info, hinfo, hkeys⟩
    exact ⟨info, hinfo, _, ⟨by omega, by omega, rfl⟩,
      (fromKeyData_eq_ok (length_x963Loop _ _ _)).mpr hkeys⟩

theorem exists_derive_iff {sha256 : Bytes → Vector UInt8 32} {sharedSecret hostId eid : Bytes}
    {keyType : BspKeyType} {keyLen : UInt8} :
    (∃ keys, BspSessionKeys.derive sha256 sharedSecret keyType keyLen hostId eid = .ok keys) ↔
      hostId.length ≤ 255 ∧ eid.length ≤ 255 ∧ 1 ≤ keyLen.toNat ∧ keyLen.toNat ≤ 96 := by
  constructor
  · rintro ⟨keys, h⟩
    exact (derive_eq_ok.mp h).1
  · intro h
    exact ⟨_, derive_eq_ok.mpr ⟨h, _, bspSharedInfo_eq_ok.mpr ⟨h.1, h.2.1, rfl⟩,
      (splitInto_iff (length_x963Loop _ _ _)).mpr rfl⟩⟩

/-- **Key derivation is the one of the specification.** The KDF fails on no octets and on more than
nine blocks, and otherwise gives what the loop of its definition gives, so that a shorter output is
a prefix of a longer one. The session keys can be derived for identifiers of at most 255 octets and
key lengths from 1 to 96, and are the first three pieces of that output, for a SharedInfo of key
type, key length, host id and EID. -/
theorem x963_refines (sha256 : Bytes → Vector UInt8 32) :
    (∀ sharedSecret sharedInfo len,
      ((x963Kdf sha256 sharedSecret sharedInfo len).Failed ↔ len = 0 ∨ 9 * 32 < len) ∧
      (∀ out, x963Kdf sha256 sharedSecret sharedInfo len = .ok out ↔
        0 < len ∧ len ≤ 9 * 32 ∧ out = x963Loop sha256 sharedSecret sharedInfo len) ∧
      ∀ len' out out', x963Kdf sha256 sharedSecret sharedInfo len = .ok out →
        x963Kdf sha256 sharedSecret sharedInfo len' = .ok out' → len ≤ len' → out <+: out') ∧
    ∀ sharedSecret keyType (keyLen : UInt8) hostId eid,
      ((∃ keys, BspSessionKeys.derive sha256 sharedSecret keyType keyLen hostId eid = .ok keys) ↔
        hostId.length ≤ 255 ∧ eid.length ≤ 255 ∧ 1 ≤ keyLen.toNat ∧ keyLen.toNat ≤ 96) ∧
      ∀ keys, BspSessionKeys.derive sha256 sharedSecret keyType keyLen hostId eid = .ok keys →
        ∃ info, bspSharedInfo keyType.toUInt8 keyLen hostId eid = .ok info ∧
          info = [keyType.toUInt8, keyLen] ++ lengthPrefixed hostId ++ lengthPrefixed eid ∧
          SplitInto keys keyLen.toNat
            (x963Loop sha256 sharedSecret info (3 * keyLen.toNat)) := by
  constructor
  · intro sharedSecret sharedInfo len
    refine ⟨x963Kdf_failed_iff, fun _ => x963Kdf_eq_ok, ?_⟩
    intro len' out out' hout hout' hle
    obtain ⟨-, -, rfl⟩ := x963Kdf_eq_ok.mp hout
    obtain ⟨-, -, rfl⟩ := x963Kdf_eq_ok.mp hout'
    exact x963Loop_prefix hle
  · intro sharedSecret keyType keyLen hostId eid
    refine ⟨exists_derive_iff, ?_⟩
    intro keys h
    obtain ⟨-, info, hinfo, hkeys⟩ := derive_eq_ok.mp h
    exact ⟨info, hinfo, (bspSharedInfo_eq_ok.mp hinfo).2.2, hkeys⟩

/-! ### What a derivation hashes

A derivation hashes one string for each counter: the secret, the counter, and the shared info with
the key type, the key length and the two identifiers behind their lengths. `derive_congr` says
that this is all a derivation asks of the hash function, so that the list is about the derivation. -/

/-- The arguments of `derive`. -/
@[ext] structure DeriveArgs where
  sharedSecret : Bytes
  keyType : BspKeyType
  keyLen : UInt8
  hostId : Bytes
  eid : Bytes
  deriving DecidableEq

namespace DeriveArgs

/-- The derivation with these arguments. -/
def derive (a : DeriveArgs) (sha256 : Bytes → Vector UInt8 32) : Exec BspSessionKeys :=
  BspSessionKeys.derive sha256 a.sharedSecret a.keyType a.keyLen a.hostId a.eid

/-- What the derivation hashes, with the counter for each. -/
def hashInputs (a : DeriveArgs) : List (UInt32 × Bytes) :=
  match bspSharedInfo a.keyType.toUInt8 a.keyLen a.hostId a.eid with
  | .ok info =>
    (counters (3 * a.keyLen.toNat)).map fun n => (n, hashInput a.sharedSecret n info)
  | _ => []

theorem mem_hashInputs {a : DeriveArgs} {n : UInt32} {p : Bytes} (h : (n, p) ∈ a.hashInputs) :
    ∃ info, bspSharedInfo a.keyType.toUInt8 a.keyLen a.hostId a.eid = .ok info ∧
      p = hashInput a.sharedSecret n info := by
  rw [hashInputs] at h
  split at h
  · next info hinfo =>
      obtain ⟨m, -, heq⟩ := List.mem_map.mp h
      obtain ⟨rfl, rfl⟩ := Prod.mk.inj heq
      exact ⟨info, hinfo, rfl⟩
  · cases h

/-- The derivation uses the hash of these strings only. -/
theorem derive_congr {sha256 sha256' : Bytes → Vector UInt8 32} {a : DeriveArgs}
    (h : ∀ n p, (n, p) ∈ a.hashInputs → sha256 p = sha256' p) :
    a.derive sha256 = a.derive sha256' := by
  rw [derive, derive, BspSessionKeys.derive, BspSessionKeys.derive]
  cases hinfo : bspSharedInfo a.keyType.toUInt8 a.keyLen a.hostId a.eid with
  | ok info =>
      have hmem : ∀ n ∈ counters (3 * a.keyLen.toNat),
          (n, hashInput a.sharedSecret n info) ∈ a.hashInputs := by
        intro n hn
        rw [hashInputs, hinfo]
        exact List.mem_map.mpr ⟨n, hn, rfl⟩
      rw [Exec.ok_bind, Exec.ok_bind, x963Kdf_congr fun n hn => h n _ (hmem n hn)]
  | err e => rfl
  | panic => rfl

/-- A hashed string shows the arguments and the counter. -/
theorem eq_of_hashInputs {a a' : DeriveArgs} {n n' : UInt32} {p : Bytes}
    (hlen : a.sharedSecret.length = a'.sharedSecret.length) (h : (n, p) ∈ a.hashInputs)
    (h' : (n', p) ∈ a'.hashInputs) : a = a' ∧ n = n' := by
  obtain ⟨info, hinfo, rfl⟩ := mem_hashInputs h
  obtain ⟨info', hinfo', heq⟩ := mem_hashInputs h'
  obtain ⟨hsecret, hn, rfl⟩ := hashInput_inj hlen heq
  obtain ⟨htype, hkeyLen, hhost, heid⟩ := bspSharedInfo_inj hinfo hinfo'
  exact ⟨DeriveArgs.ext hsecret (BspKeyType.toUInt8_injective htype) hkeyLen hhost heid, hn⟩

theorem nodup_hashInputs {a : DeriveArgs} (h : 3 * a.keyLen.toNat ≤ 9 * 32) :
    (a.hashInputs.map Prod.snd).Nodup := by
  rw [hashInputs]
  split
  · next info _ =>
      rw [List.map_map]
      apply List.Nodup.map_on _ (nodup_counters h)
      intro n _ n' _ heq
      exact (hashInput_inj rfl heq).2.1
  · exact List.nodup_nil

end DeriveArgs

/-- **Derivations in different contexts hash different strings.** If two derivations that succeed,
with secrets of one length, hash the same string, they have the same arguments and are at the same
counter; one derivation hashes no string twice; and these strings are all it hashes: a hash function
that agrees on them gives the same keys. -/
theorem hashInputs_separate {sha256 : Bytes → Vector UInt8 32} {a a' : DeriveArgs}
    {keys keys' : BspSessionKeys} (h : a.derive sha256 = .ok keys)
    (h' : a'.derive sha256 = .ok keys')
    (hlen : a.sharedSecret.length = a'.sharedSecret.length) :
    (∀ n p n' p', (n, p) ∈ a.hashInputs → (n', p') ∈ a'.hashInputs → p = p' → a = a' ∧ n = n') ∧
      (a.hashInputs.map Prod.snd).Nodup ∧ (a'.hashInputs.map Prod.snd).Nodup ∧
      ∀ other : Bytes → Vector UInt8 32,
        ((∀ n p, (n, p) ∈ a.hashInputs → sha256 p = other p) → a.derive other = .ok keys) ∧
        ((∀ n p, (n, p) ∈ a'.hashInputs → sha256 p = other p) → a'.derive other = .ok keys') := by
  have hkeyLen := (derive_eq_ok.mp h).1.2.2.2
  have hkeyLen' := (derive_eq_ok.mp h').1.2.2.2
  refine ⟨?_, DeriveArgs.nodup_hashInputs (by omega), DeriveArgs.nodup_hashInputs (by omega), ?_⟩
  · rintro n p n' _ hmem hmem' rfl
    exact DeriveArgs.eq_of_hashInputs hlen hmem hmem'
  · intro other
    constructor
    · intro hother
      rw [← DeriveArgs.derive_congr hother, h]
    · intro hother
      rw [← DeriveArgs.derive_congr hother, h']

/-- Arguments for session keys of 16 octets. -/
def sessionArgs (hostId eid : Bytes) : DeriveArgs where
  sharedSecret := List.replicate 32 0x11
  keyType := .sessionKeys
  keyLen := 16
  hostId
  eid

/-- A hash to zeros. -/
def zeroHash (_ : Bytes) : Vector UInt8 32 := Vector.replicate 32 0

/-- A host id that looks like the one of the other derivation with the length prefix of its EID. -/
theorem hashInputs_separate_session :
    (∃ keys, (sessionArgs [0x68] [0x65]).derive zeroHash = .ok keys) ∧
      (∃ keys, (sessionArgs [0x68, 0x01, 0x65] []).derive zeroHash = .ok keys) ∧
      ∀ n p n' p', (n, p) ∈ (sessionArgs [0x68] [0x65]).hashInputs →
        (n', p') ∈ (sessionArgs [0x68, 0x01, 0x65] []).hashInputs → p ≠ p' := by
  obtain ⟨keys, h⟩ : ∃ keys, (sessionArgs [0x68] [0x65]).derive zeroHash = .ok keys :=
    exists_derive_iff.mpr (by decide)
  obtain ⟨keys', h'⟩ : ∃ keys, (sessionArgs [0x68, 0x01, 0x65] []).derive zeroHash = .ok keys :=
    exists_derive_iff.mpr (by decide)
  refine ⟨⟨keys, h⟩, ⟨keys', h'⟩, ?_⟩
  intro n p n' p' hmem hmem' heq
  have hargs := ((hashInputs_separate h h' rfl).1 n p n' p' hmem hmem' heq).1
  exact absurd hargs (by decide)

end Bsp
end EuiccCrypto
