import EuiccCrypto.Cbc128
import EuiccCrypto.Lib.Expansion

/-!
# The X9.63 key derivation function

`x963.rs`, over an arbitrary SHA-256. `x963Loop` is the loop of the definition in the module's
documentation, and `x963Kdf_eq_ok` says that `x963_kdf`, which computes the number of blocks
beforehand, gives the same. `bspSharedInfo_inj` says that the SharedInfo of BSP can be taken apart again.
-/

namespace EuiccCrypto
namespace X963

open Octets Cbc128 Expansion

/-- `SHA256_LEN`. -/
abbrev sha256Len : Nat := 32

/-- `MAX_ITERATIONS`. -/
abbrev maxIterations : Nat := 9

/-! ### The derivation -/

section Kdf

variable (sha256 : Bytes → Vector UInt8 32)

/-- `sha256_vec`. -/
def sha256Vec (data : Bytes) : Bytes := (sha256 data).toList

/-- What `x963_kdf` hashes for one value of the counter. -/
def hashInput (sharedSecret : Bytes) (counter : UInt32) (sharedInfo : Bytes) : Bytes :=
  sharedSecret ++ toBeBytes counter ++ sharedInfo

/-- The number of blocks `len` octets need, `len.div_ceil(SHA256_LEN)`. -/
def iterations (len : Nat) : Nat := (len + (sha256Len - 1)) / sha256Len

/-- The values of the counter, `1..=iterations`. -/
def counters (len : Nat) : List UInt32 :=
  (List.range (iterations len)).map fun i => UInt32.ofNat (i + 1)

/-- `x963_kdf`: derive `len` bytes from a shared secret. -/
def x963Kdf (sharedSecret sharedInfo : Bytes) (len : Nat) : Exec Bytes :=
  if len = 0 then .err (.malformed "X9.63 KDF asked for 0 bytes")
  else if iterations len > maxIterations then
    .err (.malformed ("X9.63 KDF asked for " ++ toString len ++ " bytes, which needs " ++
      toString (iterations len) ++ " hash blocks (limit " ++ toString maxIterations ++ ")"))
  else
    let keyData := (counters len).foldl
      (fun keyData counter =>
        keyData ++ sha256Vec sha256 (hashInput sharedSecret counter sharedInfo)) []
    .ok (keyData.take len)

theorem iterations_le_iff {len : Nat} : iterations len ≤ maxIterations ↔ len ≤ 9 * 32 := by
  show (len + 31) / 32 ≤ 9 ↔ _
  omega

theorem le_iterations_mul (len : Nat) : len ≤ iterations len * 32 := by
  show len ≤ (len + 31) / 32 * 32
  omega

/-! ### The loop of the definition

The definition in the documentation of the module, with the hash of `Z`, the counter and SharedInfo
spelled out: it uses nothing of the translation above. The two meet in `hashInput_eq`. -/

/-- A number below `2 ^ 32` as four octets, the most significant first. -/
def be32 (n : Nat) : Bytes :=
  [UInt8.ofNat (n / 2 ^ 24), UInt8.ofNat (n / 2 ^ 16), UInt8.ofNat (n / 2 ^ 8), UInt8.ofNat n]

/-- The block for counter `i + 1`: `Hash(Z ‖ Counter_be32 ‖ SharedInfo)`. -/
def kdfBlock (sharedSecret sharedInfo : Bytes) (i : Nat) : Bytes :=
  (sha256 (sharedSecret ++ be32 (i + 1) ++ sharedInfo)).toList

/-- The counter of the source has the same octets. -/
theorem toBeBytes_ofNat (n : Nat) : toBeBytes (UInt32.ofNat n) = be32 n := by
  simp only [toBeBytes, be32, List.cons.injEq, ← UInt8.toNat_inj, UInt32.toNat_toUInt8,
    UInt32.toNat_shiftRight, UInt32.toNat_ofNat', UInt8.toNat_ofNat', and_true]
  simp only [Nat.shiftRight_eq_div_pow]
  refine ⟨?_, ?_, ?_, ?_⟩ <;> simp <;> omega

/-- What the source hashes is what the definition hashes. -/
theorem hashInput_eq (sharedSecret sharedInfo : Bytes) (i : Nat) :
    sha256Vec sha256 (hashInput sharedSecret (UInt32.ofNat (i + 1)) sharedInfo) =
      kdfBlock sha256 sharedSecret sharedInfo i := by
  rw [sha256Vec, hashInput, toBeBytes_ofNat, kdfBlock]

theorem length_kdfBlock (sharedSecret sharedInfo : Bytes) (i : Nat) :
    (kdfBlock sha256 sharedSecret sharedInfo i).length = 32 := Vector.length_toList

theorem kdfBlock_ne_nil (sharedSecret sharedInfo : Bytes) (i : Nat) :
    kdfBlock sha256 sharedSecret sharedInfo i ≠ [] :=
  List.ne_nil_of_length_eq_add_one (length_kdfBlock sha256 sharedSecret sharedInfo i)

/-- The definition: append the hash of secret, counter and SharedInfo while fewer than `len` bytes
are there, with the counter from 1, then cut. -/
def x963Loop (sharedSecret sharedInfo : Bytes) (len : Nat) : Bytes :=
  (fill (kdfBlock sha256 sharedSecret sharedInfo) (kdfBlock_ne_nil sha256 sharedSecret sharedInfo)
    len 0 []).take len

variable {sha256} {sharedSecret sharedInfo : Bytes} {len : Nat}

/-- The loop of the source over the counters puts the blocks together. -/
theorem foldl_counters (n : Nat) :
    ((List.range n).map fun i => UInt32.ofNat (i + 1)).foldl
      (fun keyData counter =>
        keyData ++ sha256Vec sha256 (hashInput sharedSecret counter sharedInfo)) [] =
      blocks (kdfBlock sha256 sharedSecret sharedInfo) n := by
  induction n with
  | zero => rfl
  | succ n ih =>
      rw [List.range_succ, List.map_append, List.foldl_append, ih, blocks]
      exact congrArg (blocks (kdfBlock sha256 sharedSecret sharedInfo) n ++ ·)
        (hashInput_eq sha256 sharedSecret sharedInfo n)

theorem length_x963Loop (sharedSecret sharedInfo : Bytes) (len : Nat) :
    (x963Loop sha256 sharedSecret sharedInfo len).length = len := by
  have hlen := length_blocks (length_kdfBlock sha256 sharedSecret sharedInfo) len
  rw [x963Loop, take_fill_eq (m := len) _ (by omega), List.length_take]
  omega

/-- `x963_kdf` fails on no octets and on more than nine blocks, and gives what the loop of the
definition gives otherwise. -/
theorem x963Kdf_eq_ok {out : Bytes} :
    x963Kdf sha256 sharedSecret sharedInfo len = .ok out ↔
      0 < len ∧ len ≤ 9 * 32 ∧ out = x963Loop sha256 sharedSecret sharedInfo len := by
  have hlen : len ≤ (blocks (kdfBlock sha256 sharedSecret sharedInfo) (iterations len)).length := by
    rw [length_blocks (length_kdfBlock sha256 sharedSecret sharedInfo)]
    exact le_iterations_mul len
  rw [x963Kdf, Exec.ite_err_eq_ok, Exec.ite_err_eq_ok, counters, foldl_counters, x963Loop,
    take_fill_eq _ hlen, Exec.ok.injEq, Nat.not_lt, iterations_le_iff, eq_comm (b := out),
    Nat.pos_iff_ne_zero]

theorem x963Kdf_failed_iff :
    (x963Kdf sha256 sharedSecret sharedInfo len).Failed ↔ len = 0 ∨ 9 * 32 < len := by
  by_cases h : 0 < len ∧ len ≤ 9 * 32
  · rw [x963Kdf_eq_ok.mpr ⟨h.1, h.2, rfl⟩]
    exact iff_of_false (fun ⟨_, he⟩ => by cases he) (by omega)
  · refine iff_of_true ?_ (by omega)
    cases hout : x963Kdf sha256 sharedSecret sharedInfo len with
    | ok out => exact absurd (x963Kdf_eq_ok.mp hout) (fun ⟨hpos, hle, _⟩ => h ⟨hpos, hle⟩)
    | err e => exact ⟨e, rfl⟩
    | panic =>
        rw [x963Kdf, Exec.ite_err_eq_panic, Exec.ite_err_eq_panic] at hout
        exact absurd hout.2.2 (by simp)

/-- A shorter output is a prefix of a longer one. -/
theorem x963Loop_prefix {len' : Nat} (h : len ≤ len') :
    x963Loop sha256 sharedSecret sharedInfo len <+:
      x963Loop sha256 sharedSecret sharedInfo len' := by
  have hlen := length_blocks (length_kdfBlock sha256 sharedSecret sharedInfo) len'
  rw [x963Loop, x963Loop, take_fill_eq (m := len') _ (by omega),
    take_fill_eq (m := len') _ (by omega)]
  exact List.take_prefix_take_left h

end Kdf

/-! ### What is hashed -/

/-- The derivation uses the hash of one string for each value of the counter, and no other. -/
theorem x963Kdf_congr {sha256 sha256' : Bytes → Vector UInt8 32} {sharedSecret sharedInfo : Bytes}
    {len : Nat} (h : ∀ n ∈ counters len, sha256 (hashInput sharedSecret n sharedInfo) =
      sha256' (hashInput sharedSecret n sharedInfo)) :
    x963Kdf sha256 sharedSecret sharedInfo len = x963Kdf sha256' sharedSecret sharedInfo len := by
  have hblocks : ∀ out, ∀ n ∈ counters len,
      out ++ sha256Vec sha256 (hashInput sharedSecret n sharedInfo) =
        out ++ sha256Vec sha256' (hashInput sharedSecret n sharedInfo) := by
    intro out n hn
    rw [sha256Vec, h n hn, sha256Vec]
  rw [x963Kdf, x963Kdf, List.foldl_ext _ _ _ hblocks]

/-- Secret, counter and SharedInfo can be told apart once the length of the secret is known. -/
theorem hashInput_inj {z z' info info' : Bytes} {n n' : UInt32} (hz : z.length = z'.length)
    (h : hashInput z n info = hashInput z' n' info') : z = z' ∧ n = n' ∧ info = info' := by
  rw [hashInput, hashInput, List.append_assoc, List.append_assoc] at h
  obtain ⟨hsecret, hrest⟩ := List.append_inj h hz
  obtain ⟨hn, hinfo⟩ := List.append_inj hrest rfl
  exact ⟨hsecret, toBeBytes_inj hn, hinfo⟩

/-- Within `MAX_ITERATIONS` the counter does not come back to a value. -/
theorem nodup_counters {len : Nat} (h : len ≤ 9 * 32) : (counters len).Nodup := by
  apply List.Nodup.map_on _ List.nodup_range
  intro i hi j hj heq
  have hle : iterations len ≤ 9 := iterations_le_iff.mpr h
  rw [List.mem_range] at hi hj
  have hmod := congrArg UInt32.toNat heq
  rw [UInt32.toNat_ofNat', UInt32.toNat_ofNat'] at hmod
  omega

/-! ### SharedInfo -/

/-- `bsp_shared_info`: build BSP's SharedInfo. -/
def bspSharedInfo (keyType keyLength : UInt8) (hostId eid : Bytes) : Exec Bytes :=
  if hostId.length > 255 then
    .err (.malformed ("HostID is " ++ toString hostId.length ++
      " bytes; the length prefix is one octet"))
  else if eid.length > 255 then
    .err (.malformed ("EID is " ++ toString eid.length ++ " bytes; the length prefix is one octet"))
  else
    .ok ([keyType, keyLength] ++ UInt8.ofNat hostId.length :: hostId ++
      UInt8.ofNat eid.length :: eid)

theorem bspSharedInfo_eq_ok {keyType keyLength : UInt8} {hostId eid info : Bytes} :
    bspSharedInfo keyType keyLength hostId eid = .ok info ↔
      hostId.length ≤ 255 ∧ eid.length ≤ 255 ∧
        info = keyType :: keyLength :: (lengthPrefixed hostId ++ lengthPrefixed eid) := by
  rw [bspSharedInfo, Exec.ite_err_eq_ok, Exec.ite_err_eq_ok, Exec.ok.injEq, Nat.not_lt, Nat.not_lt,
    eq_comm (b := info)]
  rfl

/-- The components can be read out of SharedInfo. -/
theorem bspSharedInfo_inj {keyType keyType' keyLength keyLength' : UInt8}
    {hostId hostId' eid eid' info : Bytes}
    (h : bspSharedInfo keyType keyLength hostId eid = .ok info)
    (h' : bspSharedInfo keyType' keyLength' hostId' eid' = .ok info) :
    keyType = keyType' ∧ keyLength = keyLength' ∧ hostId = hostId' ∧ eid = eid' := by
  obtain ⟨hhost, -, rfl⟩ := bspSharedInfo_eq_ok.mp h
  obtain ⟨hhost', -, heq⟩ := bspSharedInfo_eq_ok.mp h'
  simp only [List.cons.injEq] at heq
  obtain ⟨htype, hlength, hrest⟩ := heq
  obtain ⟨hhosts, heids⟩ := lengthPrefixed_append_inj hhost hhost' hrest
  exact ⟨htype, hlength, hhosts, (List.cons.inj heids).2⟩

end X963
end EuiccCrypto
