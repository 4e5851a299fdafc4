import EuiccCrypto.Exec
import EuiccCrypto.Lib.Tlv

/-!
# The shared DER length code

`x509.rs` and `wire.rs` each carry a `read_length`, and `wire.rs` and `testpki.rs` each carry a
`der_length`. The copies differ in the error they report and in nothing else, so there is one
definition here and the modules instantiate it. `readLengthWith_eq_ok` says what is accepted,
in terms of `Tlv.LengthOctets`.
-/

namespace EuiccCrypto
namespace Der

open Octets Tlv

/-- `read_length`: read a DER length, returning `(length, bytes_consumed)`. `error` builds the
caller's error variant and `unsupported` the text for a length form it does not read, from the
marker, the number of length octets and the number of octets available. -/
def readLengthWith (error : String → Error) (unsupported : UInt8 → Nat → Nat → String)
    (input : Bytes) : Exec (Nat × Nat) := do
  let first ← Exec.okOr (error "missing length") input.head?
  -- Short form: the octet is the length. Otherwise its low bits count the octets that follow.
  if first &&& 0x80 = 0 then .ok (first.toNat, 1)
  else
    let count := (first &&& 0x7f).toNat
    if count = 0 ∨ count = 0x7f ∨ count > 4 ∨ input.length < 1 + count then
      .err (error (unsupported first count (input.length - 1)))
    else do
      let lead ← index input 1
      if lead = 0 then .err (error "non-minimal DER length (leading zero)")
      else do
        let octets ← slice input 1 (1 + count)
        .ok (octets.foldl (fun len b => len <<< 8 ||| b.toNat) 0, 1 + count)

/-- `der_length`: encode a DER length. -/
def derLength (len : Nat) : Bytes :=
  if len < 0x80 then [UInt8.ofNat len]
  else if len ≤ 0xff then [0x81, UInt8.ofNat len]
  -- There is no third form: the casts cut a length above 65535 to its low 16 bits.
  else [0x82, UInt8.ofNat (len >>> 8), UInt8.ofNat (len &&& 0xff)]

/-! ### The marker octet -/

theorem and_0x80_eq_zero {b : UInt8} : b &&& 0x80 = 0 ↔ b.toNat < 0x80 := by
  have hall : ∀ n : Fin 256, UInt8.ofFin n &&& 0x80 = 0 ↔ n.val < 0x80 := by decide +kernel
  exact hall b.toFin

theorem toNat_and_0x7f (b : UInt8) : (b &&& 0x7f).toNat = b.toNat % 0x80 := by
  rw [UInt8.toNat_and]
  exact Nat.and_two_pow_sub_one_eq_mod b.toNat 7

/-- The accumulating loop of `read_length` is the big-endian value of the octets it reads. -/
theorem foldl_shift_eq_beValue (bs : Bytes) :
    bs.foldl (fun len b => len <<< 8 ||| b.toNat) 0 = beValue bs := by
  have hstep : (fun (len : Nat) (b : UInt8) => len <<< 8 ||| b.toNat) =
      fun len b => len * 256 + b.toNat := by
    funext len b
    rw [← Nat.shiftLeft_add_eq_or_of_lt b.toNat_lt, Nat.shiftLeft_eq]
  rw [hstep, beValue]

/-! ### What `read_length` accepts -/

section ReadLength

variable {error : String → Error} {unsupported : UInt8 → Nat → Nat → String}

theorem readLengthWith_append {n : Nat} {os : Bytes} (h : LengthOctets n os) (rest : Bytes) :
    readLengthWith error unsupported (os ++ rest) = .ok (n, os.length) := by
  cases h with
  | short hb => simp [readLengthWith, and_0x80_eq_zero.mpr hb]
  | @long m d ds hm hds hd =>
      have hmark : ¬ m &&& 0x80 = 0 := by rw [and_0x80_eq_zero]; omega
      have hcount : (m &&& 0x7f).toNat = ds.length + 1 := by rw [toNat_and_0x7f]; omega
      have hslice : slice (m :: d :: (ds ++ rest)) 1 (1 + (ds.length + 1)) = .ok (d :: ds) :=
        slice_append [m] (d :: ds) rest
      have hguard : ¬ (ds.length + 1 = 0 ∨ ds.length + 1 = 0x7f ∨ ds.length + 1 > 4 ∨
          (m :: d :: (ds ++ rest)).length < 1 + (ds.length + 1)) := by
        simp only [List.length_append, List.length_cons]
        omega
      have hlead : index (m :: d :: (ds ++ rest)) 1 = .ok d := rfl
      simp only [readLengthWith, List.cons_append, List.head?_cons, Exec.okOr_some, Exec.ok_bind,
        if_neg hmark, hcount]
      rw [if_neg hguard, hlead, Exec.ok_bind, if_neg hd, hslice, Exec.ok_bind,
        foldl_shift_eq_beValue, Nat.add_comm]
      rfl

/-- `read_length` reads the length octets its input starts with, and nothing else. -/
theorem readLengthWith_eq_ok {input : Bytes} {n k : Nat} :
    readLengthWith error unsupported input = .ok (n, k) ↔
      ∃ os rest, input = os ++ rest ∧ LengthOctets n os ∧ k = os.length := by
  constructor
  · intro h
    cases input with
    | nil => simp [readLengthWith] at h
    | cons m rest =>
        simp only [readLengthWith, List.head?_cons, Exec.okOr_some, Exec.ok_bind] at h
        split at h
        · next hm =>
            rw [and_0x80_eq_zero] at hm
            cases h
            exact ⟨[m], rest, rfl, .short hm, rfl⟩
        · next hm =>
            -- The guards leave one to four octets, of which the first is not zero.
            rw [and_0x80_eq_zero] at hm
            rw [Exec.ite_err_eq_ok, Exec.bind_eq_ok] at h
            obtain ⟨hguard, d, hd, h⟩ := h
            rw [Exec.ite_err_eq_ok, Exec.bind_eq_ok] at h
            obtain ⟨hne, octets, hoct, h⟩ := h
            rw [toNat_and_0x7f] at hguard hoct h
            cases rest with
            | nil => simp at hd
            | cons d' tl =>
                obtain rfl : d' = d := by simpa using hd
                simp only [List.length_cons] at hguard
                have hlt := m.toNat_lt
                simp only [slice_eq_ok, List.drop_succ_cons, List.drop_zero] at hoct
                obtain ⟨-, rfl⟩ := hoct
                obtain ⟨j, hj⟩ : ∃ j, m.toNat % 0x80 = j + 1 := ⟨m.toNat % 0x80 - 1, by omega⟩
                rw [hj, Nat.add_sub_cancel_left, List.take_succ_cons, foldl_shift_eq_beValue] at h
                cases h
                refine ⟨m :: d' :: tl.take j, tl.drop j, by simp, .long ?_ ?_ hne, ?_⟩ <;>
                  simp only [List.length_cons, List.length_take] <;> omega
  · rintro ⟨os, rest, rfl, hos, rfl⟩
    exact readLengthWith_append hos rest

theorem readLengthWith_ne_panic (input : Bytes) :
    readLengthWith error unsupported input ≠ .panic := by
  intro h
  cases input with
  | nil => simp [readLengthWith] at h
  | cons m rest =>
      simp only [readLengthWith, List.head?_cons, Exec.okOr_some, Exec.ok_bind] at h
      split at h
      · cases h
      · simp only [Exec.ite_err_eq_panic, Exec.bind_eq_panic, index_eq_panic, index_eq_ok,
          slice_eq_panic, slice_eq_ok, List.length_cons] at h
        obtain ⟨hguard, h⟩ := h
        rcases h with h | ⟨d, -, -, h | ⟨o, -, h⟩⟩
        · omega
        · omega
        · cases h

end ReadLength

/-! ### What `der_length` writes -/

/-- Up to 65535 `der_length` writes the shortest spelling. -/
theorem derLength_eq {n : Nat} (h : n ≤ 0xffff) : derLength n = lengthOctets n := by
  unfold derLength
  split
  · next hlt => rw [lengthOctets_of_lt hlt]
  · next hge =>
      rw [lengthOctets, if_neg hge]
      split
      · next hle =>
          have hd : beOctets n = [UInt8.ofNat n] := by
            rw [beOctets, Nat.digits_of_lt 256 n (by omega) (by omega)]
            rfl
          rw [hd]
          rfl
      · next hgt =>
          have hd : beOctets n = [UInt8.ofNat (n / 256), UInt8.ofNat (n % 256)] := by
            rw [beOctets, Nat.digits_def' (by omega) (by omega),
              Nat.digits_of_lt 256 (n / 256) (by omega) (by omega)]
            rfl
          rw [hd, Nat.shiftRight_eq_div_pow, show (0xff : Nat) = 2 ^ 8 - 1 from rfl,
            Nat.and_two_pow_sub_one_eq_mod]
          rfl

theorem derLength_spec {n : Nat} (h : n ≤ 0xffff) : LengthOctets n (derLength n) := by
  rw [derLength_eq h]
  exact lengthOctets_spec (by omega)

/-- The cast to an octet drops what the mask drops. -/
theorem ofNat_and_0xff (n : Nat) : UInt8.ofNat (n &&& 0xff) = UInt8.ofNat n := by
  rw [show (0xff : Nat) = 2 ^ 8 - 1 from rfl, Nat.and_two_pow_sub_one_eq_mod, ← UInt8.toNat_inj]
  simp

/-- Above 65535 `der_length` writes the low 16 bits. -/
theorem derLength_of_gt {n : Nat} (h : 0xffff < n) :
    derLength n = [0x82, UInt8.ofNat (n / 256), UInt8.ofNat n] := by
  rw [derLength, if_neg (by omega), if_neg (by omega), ofNat_and_0xff, Nat.shiftRight_eq_div_pow]

/-- What is read out of the octets `der_length` writes is the length, or the low 16 bits of it. -/
theorem eq_mod_of_derLength {n m : Nat} {os r rest : Bytes} (h : LengthOctets m os)
    (heq : os ++ r = derLength n ++ rest) :
    (n ≤ 0xffff ∧ m = n ∧ os = derLength n ∧ r = rest) ∨ (0xffff < n ∧ m = n % 0x10000) := by
  rcases Nat.lt_or_ge 0xffff n with hgt | hle
  · rw [derLength_of_gt hgt] at heq
    refine .inr ⟨hgt, ?_⟩
    cases h with
    | @short b hb =>
        simp only [List.cons_append, List.cons.injEq] at heq
        rw [heq.1] at hb
        simp at hb
    | @long k d ds hk _ _ =>
        simp only [List.cons_append, List.cons.injEq] at heq
        obtain ⟨rfl, rfl, hrest⟩ := heq
        -- The marker `0x82` announces the two octets.
        obtain ⟨e, rfl⟩ : ∃ e, ds = [e] := List.length_eq_one_iff.mp (by simp at hk; omega)
        obtain ⟨rfl, -⟩ : e = UInt8.ofNat n ∧ r = rest := by simpa using hrest
        simp [beValue]
        omega
  · obtain ⟨rfl, rfl, rfl⟩ := h.append_inj (derLength_spec hle) heq
    exact .inl ⟨hle, rfl, rfl, rfl⟩

/-- `der_length` writes the accepted spelling of a length that has at most two octets behind the
marker, and those only where they are needed. -/
theorem derLength_eq_iff {n : Nat} {os : Bytes} (h : LengthOctets n os) :
    os = derLength n ↔ os.length ≤ 3 ∧ (os.length = 2 → 0x80 ≤ n) := by
  constructor
  · rintro rfl
    unfold derLength
    split
    · simp
    · split
      · simp
        omega
      · simp
  · rintro ⟨hlen, hlong⟩
    have hle : n ≤ 0xffff := by
      cases h with
      | short hb => omega
      | @long m d ds _ _ _ =>
          simp only [List.length_cons] at hlen
          have hlt := beValue_lt (d :: ds)
          have hpow : 256 ^ (d :: ds).length ≤ 256 ^ 2 :=
            Nat.pow_le_pow_right (by omega) (by rw [List.length_cons]; omega)
          omega
    rw [derLength_eq hle]
    exact h.eq_lengthOctets hlong

end Der
end EuiccCrypto
