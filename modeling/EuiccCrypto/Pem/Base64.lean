import EuiccCrypto.Lib.Base64
import EuiccCrypto.Pem

/-!
# What the base64 decoder accepts

`base64Decode_eq_ok` says that `base64_decode` accepts every text of whole groups of digits and
padding characters, wherever the padding is, and `base64_strict_iff` when this is the same as
accepting only what the encoding of RFC 4648 writes.
-/

namespace EuiccCrypto
namespace Pem

open Octets Base64

/-! ### Digits -/

theorem base64Val_eq (c : UInt8) : base64Val c = (value c).map UInt8.ofNat := by
  have hall : ∀ i : Fin 256,
      base64Val (UInt8.ofFin i) = (value (UInt8.ofFin i)).map UInt8.ofNat := by
    decide +kernel
  exact hall c.toFin

variable {fmt : Fmt}

theorem toUInt32_ofNat {n : Nat} (h : n < 64) : (UInt8.ofNat n).toUInt32 = UInt32.ofNat n := by
  rw [← UInt32.toNat_inj, UInt8.toNat_toUInt32, UInt8.toNat_ofNat', UInt32.toNat_ofNat']
  omega

/-- Digits and padding characters are read, the latter as zero. -/
theorem base64Digit_eq_ok {c : UInt8} {v : UInt32} :
    base64Digit fmt c = .ok v ↔ IsSymbol c ∧ UInt32.ofNat ((value c).getD 0) = v := by
  rw [base64Digit]
  split
  · next h =>
      have hpad : c = padChar := h
      rw [Exec.ok.injEq, hpad, value_padChar]
      exact (and_iff_right (.inl rfl)).symm
  · next h =>
      have hpad : c ≠ padChar := h
      simp only [Exec.bind_eq_ok, Exec.okOr_eq_ok, base64Val_eq, Option.map_eq_some_iff,
        Exec.ok.injEq]
      constructor
      · rintro ⟨_, ⟨n, hn, rfl⟩, rfl⟩
        rw [hn, toUInt32_ofNat (eq_digit_of_value hn).1]
        exact ⟨.inr (Option.isSome_of_eq_some hn), rfl⟩
      · rintro ⟨hsymbol, rfl⟩
        obtain ⟨n, hn⟩ := Option.isSome_iff_exists.mp (hsymbol.resolve_left hpad)
        refine ⟨_, ⟨n, hn, rfl⟩, ?_⟩
        rw [hn, toUInt32_ofNat (eq_digit_of_value hn).1, Option.getD_some]

/-! ### Chunks

The source puts four six-bit values together in a word of 32 bits and takes three octets out
again. `toNat_chunkAcc` is the word as a number, and the three lemmas behind it are the octets as
the ones of `Base64`. -/

section Acc

variable {v0 v1 v2 v3 : Nat}

/-- The accumulator of a chunk. -/
def chunkAcc (v0 v1 v2 v3 : Nat) : UInt32 :=
  UInt32.ofNat v0 <<< 18 ||| UInt32.ofNat v1 <<< 12 ||| UInt32.ofNat v2 <<< 6 ||| UInt32.ofNat v3

/-- The accumulator holds the four values side by side. -/
theorem toNat_chunkAcc (h0 : v0 < 64) (h1 : v1 < 64) (h2 : v2 < 64) (h3 : v3 < 64) :
    (chunkAcc v0 v1 v2 v3).toNat = ((v0 * 64 + v1) * 64 + v2) * 64 + v3 := by
  have hdigit : ∀ v < 64, (UInt32.ofNat v).toNat = v := fun v hv =>
    UInt32.toNat_ofNat_of_lt' (by show _ < 4294967296; omega)
  have hjoin : ∀ a v k, v < 2 ^ k → a <<< k ||| v = a * 2 ^ k + v := by
    intro a v k hv
    rw [← Nat.shiftLeft_add_eq_or_of_lt hv, Nat.shiftLeft_eq]
  have hregroup : ∀ a v k, a * 2 ^ (k + 6) + v * 2 ^ k = (a * 64 + v) <<< k := by
    intro a v k
    rw [Nat.shiftLeft_eq, Nat.pow_add, Nat.add_mul]
    congr 1
    rw [Nat.mul_comm (2 ^ k), ← Nat.mul_assoc]
  have e0 : (UInt32.ofNat v0 <<< 18).toNat = v0 <<< 18 := by
    rw [UInt32.toNat_shiftLeft, hdigit v0 h0]
    exact Nat.mod_eq_of_lt (by rw [Nat.shiftLeft_eq]; show v0 * 2 ^ 18 < _; omega)
  have e1 : (UInt32.ofNat v1 <<< 12).toNat = v1 * 2 ^ 12 := by
    rw [UInt32.toNat_shiftLeft, hdigit v1 h1, Nat.shiftLeft_eq]
    exact Nat.mod_eq_of_lt (by show v1 * 2 ^ 12 < _; omega)
  have e2 : (UInt32.ofNat v2 <<< 6).toNat = v2 * 2 ^ 6 := by
    rw [UInt32.toNat_shiftLeft, hdigit v2 h2, Nat.shiftLeft_eq]
    exact Nat.mod_eq_of_lt (by show v2 * 2 ^ 6 < _; omega)
  rw [chunkAcc, UInt32.toNat_or, UInt32.toNat_or, UInt32.toNat_or, e0, e1, e2, hdigit v3 h3,
    hjoin v0 _ 18 (by omega)]
  rw [hregroup v0 v1 12, hjoin _ _ 12 (by omega), hregroup _ v2 6, hjoin _ _ 6 h3,
    show 2 ^ 6 = 64 from rfl]

theorem chunkAcc_octet0 (h0 : v0 < 64) (h1 : v1 < 64) (h2 : v2 < 64) (h3 : v3 < 64) :
    (chunkAcc v0 v1 v2 v3 >>> 16).toUInt8 = octet0 v0 v1 := by
  rw [← UInt8.toNat_inj, UInt32.toNat_toUInt8, UInt32.toNat_shiftRight, toNat_chunkAcc h0 h1 h2 h3,
    toNat_octet0 h0 h1, Nat.shiftRight_eq_div_pow]
  show _ / 2 ^ 16 % 256 = _
  omega

theorem chunkAcc_octet1 (h0 : v0 < 64) (h1 : v1 < 64) (h2 : v2 < 64) (h3 : v3 < 64) :
    (chunkAcc v0 v1 v2 v3 >>> 8).toUInt8 = octet1 v1 v2 := by
  rw [← UInt8.toNat_inj, UInt32.toNat_toUInt8, UInt32.toNat_shiftRight, toNat_chunkAcc h0 h1 h2 h3,
    toNat_octet1 h2, Nat.shiftRight_eq_div_pow]
  show _ / 2 ^ 8 % 256 = _
  omega

theorem chunkAcc_octet2 (h0 : v0 < 64) (h1 : v1 < 64) (h2 : v2 < 64) (h3 : v3 < 64) :
    (chunkAcc v0 v1 v2 v3).toUInt8 = octet2 v2 v3 := by
  rw [← UInt8.toNat_inj, UInt32.toNat_toUInt8, toNat_chunkAcc h0 h1 h2 h3, toNat_octet2 h3]
  show _ % 256 = _
  omega

end Acc

theorem value_getD_lt (c : UInt8) : (value c).getD 0 < 64 := by
  cases h : value c with
  | none => decide
  | some v => exact (eq_digit_of_value h).1

theorem base64Chunk_eq_ok {c0 c1 c2 c3 : UInt8} {b : Bytes} :
    base64Chunk fmt c0 c1 c2 c3 = .ok b ↔
      (∀ c ∈ [c0, c1, c2, c3], IsSymbol c) ∧ groupOctets c0 c1 c2 c3 = b := by
  have h0 := value_getD_lt c0
  have h1 := value_getD_lt c1
  have h2 := value_getD_lt c2
  have h3 := value_getD_lt c3
  simp only [base64Chunk, Exec.bind_eq_ok, base64Digit_eq_ok, Exec.ok.injEq, List.forall_mem_cons]
  constructor
  · rintro ⟨_, ⟨hs0, rfl⟩, _, ⟨hs1, rfl⟩, _, ⟨hs2, rfl⟩, _, ⟨hs3, rfl⟩, rfl⟩
    refine ⟨⟨hs0, hs1, hs2, hs3, by simp⟩, ?_⟩
    rw [groupOctets, ← chunkAcc_octet0 h0 h1 h2 h3, ← chunkAcc_octet1 h0 h1 h2 h3,
      ← chunkAcc_octet2 h0 h1 h2 h3]
    rfl
  · rintro ⟨⟨hs0, hs1, hs2, hs3, -⟩, rfl⟩
    refine ⟨_, ⟨hs0, rfl⟩, _, ⟨hs1, rfl⟩, _, ⟨hs2, rfl⟩, _, ⟨hs3, rfl⟩, ?_⟩
    rw [groupOctets, ← chunkAcc_octet0 h0 h1 h2 h3, ← chunkAcc_octet1 h0 h1 h2 h3,
      ← chunkAcc_octet2 h0 h1 h2 h3]
    rfl

/-! ### Whole texts

The source counts the padding of a group and does not look where it is. So what it accepts are all
texts of whole groups of symbols (`base64Decode_eq_ok`), and among these the encodings are the
ones that are `WellPadded`. -/

theorem base64Chunks_eq_ok {t b : Bytes} (hlen : t.length % 4 = 0) :
    base64Chunks fmt t = .ok b ↔ (∀ c ∈ t, IsSymbol c) ∧ octets t = b := by
  induction t using octets.induct generalizing b with
  | case1 c0 c1 c2 c3 rest ih =>
      simp only [List.length_cons] at hlen
      have hrest : rest.length % 4 = 0 := by omega
      simp only [base64Chunks, Exec.bind_eq_ok, base64Chunk_eq_ok, ih hrest, Exec.ok.injEq, octets,
        List.forall_mem_cons]
      constructor
      · rintro ⟨_, ⟨⟨hs0, hs1, hs2, hs3, -⟩, rfl⟩, _, ⟨hrest, rfl⟩, rfl⟩
        exact ⟨⟨hs0, hs1, hs2, hs3, hrest⟩, rfl⟩
      · rintro ⟨⟨hs0, hs1, hs2, hs3, hrest⟩, rfl⟩
        exact ⟨_, ⟨⟨hs0, hs1, hs2, hs3, by simp⟩, rfl⟩, _, ⟨hrest, rfl⟩, rfl⟩
  | case2 t hgroups =>
      rcases t with _ | ⟨c0, _ | ⟨c1, _ | ⟨c2, _ | ⟨c3, rest⟩⟩⟩⟩
      · simp [base64Chunks, octets]
      · simp at hlen
      · simp at hlen
      · simp at hlen
      · exact absurd rfl (hgroups c0 c1 c2 c3 rest)

/-- The octets of a text without ASCII whitespace. -/
def stripped (s : List Char) : Bytes :=
  (String.ofList s).toUTF8.toList.filter fun b => !isAsciiWhitespace b

/-- `base64_decode` accepts the texts of whole groups of digits and padding characters. -/
theorem base64Decode_eq_ok {s : List Char} {b : Bytes} :
    base64Decode fmt s = .ok b ↔
      (stripped s).length % 4 = 0 ∧ (∀ c ∈ stripped s, IsSymbol c) ∧ octets (stripped s) = b := by
  have hdecode : base64Decode fmt s =
      if (stripped s).length % 4 ≠ 0 then
        .err (.certificate "base64: length is not a multiple of 4")
      else base64Chunks fmt (stripped s) := rfl
  rw [hdecode, Exec.ite_err_eq_ok, not_not]
  exact and_congr_right fun hlen => base64Chunks_eq_ok hlen

/-- The decoder accepts every encoding. -/
theorem base64Decode_encode {s : List Char} {b : Bytes} (h : stripped s = encode b) :
    base64Decode fmt s = .ok b := by
  rw [base64Decode_eq_ok, h]
  exact ⟨length_encode_mod b, isSymbol_of_mem_encode, octets_encode b⟩

/-- The decoder is strict on a text: it returns octets exactly where the text is their encoding, and
fails on a text that is no encoding. -/
structure DecodedStrictly (fmt : Fmt) (s : List Char) : Prop where
  returns : ∀ b, base64Decode fmt s = .ok b ↔ stripped s = encode b
  fails : (base64Decode fmt s).Failed ↔ ¬ ∃ b, stripped s = encode b

/-- **Base64 is strict** on a text, that is, accepts it exactly as the encoding of what it returns
and fails otherwise, unless the text consists of whole groups of digits and padding characters, and
has padding elsewhere than as the last one or two characters of its last group, or bits left over
that are not zero. -/
theorem base64_strict_iff (fmt : Fmt) (s : List Char) :
    DecodedStrictly fmt s ↔
      (stripped s).length % 4 ≠ 0 ∨ (∃ c ∈ stripped s, ¬ IsSymbol c) ∨ WellPadded (stripped s) := by
  constructor
  · rintro ⟨h, -⟩
    by_contra hnot
    rw [not_or, not_or, not_not, not_exists] at hnot
    obtain ⟨hlen, hsymbols, hpadded⟩ := hnot
    have hsymbols : ∀ c ∈ stripped s, IsSymbol c := fun c hc => not_not.mp fun hn =>
      hsymbols c ⟨hc, hn⟩
    -- Such a text is accepted, but as an encoding it would be well padded.
    have hencode := (h _).mp (base64Decode_eq_ok.mpr ⟨hlen, hsymbols, rfl⟩)
    rw [hencode] at hpadded
    exact hpadded (wellPadded_encode _)
  · intro h
    have hreturns : ∀ b, base64Decode fmt s = .ok b ↔ stripped s = encode b := by
      intro b
      constructor
      · intro hdecode
        obtain ⟨hlen, hsymbols, rfl⟩ := base64Decode_eq_ok.mp hdecode
        rcases h with h | ⟨c, hc, hsymbol⟩ | hpadded
        · exact absurd hlen h
        · exact absurd (hsymbols c hc) hsymbol
        · exact (encode_octets hsymbols hpadded).symm
      · exact base64Decode_encode
    refine ⟨hreturns, ?_⟩
    rw [Exec.failed_iff (base64Decode_ne_panic s)]
    exact not_congr (exists_congr hreturns)

/-- The texts of errors, without escapes. -/
def plainFmt : Fmt where
  debugStr s := "\"" ++ s ++ "\""
  debugChar c := "'" ++ String.singleton c ++ "'"
  utf8Error _ := "invalid utf-8 sequence"

/-- A group of padding only, padding in the middle of a group and in front of another one, and bits
that are left over: all three are decoded, and are not what the encoding writes. -/
theorem base64_lenient :
    (base64Decode plainFmt "====".toList = .ok [0x00] ∧ stripped "====".toList ≠ encode [0x00]) ∧
    (base64Decode plainFmt "Q=Q=QUJD".toList = .ok [0x40, 0x41, 0x42, 0x43] ∧
      stripped "Q=Q=QUJD".toList ≠ encode [0x40, 0x41, 0x42, 0x43]) ∧
    base64Decode plainFmt "QR==".toList = .ok [0x41] ∧ stripped "QR==".toList ≠ encode [0x41] := by
  decide +kernel

end Pem
end EuiccCrypto
