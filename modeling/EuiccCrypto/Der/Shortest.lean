import EuiccCrypto.Lib.Distinguished
import EuiccCrypto.Wire
import EuiccCrypto.X509

/-!
# Which lengths are read

The distinguished rules allow one spelling of a length, the shortest (`IsShortest`). The two copies
of `read_length` refuse a leading zero, and take the long form of a length below 128, which has a
short form. `readLength_shortest_iff` says that they read the shortest spellings and no others
exactly on the inputs that do not start with such a length.
-/

namespace EuiccCrypto
namespace Der

open Octets Tlv

/-! ### What should be read -/

/-- The first `k` octets of `input` are the shortest spelling of `n`, with at most four octets
behind the marker. -/
def ShortestAt (input : Bytes) (n k : Nat) : Prop :=
  k ≤ input.length ∧ k ≤ 1 + 4 ∧ IsShortest n (input.take k)

/-- On `input` the reader returns a length that is spelled shortest, and fails if there is none. -/
structure ReadsShortest (read : Bytes → Exec (Nat × Nat)) (input : Bytes) : Prop where
  accepts : ∀ n k, read input = .ok (n, k) ↔ ShortestAt input n k
  rejects : (∀ n k, ¬ ShortestAt input n k) → (read input).Failed

/-- The input starts with the long form of a length that has a short form. -/
def StartsLong (input : Bytes) : Prop :=
  ∃ (x : UInt8) (rest : Bytes), input = 0x81 :: x :: rest ∧ 0 < x.toNat ∧ x.toNat < 0x80

variable {input : Bytes} {n k : Nat}

/-- The shortest spellings are the accepted ones without the needless long form. -/
theorem shortestAt_iff : ShortestAt input n k ↔
    ∃ os rest, input = os ++ rest ∧ LengthOctets n os ∧ k = os.length ∧
      (os.length = 2 → 0x80 ≤ n) := by
  constructor
  · rintro ⟨hle, hfour, hshortest⟩
    have hlen : (input.take k).length = k := List.length_take_of_le hle
    have hos : LengthOctets n (input.take k) := hshortest.lengthOctets (by omega)
    exact ⟨input.take k, input.drop k, (List.take_append_drop k input).symm, hos, hlen.symm,
      hos.isShortest_iff.mp hshortest⟩
  · rintro ⟨os, rest, rfl, hos, rfl, hlong⟩
    have hle := hos.length_le
    refine ⟨by rw [List.length_append]; omega, by omega, ?_⟩
    rw [List.take_left]
    exact hos.isShortest_iff.mpr hlong

theorem startsLong_iff : StartsLong input ↔
    ∃ m os rest, input = os ++ rest ∧ LengthOctets m os ∧ os.length = 2 ∧ m < 0x80 := by
  constructor
  · rintro ⟨x, rest, rfl, hpos, hlt⟩
    have hx : x ≠ 0 := UInt8.pos_iff_ne_zero.mp hpos
    have hvalue : beValue [x] = x.toNat := by simp [beValue]
    refine ⟨_, [0x81, x], rest, rfl, LengthOctets.long rfl (by simp) hx, rfl, ?_⟩
    rwa [hvalue]
  · rintro ⟨m, os, rest, rfl, hos, hlen, hlt⟩
    cases hos with
    | short _ => cases hlen
    | @long marker x ds hm _ hx =>
        obtain rfl : ds = [] := List.eq_nil_of_length_eq_zero (by simpa using hlen)
        obtain rfl : marker = 0x81 := UInt8.toNat_inj.mp hm
        have hvalue : beValue [x] = x.toNat := by simp [beValue]
        exact ⟨x, rest, rfl, UInt8.pos_iff_ne_zero.mpr hx, by rwa [hvalue] at hlt⟩

/-! ### What is read -/

section ReadLength

variable {error : String → Error} {unsupported : UInt8 → Nat → Nat → String}

theorem readsShortest_iff :
    ReadsShortest (readLengthWith error unsupported) input ↔ ¬ StartsLong input := by
  constructor
  · intro h hstarts
    obtain ⟨m, os, rest, rfl, hos, hlen, hlt⟩ := startsLong_iff.mp hstarts
    -- The needless long form is read, so it would have to be a shortest spelling.
    have hread := (h.accepts m os.length).mp (readLengthWith_append hos rest)
    obtain ⟨os', rest', heq, hos', -, hlong⟩ := shortestAt_iff.mp hread
    obtain ⟨-, rfl, -⟩ := hos.append_inj hos' heq
    exact absurd (hlong hlen) (by omega)
  · intro hstarts
    have haccepts : ∀ n k, readLengthWith error unsupported input = .ok (n, k) ↔
        ShortestAt input n k := by
      intro n k
      rw [readLengthWith_eq_ok, shortestAt_iff]
      constructor
      · rintro ⟨os, rest, rfl, hos, rfl⟩
        refine ⟨os, rest, rfl, hos, rfl, fun hlen => ?_⟩
        by_contra hlt
        exact hstarts (startsLong_iff.mpr ⟨n, os, rest, rfl, hos, hlen, by omega⟩)
      · rintro ⟨os, rest, rfl, hos, rfl, -⟩
        exact ⟨os, rest, rfl, hos, rfl⟩
    refine ⟨haccepts, fun hnone => ?_⟩
    cases hread : readLengthWith error unsupported input with
    | ok r => exact absurd ((haccepts r.1 r.2).mp hread) (hnone r.1 r.2)
    | err e => exact ⟨e, rfl⟩
    | panic => exact absurd hread (readLengthWith_ne_panic input)

end ReadLength

theorem x509_readsShortest_iff : ReadsShortest X509.readLength input ↔ ¬ StartsLong input := by
  unfold X509.readLength
  exact readsShortest_iff

theorem wire_readsShortest_iff : ReadsShortest Wire.readLength input ↔ ¬ StartsLong input := by
  unfold Wire.readLength
  exact readsShortest_iff

/-- **Lengths are read in their shortest spelling only**, by both copies of `read_length`, exactly
on the inputs that do not start with the long form of a length below 128. -/
theorem readLength_shortest_iff (input : Bytes) :
    (ReadsShortest X509.readLength input ↔ ¬ StartsLong input) ∧
      (ReadsShortest Wire.readLength input ↔ ¬ StartsLong input) :=
  ⟨x509_readsShortest_iff, wire_readsShortest_iff⟩

/-- The length 5 is read in the long form by both, and has a short form. -/
theorem long_form_accepted :
    X509.readLength [0x81, 0x05] = .ok (5, 2) ∧ Wire.readLength [0x81, 0x05] = .ok (5, 2) ∧
      IsShortest 5 [0x05] ∧ ¬ ReadsShortest X509.readLength [0x81, 0x05] ∧
      ¬ ReadsShortest Wire.readLength [0x81, 0x05] := by
  have hshortest : IsShortest 5 [0x05] := isShortest_lengthOctets (by decide)
  have hstarts : StartsLong [0x81, 0x05] := ⟨0x05, [], rfl, by decide, by decide⟩
  refine ⟨by decide +kernel, by decide +kernel, hshortest, ?_, ?_⟩
  · exact fun h => x509_readsShortest_iff.mp h hstarts
  · exact fun h => wire_readsShortest_iff.mp h hstarts

end Der
end EuiccCrypto
