import EuiccCrypto.Usize.Bounds

/-!
# Four readers of elements

The elements of a certificate are read by `read_tlv_any` and, where only the short form of a length
is expected, by `read_tlv_consumed` and `read_tlv_consumed_checked`; `read_tlv` of `wire.rs` knows
tags of two octets besides. `readers_agree` says where they read the same.
-/

namespace EuiccCrypto
namespace Usize

open Octets Tlv

variable {w : Width} {b val : Bytes} {tag : UInt8} {used : Nat}

/-! ### Short lengths -/

/-- What a short-form reader reads is an element for `read_tlv_any`, too, and declares a small
length. -/
theorem readTlvAny_of_readTlvConsumed
    (h : X509.readTlvConsumed b = some (tag, val, used)) :
    readTlvAny w b = .ok (tag, val, used) := by
  obtain ⟨hshort, -, rest, hb⟩ := X509.readTlvConsumed_eq_some_iff.mp h
  have hsmall : ¬ DeclaresTooMuch b := by
    have hos := lengthOctets_spec (n := val.length) (by omega)
    have hle := hos.length_le
    rw [hb, encode, List.cons_append, List.append_assoc, declaresTooMuch_iff hos]
    omega
  rw [(readTlvAny_tracks b).agrees fun hlarge => hsmall hlarge.2]
  exact X509.readTlvAny_eq_ok.mpr (X509.readTlvConsumed_eq_some h)

/-- An element whose length takes one octet is read by the short-form readers. -/
theorem readTlvConsumed_of_readTlvAny {n : Nat} (h : X509.readTlvAny b = .ok (tag, val, used))
    (hone : X509.readLength (b.drop 1) = .ok (n, 1)) :
    X509.readTlvConsumed b = some (tag, val, used) := by
  obtain ⟨_, rest, rfl, ⟨_, ⟨os, hos, rfl⟩, rfl⟩, rfl⟩ := X509.readTlvAny_eq_ok.mp h
  have hread : X509.readLength (os ++ (val ++ rest)) = .ok (val.length, os.length) :=
    Der.readLengthWith_append hos (val ++ rest)
  rw [List.append_assoc, List.cons_append, List.drop_succ_cons, List.drop_zero, hread] at hone
  rw [Exec.ok.injEq, Prod.mk.injEq] at hone
  have hshort := hos.lt_of_length_eq_one hone.2
  have heq : tag :: os ++ val = encode tag val := by
    rw [encode, ← hos.eq_lengthOctets (by omega), List.cons_append]
  rw [heq]
  exact X509.readTlvConsumed_encode (by omega) rest

/-! ### Tags of one octet -/

/-- The first octet is the marker of a tag of several octets. -/
def StartsWithMarker (b : Bytes) : Prop := ∃ first ∈ b.head?, first &&& 0x1f = 0x1f

/-- Behind a tag of one octet the two readers read the same. -/
theorem wireReadTlv_eq_ok_iff (hmarker : ¬ StartsWithMarker b) {wireTag : UInt16} :
    Wire.readTlv b = .ok (wireTag, val, used) ↔
      ∃ tag, wireTag = tag.toUInt16 ∧ X509.readTlvAny b = .ok (tag, val, used) := by
  simp only [Wire.readTlv_eq_ok, X509.readTlvAny_eq_ok]
  constructor
  · rintro ⟨ts, os, rest, rfl, hts, hos, rfl⟩
    generalize ht : wireTag.toNat = t at hts
    cases hts with
    | @one first _ =>
        refine ⟨first, UInt16.toNat_inj.mp (by rw [ht, UInt8.toNat_toUInt16]), ?_⟩
        refine ⟨first :: os ++ val, rest, by simp, ⟨_, ⟨os, hos, rfl⟩, rfl⟩, ?_⟩
        simp only [List.length_append, List.length_cons, List.length_nil]
        omega
    | @two first _ hfirst =>
        exact absurd ⟨first, rfl, by simpa using Wire.and_0x1f_eq.mpr hfirst⟩ hmarker
  · rintro ⟨tag, rfl, _, rest, rfl, ⟨_, ⟨os, hos, rfl⟩, rfl⟩, rfl⟩
    have htag : tag.toNat % 32 ≠ 31 := fun h =>
      hmarker ⟨tag, rfl, by simpa using Wire.and_0x1f_eq.mpr h⟩
    refine ⟨[tag], os, rest, rfl, ?_, hos, ?_⟩
    · rw [UInt8.toNat_toUInt16]
      exact .one htag
    · simp only [List.length_append, List.length_cons, List.length_nil]
      omega

/-- **The readers agree.** The two short-form readers return the same elements, and
`read_tlv_any` returns these and, with a length of one octet, no others. If words have 64 bits and
`b` does not start with the marker of a longer tag, then `read_tlv_any` and the reader of `wire.rs`
both fail or return the same element. -/
theorem readers_agree (w : Width) (b : Bytes) :
    (∀ r, readTlvConsumed w b = .ok (some r) ↔ readTlvConsumedChecked w b = .ok r) ∧
      (∀ r, readTlvConsumed w b = .ok (some r) → readTlvAny w b = .ok r) ∧
      (∀ r n, readTlvAny w b = .ok r → readLength w (b.drop 1) = .ok (n, 1) →
        readTlvConsumed w b = .ok (some r) ∧ readTlvConsumedChecked w b = .ok r) ∧
      (¬ StartsWithMarker b →
        ((readTlvAny .w64 b).Failed ∧ (wireReadTlv .w64 b).Failed) ∨
          ∃ tag val used, readTlvAny .w64 b = .ok (tag, val, used) ∧
            wireReadTlv .w64 b = .ok (tag.toUInt16, val, used)) := by
  have hchecked : ∀ r, X509.readTlvConsumed b = some r ↔ X509.readTlvConsumedChecked b = .ok r := by
    intro r
    rw [← X509.readTlvConsumedChecked_ok?, Exec.ok?_eq_some]
  simp only [readTlvConsumed_eq, readTlvConsumedChecked_eq, readLength_eq, Exec.ok.injEq]
  refine ⟨hchecked, ?_, ?_, fun hmarker => ?_⟩
  · rintro ⟨tag, val, used⟩ hread
    exact readTlvAny_of_readTlvConsumed hread
  · rintro ⟨tag, val, used⟩ n hread hone
    have hsome := readTlvConsumed_of_readTlvAny ((readTlvAny_tracks b).of_ok hread) hone
    exact ⟨hsome, (hchecked _).mp hsome⟩
  · have hany : readTlvAny .w64 b = X509.readTlvAny b := (readTlvAny_tracks b).agrees nofun
    rw [hany, wireReadTlv_eq]
    cases hread : X509.readTlvAny b with
    | ok r =>
        obtain ⟨tag, val, used⟩ := r
        exact .inr ⟨tag, val, used, rfl, (wireReadTlv_eq_ok_iff hmarker).mpr ⟨tag, rfl, hread⟩⟩
    | err e =>
        refine .inl ⟨⟨e, rfl⟩, ?_⟩
        cases hwire : Wire.readTlv b with
        | ok r =>
            obtain ⟨_, val, used⟩ := r
            obtain ⟨tag, -, hok⟩ := (wireReadTlv_eq_ok_iff hmarker).mp hwire
            cases hread.symm.trans hok
        | err e' => exact ⟨e', rfl⟩
        | panic => exact absurd hwire (Wire.readTlv_ne_panic b)
    | panic => exact absurd hread (X509.readTlvAny_ne_panic b)

/-- At a marker they read different elements. -/
example : readTlvAny .w64 [0x1f, 0x01, 0x00] = .ok (0x1f, [0x00], 3) ∧
    wireReadTlv .w64 [0x1f, 0x01, 0x00] = .ok (0x1f01, [], 3) := by
  decide +kernel

end Usize
end EuiccCrypto
