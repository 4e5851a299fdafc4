import EuiccCrypto.Bsp.Session

/-!
# What BSP puts on the wire and what it takes from there

`encode` writes tags of up to four octets and lengths of up to two octets behind the marker, all
in one spelling. `decode` knows tags of one and two octets, takes lengths in other spellings too,
and leaves what follows the TLV unread.

* `decode_encode_iff`: which tags `decode` reads back.
* `canonical_iff`: which inputs `encode` gives back, in `bsp.rs` and for the signature field of
  `wire.rs`.
-/

namespace EuiccCrypto
namespace Bsp

open Octets Tlv Wire

/-! ### Tags of up to four octets -/

/-- The BER identifiers of one to four octets. In the long form the low five bits of the first
octet are set, and the tag number follows in base 128, most significant digit first, with the top
bit set on every digit but the last and with no leading zero digit. -/
inductive BerIdentifier : Bytes → Prop
  | short {b : UInt8} : b.toNat % 32 ≠ 31 → BerIdentifier [b]
  | long {a last : UInt8} {digits : Bytes} : a.toNat % 32 = 31 → digits.length ≤ 2 →
      (∀ d ∈ digits, 0x80 ≤ d.toNat) → digits.head? ≠ some 0x80 → last.toNat < 0x80 →
      (digits = [] → 31 ≤ last.toNat) → BerIdentifier (a :: (digits ++ [last]))

/-- The long form with three octets or more does not fit 16 bits. -/
theorem BerIdentifier.lt_beValue {ts : Bytes} (h : BerIdentifier ts) (hlen : 2 < ts.length) :
    0xffff < beValue ts := by
  cases h with
  | short _ => simp at hlen
  | @long a last digits ha _ _ _ _ _ =>
      simp only [List.length_cons] at hlen
      have hpow : 256 ^ 2 ≤ 256 ^ (digits ++ [last]).length :=
        Nat.pow_le_pow_right (by omega) (by omega)
      rw [beValue_cons]
      calc 0xffff < 1 * 256 ^ 2 := by omega
        _ ≤ a.toNat * 256 ^ (digits ++ [last]).length := Nat.mul_le_mul (by omega) hpow
        _ ≤ _ := Nat.le_add_right _ _

theorem BerIdentifier.tagOctets {ts : Bytes} (h : BerIdentifier ts) (hlen : ts.length ≤ 2) :
    TagOctets (beValue ts) ts := by
  cases h with
  | @short b hb => simpa [beValue] using TagOctets.one hb
  | @long a last digits ha _ _ _ _ _ =>
      simp only [List.length_cons, List.length_append, List.length_nil] at hlen
      obtain rfl : digits = [] := List.eq_nil_of_length_eq_zero (by omega)
      simpa [beValue] using TagOctets.two (b := last) ha

section Tags

variable {C : Ciphers} {keys : BspSessionKeys} {chaining chaining' : Bytes}

/-- **BSP decodes what it encodes up to two tag octets**, and no block with a longer tag. -/
theorem decode_encode_iff {s : Segment} {ts : Bytes} {tlv : ProtectedTlv} (hts : BerIdentifier ts)
    (htag : s.tag.toNat = beValue ts) (hw : s.wrap C keys chaining = (.ok tlv, chaining')) :
    decode (encode tlv) = .ok tlv ↔ ts.length ≤ 2 := by
  obtain ⟨ht, -, hadv⟩ := Segment.wrap_eq_ok.mp hw
  rw [← ht] at htag
  constructor
  · intro h
    by_contra hlen
    obtain ⟨us, hus⟩ := decode_isTag h
    have hlt := hus.lt
    have hgt := hts.lt_beValue (by omega)
    omega
  · intro hlen
    have htag' : IsTag tlv.tag := ⟨ts, htag ▸ hts.tagOctets hlen⟩
    simpa using decode_encode htag' hadv.length_cmac hadv.length_data_le []

theorem decode_encode_iff_two_octets :
    let tlv : ProtectedTlv := ⟨0xbf37, "metadata".toUTF8.toList, sampleEarlyCmac.val.take 8⟩
    (Segment.mk .macOnly 0xbf37 "metadata".toUTF8.toList 1).wrap sampleCiphers sampleKeys
        sampleKeys.macChaining = (.ok tlv, sampleEarlyCmac.val) ∧
      decode (encode tlv) = .ok tlv := by
  intro tlv
  have hw : (Segment.mk .macOnly 0xbf37 "metadata".toUTF8.toList 1).wrap sampleCiphers sampleKeys
      sampleKeys.macChaining = (.ok tlv, sampleEarlyCmac.val) := by decide +kernel
  have hts : BerIdentifier (0xbf :: ([] ++ [0x37])) :=
    .long (by decide) (by decide) (by simp) (by decide) (by decide) (by decide)
  exact ⟨hw, (decode_encode_iff hts (by decide) hw).mpr (by decide)⟩

def longTagCmac : Block :=
  ⟨[0x7c, 0x5f, 0x92, 0x12, 0xff, 0x21, 0x38, 0xa8, 0xc1, 0x6c, 0x1d, 0xae, 0xcc, 0x58, 0xbb,
    0xc6], rfl⟩

/-- CMAC on the block with the tag `BF 81 08`. -/
def longTagCiphers : Ciphers where
  aes _ := Equiv.refl Block
  cmac key input :=
    if key.val = sampleKeys.sMac ∧ input = sampleKeys.macChaining ++ [0xbf, 0x81, 0x08, 0x10] ++
        "metadata".toUTF8.toList then longTagCmac
    else Cbc128.numberBlock 0

/-- A block under a tag of three octets comes back with another tag, no data and a C-MAC made of
its length octet and its data. -/
theorem long_tag_misread :
    BerIdentifier [0xbf, 0x81, 0x08] ∧
    let tlv : ProtectedTlv := ⟨0xbf8108, "metadata".toUTF8.toList, longTagCmac.val.take 8⟩
    (Segment.mk .macOnly 0xbf8108 "metadata".toUTF8.toList 1).wrap longTagCiphers sampleKeys
        sampleKeys.macChaining = (.ok tlv, longTagCmac.val) ∧
      decode (encode tlv) = .ok ⟨0xbf81, [], 0x10 :: "metadat".toUTF8.toList⟩ := by
  have hts : BerIdentifier (0xbf :: ([0x81] ++ [0x08])) :=
    .long (by decide) (by decide) (by simp) (by decide) (by decide) (by decide)
  exact ⟨hts, by decide +kernel, by decide +kernel⟩

end Tags

/-! ### Canonical inputs -/

/-- Writing back a decoded TLV is writing back its tag, its length and its content. -/
theorem encode_eq {tlv : ProtectedTlv} {ts : Bytes} (h : TagOctets tlv.tag.toNat ts) :
    encode tlv = ts ++ derLength (tlv.data ++ tlv.cmac).length ++ (tlv.data ++ tlv.cmac) := by
  rw [encode, encodeRawTlv, encodedTag_eq h]

/-- The C-MAC of a decoded TLV is computed over the chaining value and what `encode` writes, up to
the C-MAC itself. -/
theorem macInput_append_cmac {tlv : ProtectedTlv} (h : tlv.cmac.length = cmacLen)
    (chaining : Bytes) :
    macInput chaining tlv.tag tlv.data ++ tlv.cmac = chaining ++ encode tlv := by
  rw [macInput, encode, encodeRawTlv, List.length_append, h]
  simp

/-- **An input is the encoding of what is read from it when it is canonical, and only then**: when
nothing follows the TLV and the length is in the one spelling `der_length` has for it. Then the
C-MAC is computed over the octets received, and only then. The same holds of the signature
field. -/
theorem canonical_iff (b : Bytes) :
    (∀ tlv, decode b = .ok tlv →
      (encode tlv = b ↔ CanonicalTlv b) ∧
      ∀ chaining, macInput chaining tlv.tag tlv.data ++ tlv.cmac = chaining ++ b ↔
        CanonicalTlv b) ∧
    ∀ raw, parseSignatureBytes b = .ok raw → (encodeSignatureBytes raw = b ↔ CanonicalTlv b) := by
  constructor
  · intro tlv h
    obtain ⟨ts, os, rest, rfl, hts, hos, hc⟩ := decode_eq_ok.mp h
    have hiff : encode tlv = ts ++ os ++ (tlv.data ++ tlv.cmac) ++ rest ↔
        CanonicalTlv (ts ++ os ++ (tlv.data ++ tlv.cmac) ++ rest) := by
      rw [encode_eq hts]
      exact canonicalTlv_iff hts hos
    refine ⟨hiff, ?_⟩
    intro chaining
    rw [macInput_append_cmac hc, List.append_right_inj, hiff]
  · intro raw h
    obtain ⟨os, rest, rfl, hos⟩ := parseSignatureBytes_eq_ok.mp h
    exact canonicalTlv_iff tagOctets_signature hos

/-- A block with a two-octet tag as it goes on the wire. -/
def canonicalBlock : Bytes :=
  [0xbf, 0x37] ++ [0x10] ++ ("metadata".toUTF8.toList ++ sampleEarlyCmac.val.take 8)

theorem canonical_iff_block :
    ∃ tlv, decode canonicalBlock = .ok tlv ∧ encode tlv = canonicalBlock := by
  have hdec : decode canonicalBlock =
      .ok ⟨0xbf37, "metadata".toUTF8.toList, sampleEarlyCmac.val.take 8⟩ := by decide +kernel
  have hlen : ("metadata".toUTF8.toList ++ sampleEarlyCmac.val.take 8).length = 0x10 := by
    decide +kernel
  refine ⟨_, hdec, ?_⟩
  apply (((canonical_iff canonicalBlock).1 _ hdec).1).mpr
  refine ⟨_, [0xbf, 0x37], [0x10], _, rfl, TagOctets.two (by decide), ?_, by decide, by decide⟩
  rw [hlen]
  exact LengthOctets.short (b := 0x10) (by decide)

/-- One block in three spellings: as it is encoded, with a length in the long form, and with an
octet behind it. All three decode to the same. -/
theorem three_spellings :
    let tlv : ProtectedTlv := ⟨0x86, [], [1, 2, 3, 4, 5, 6, 7, 8]⟩
    encode tlv = [0x86, 0x08, 1, 2, 3, 4, 5, 6, 7, 8] ∧
      decode [0x86, 0x08, 1, 2, 3, 4, 5, 6, 7, 8] = .ok tlv ∧
      decode [0x86, 0x81, 0x08, 1, 2, 3, 4, 5, 6, 7, 8] = .ok tlv ∧
      decode [0x86, 0x08, 1, 2, 3, 4, 5, 6, 7, 8, 0xff] = .ok tlv ∧
      parseSignatureBytes [0x5f, 0x37, 0x81, 0x01, 0xab] = .ok [0xab] ∧
      encodeSignatureBytes [0xab] ≠ [0x5f, 0x37, 0x81, 0x01, 0xab] := by
  decide +kernel

/-! ### What CMAC is fed -/

/-- A tag that `decode` can return. -/
def DecodedTag (tag : UInt32) : Prop := ∃ b tlv, decode b = .ok tlv ∧ tlv.tag = tag

theorem decodedTag_iff {tag : UInt32} : DecodedTag tag ↔ IsTag tag := by
  constructor
  · rintro ⟨b, tlv, h, rfl⟩
    exact decode_isTag h
  · intro h
    let tlv : ProtectedTlv := ⟨tag, [], List.replicate cmacLen 0⟩
    have hdec : decode (encode tlv ++ []) = .ok tlv :=
      decode_encode h List.length_replicate (by simp [tlv, cmacLen]) []
    exact ⟨_, tlv, hdec, rfl⟩

/-- Arguments of `full_cmac` with which it does not fail, and with a tag that was decoded. -/
@[ext] structure CmacArgs where
  chaining : Bytes
  tag : UInt32
  finalLength : Nat
  data : Bytes
  length_chaining : chaining.length = keyLen
  decodedTag : DecodedTag tag
  finalLength_le : finalLength ≤ 0xFFFF

/-- What `full_cmac` feeds to CMAC for these arguments. -/
def CmacArgs.input (a : CmacArgs) : Bytes := cmacInput a.chaining a.tag a.finalLength a.data

/-- **The C-MAC input is unambiguous.** What `full_cmac` returns is the CMAC of `cmacInput`; that
determines the chaining value, a tag that was decoded, the final length and the data; and for a
block it is the chaining value and what `encode` writes without the C-MAC. -/
theorem cmacInput_unambiguous :
    (∀ (C : Ciphers) (sCmac chaining : Bytes) (tag : UInt32) (n : Nat) (data full : Bytes),
      fullCmac C sCmac chaining tag n data = .ok full ↔ chaining.length = keyLen ∧ n ≤ 0xFFFF ∧
        ∃ mac : Block, mac.val = sCmac ∧
          (C.cmac mac (cmacInput chaining tag n data)).val = full) ∧
    Function.Injective CmacArgs.input ∧
    ∀ (tlv : ProtectedTlv) (chaining : Bytes), tlv.cmac.length = cmacLen →
      (tlv.data ++ tlv.cmac).length ≤ 0xFFFF →
      cmacInput chaining tlv.tag (tlv.data.length + cmacLen) tlv.data =
        chaining ++ (encode tlv).take ((encode tlv).length - cmacLen) := by
  refine ⟨fun _ _ _ _ _ _ _ => fullCmac_eq_ok_of_input, ?_, ?_⟩
  · intro a a' h
    obtain ⟨hchain, htag, hlen, hdata⟩ :=
      cmacInput_inj (a.length_chaining.trans a'.length_chaining.symm)
        (decodedTag_iff.mp a.decodedTag) (decodedTag_iff.mp a'.decodedTag) a.finalLength_le
        a'.finalLength_le h
    exact CmacArgs.ext hchain htag hlen hdata
  · intro tlv chaining hc _
    have hencode : encode tlv =
        encodedTag tlv.tag ++ derLength (tlv.data.length + cmacLen) ++ tlv.data ++ tlv.cmac := by
      rw [encode, encodeRawTlv, List.length_append, hc, List.append_assoc _ tlv.data]
    rw [hencode, List.length_append, hc, Nat.add_sub_cancel, List.take_left, cmacInput]
    simp only [List.append_assoc]

/-- Of tags that are never decoded, one can hold the octets of a tag and of the length after it. -/
example (chaining data : Bytes) :
    cmacInput chaining 0x86 8 (0x05 :: data) = cmacInput chaining 0x8608 5 data := by
  rw [cmacInput, cmacInput, List.append_assoc, List.append_assoc, List.append_assoc,
    List.append_assoc]
  rfl

end Bsp
end EuiccCrypto
