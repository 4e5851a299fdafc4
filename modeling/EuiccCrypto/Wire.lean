import EuiccCrypto.Der

/-!
# Wire encodings

`wire.rs`: the `5F37` signature field and the TLV reader that BSP framing shares. The reader
takes one- and two-octet tags; `TagOctets` is the set it accepts and `readTlv_eq_ok` says
exactly when it succeeds and with what. It takes more spellings than `der_length` writes:
`CanonicalTlv` is the one that writing back gives. `signature_round_trip_iff` says up to which
length the signature field comes back.
-/

namespace EuiccCrypto
namespace Wire

open Octets Tlv

/-- `TAG_SIGNATURE`: the `[APPLICATION 55]` tag used for every SGP.22 signature field. -/
def tagSignature : UInt16 := 0x5F37

/-- `der_length`: encode a DER length. -/
def derLength (len : Nat) : Bytes := Der.derLength len

/-- `read_length`: read a DER length, returning `(length, bytes_consumed)`. -/
def readLength (input : Bytes) : Exec (Nat × Nat) :=
  Der.readLengthWith .malformed
    (fun first count _ => "unsupported DER length form (marker " ++ hexPrefixed first ++ ", " ++
      toString count ++ " length bytes)")
    input

/-- The tag at the front of `input` and the number of octets it takes: two when the low five
bits of the first octet are all set, one otherwise. -/
def readTag (input : Bytes) : Exec (UInt16 × Nat) :=
  if input.head?.any fun b => b &&& 0x1f == 0x1f then
    if input.length < 2 then .err (.malformed "truncated multi-byte tag")
    else do
      let hi ← index input 0
      let lo ← index input 1
      -- The second octet is the last one, also when its top bit says that more follow.
      .ok (hi.toUInt16 <<< 8 ||| lo.toUInt16, 2)
  else do
    let b ← Exec.okOr (.malformed "empty input") input.head?
    .ok (b.toUInt16, 1)

/-- `read_tlv`: read a TLV, returning `(tag, value, total_bytes)`. (The `checked_add` of the
source cannot fail on a 64-bit target.) -/
def readTlv (input : Bytes) : Exec (UInt16 × Bytes × Nat) := do
  let (tag, tagBytes) ← readTag input
  let (len, lenBytes) ← sliceFrom input tagBytes >>= readLength
  let start := tagBytes + lenBytes
  let stop := start + len
  if input.length < stop then
    .err (.malformed ("TLV " ++ hexPrefixed16 tag ++ " declares " ++ toString len ++
      " bytes, only " ++ toString (input.length - start) ++ " remain"))
  else do
    let value ← slice input start stop
    .ok (tag, value, stop)

/-- `encode_signature_bytes`: encode raw signature bytes as a `5F37` OCTET STRING. -/
def encodeSignatureBytes (raw : Bytes) : Bytes := [0x5f, 0x37] ++ derLength raw.length ++ raw

/-- `parse_signature_bytes`: parse a `5F37` OCTET STRING and return the raw bytes. -/
def parseSignatureBytes (data : Bytes) : Exec Bytes := do
  let (tag, value, _) ← readTlv data
  if tag ≠ tagSignature then
    .err (.malformed ("signature field tag is " ++ hexPrefixed16 tag ++ ", expected " ++
      hexPrefixed16 tagSignature))
  else .ok value

/-! ### The tags the reader knows -/

/-- The identifier octets `read_tlv` splits off, with the tag it makes of them. Every one-octet
BER identifier is one, and every two-octet one. -/
inductive TagOctets : Nat → Bytes → Prop
  | one {b : UInt8} : b.toNat % 32 ≠ 31 → TagOctets b.toNat [b]
  | two {a b : UInt8} : a.toNat % 32 = 31 → TagOctets (a.toNat * 256 + b.toNat) [a, b]

/-- Tags are self-delimiting. -/
theorem TagOctets.append_inj {t t' : Nat} {ts ts' r r' : Bytes} (h : TagOctets t ts)
    (h' : TagOctets t' ts') (heq : ts ++ r = ts' ++ r') : t = t' ∧ ts = ts' ∧ r = r' := by
  cases h <;> cases h' <;>
    simp only [List.cons_append, List.nil_append, List.cons.injEq] at heq
  case one.one hb _ hb' =>
    obtain ⟨rfl, rfl⟩ := heq
    exact ⟨rfl, rfl, rfl⟩
  case one.two hb _ _ ha =>
    obtain ⟨rfl, -⟩ := heq
    exact absurd ha hb
  case two.one ha _ hb =>
    obtain ⟨rfl, -⟩ := heq
    exact absurd ha hb
  case two.two =>
    obtain ⟨rfl, rfl, rfl⟩ := heq
    exact ⟨rfl, rfl, rfl⟩

/-- A tag is spelled in one way. -/
theorem TagOctets.eq_of_eq {t t' : Nat} {ts ts' : Bytes} (h : TagOctets t ts)
    (h' : TagOctets t' ts') (heq : t = t') : ts = ts' := by
  cases h <;> cases h'
  case one.one => rw [UInt8.toNat_inj.mp heq]
  case one.two b _ a b' ha =>
    have := b.toNat_lt
    omega
  case two.one a b ha b' _ =>
    have := b'.toNat_lt
    omega
  case two.two a b _ a' b' _ =>
    have hlt := b.toNat_lt
    have hlt' := b'.toNat_lt
    rw [UInt8.toNat_inj.mp (show a.toNat = a'.toNat by omega),
      UInt8.toNat_inj.mp (show b.toNat = b'.toNat by omega)]

theorem TagOctets.length_le {t : Nat} {ts : Bytes} (h : TagOctets t ts) : ts.length ≤ 2 := by
  cases h <;> simp

theorem TagOctets.lt {t : Nat} {ts : Bytes} (h : TagOctets t ts) : t < 0x10000 := by
  cases h with
  | @one b _ => have := b.toNat_lt; omega
  | @two a b _ => have := a.toNat_lt; have := b.toNat_lt; omega

theorem and_0x1f_eq {b : UInt8} : (b &&& 0x1f == 0x1f) = true ↔ b.toNat % 32 = 31 := by
  have hand : (b &&& 0x1f).toNat = b.toNat % 32 := by
    rw [UInt8.toNat_and]
    exact Nat.and_two_pow_sub_one_eq_mod b.toNat 5
  rw [beq_iff_eq, ← UInt8.toNat_inj, hand]
  rfl

theorem toNat_joined (a b : UInt8) :
    (a.toUInt16 <<< 8 ||| b.toUInt16).toNat = a.toNat * 256 + b.toNat := by
  have ha := a.toNat_lt
  have hb := b.toNat_lt
  rw [UInt16.toNat_or, UInt16.toNat_shiftLeft, UInt8.toNat_toUInt16, UInt8.toNat_toUInt16]
  have hshift : a.toNat <<< ((8 : UInt16).toNat % 16) % 2 ^ 16 = a.toNat <<< 8 := by
    rw [show (8 : UInt16).toNat % 16 = 8 from rfl, Nat.shiftLeft_eq]
    omega
  rw [hshift, ← Nat.shiftLeft_add_eq_or_of_lt hb, Nat.shiftLeft_eq]

/-- `readTag` reads the identifier octets its input starts with. -/
theorem readTag_eq_ok {input : Bytes} {tag : UInt16} {k : Nat} :
    readTag input = .ok (tag, k) ↔
      ∃ ts rest, input = ts ++ rest ∧ TagOctets tag.toNat ts ∧ k = ts.length := by
  constructor
  · intro h
    unfold readTag at h
    split at h
    · next hhi =>
        match input, hhi with
        | [a], _ => simp at h
        | a :: b :: rest, hhi =>
            simp [index] at h
            obtain ⟨rfl, rfl⟩ := h
            refine ⟨[a, b], rest, rfl, ?_, rfl⟩
            show TagOctets (a.toUInt16 <<< 8 ||| b.toUInt16).toNat [a, b]
            rw [toNat_joined]
            exact .two (and_0x1f_eq.mp (by simpa using hhi))
    · next hlo =>
        cases input with
        | nil => simp at h
        | cons b rest =>
            simp only [List.head?_cons, Exec.okOr_some, Exec.ok_bind] at h
            cases h
            refine ⟨[b], rest, rfl, ?_, rfl⟩
            rw [UInt8.toNat_toUInt16]
            exact .one fun hb => hlo (by simpa using and_0x1f_eq.mpr hb)
  · rintro ⟨ts, rest, rfl, hts, rfl⟩
    generalize ht : tag.toNat = t at hts
    cases hts with
    | @one b hb =>
        have hlo : (b &&& 0x1f == 0x1f) = false := by
          rw [← Bool.not_eq_true, and_0x1f_eq]
          exact hb
        obtain rfl : tag = b.toUInt16 :=
          UInt16.toNat_inj.mp (by rw [ht, UInt8.toNat_toUInt16])
        simp [readTag, hlo]
    | @two a b ha =>
        have hhi : (a &&& 0x1f == 0x1f) = true := and_0x1f_eq.mpr ha
        obtain rfl : tag = a.toUInt16 <<< 8 ||| b.toUInt16 :=
          UInt16.toNat_inj.mp (by rw [ht, toNat_joined])
        simp [readTag, hhi, index]

/-! ### What `read_tlv` accepts -/

/-- `read_tlv` reads the element its input starts with: identifier octets, length octets and
as many octets as the length says. -/
theorem readTlv_eq_ok {input val : Bytes} {tag : UInt16} {used : Nat} :
    readTlv input = .ok (tag, val, used) ↔
      ∃ ts os rest, input = ts ++ os ++ val ++ rest ∧ TagOctets tag.toNat ts ∧
        LengthOctets val.length os ∧ used = ts.length + os.length + val.length := by
  constructor
  · intro h
    simp only [readTlv, readLength, Exec.bind_eq_ok, Exec.ite_err_eq_ok, Prod.exists,
      readTag_eq_ok, sliceFrom_eq_ok, Der.readLengthWith_eq_ok, slice_eq_ok] at h
    obtain ⟨tag', _, ⟨ts, r₁, rfl, hts, rfl⟩, len, _, ⟨_, ⟨-, rfl⟩, os, r₂, hr, hos, rfl⟩, hlen, v,
      ⟨-, rfl⟩, h⟩ := h
    simp only [List.drop_left] at hr
    subst hr
    cases h
    have hdrop : (ts ++ (os ++ r₂)).drop (ts.length + os.length) = r₂ := by
      rw [← List.append_assoc, ← List.length_append, List.drop_left]
    have hval : (r₂.take len).length = len := by
      simp only [List.length_append] at hlen
      rw [List.length_take]
      omega
    rw [hdrop, Nat.add_sub_cancel_left]
    refine ⟨ts, os, r₂.drop len, ?_, hts, ?_, ?_⟩
    · rw [List.append_assoc (ts ++ os), List.take_append_drop, List.append_assoc]
    · rwa [hval]
    · rw [hval]
  · rintro ⟨ts, os, rest, rfl, hts, hos, rfl⟩
    have htag : readTag (ts ++ os ++ val ++ rest) = .ok (tag, ts.length) :=
      readTag_eq_ok.mpr ⟨ts, os ++ val ++ rest, by simp, hts, rfl⟩
    have hslice : sliceFrom (ts ++ os ++ val ++ rest) ts.length = .ok (os ++ (val ++ rest)) := by
      simp
    have hvalue : slice (ts ++ os ++ val ++ rest) (ts.length + os.length)
        (ts.length + os.length + val.length) = .ok val := by
      simpa using slice_append (ts ++ os) val rest
    have hfits : ¬ (ts ++ os ++ val ++ rest).length < ts.length + os.length + val.length := by
      simp only [List.length_append]
      omega
    simp only [readTlv, readLength, htag, Exec.ok_bind, hslice, Der.readLengthWith_append hos,
      if_neg hfits, hvalue]

theorem readTag_ne_panic (input : Bytes) : readTag input ≠ .panic := by
  intro h
  rw [readTag] at h
  split at h
  · simp only [Exec.ite_err_eq_panic, Exec.bind_eq_panic, index_eq_panic] at h
    obtain ⟨hlen, h | ⟨_, -, h | ⟨_, -, h⟩⟩⟩ := h
    · omega
    · omega
    · cases h
  · simp [Exec.bind_eq_panic] at h

theorem readTlv_ne_panic (input : Bytes) : readTlv input ≠ .panic := by
  intro h
  simp only [readTlv, readLength, Exec.bind_eq_panic, readTag_ne_panic, Prod.exists, readTag_eq_ok,
    sliceFrom_eq_panic, Der.readLengthWith_ne_panic, and_false, exists_false, or_false,
    Exec.ite_err_eq_panic, slice_eq_panic, false_or] at h
  obtain ⟨_, _, ⟨ts, rest, rfl, -, rfl⟩, h | ⟨len, k, -, hfits, h | ⟨_, -, h⟩⟩⟩ := h
  · rw [List.length_append] at h
    omega
  · omega
  · cases h

/-! ### Canonical spellings

A tag has one spelling that `read_tlv` knows, a length has several. What `decode` takes is written
back with the shortest (`canonicalTlv_iff`), so that it comes back as it was if its length was
spelled shortest. -/

/-- `b` is one TLV with nothing after it, and its length is in the short form, or in the long
form with one octet where one is needed, or with two. -/
def CanonicalTlv (b : Bytes) : Prop :=
  ∃ t ts os val, b = ts ++ os ++ val ∧ TagOctets t ts ∧ LengthOctets val.length os ∧
    os.length ≤ 3 ∧ (os.length = 2 → 0x80 ≤ val.length)

/-- Writing back what was read gives the same octets exactly when they are canonical. -/
theorem canonicalTlv_iff {t : Nat} {ts os val rest : Bytes} (hts : TagOctets t ts)
    (hos : LengthOctets val.length os) :
    ts ++ derLength val.length ++ val = ts ++ os ++ val ++ rest ↔
      CanonicalTlv (ts ++ os ++ val ++ rest) := by
  constructor
  · intro h
    simp only [List.append_assoc] at h
    rcases Der.eq_mod_of_derLength hos (List.append_cancel_left h).symm with
      ⟨-, -, hlen, hrest⟩ | ⟨hgt, hmod⟩
    · obtain rfl : rest = [] := by simpa using hrest
      exact ⟨t, ts, os, val, by simp, hts, hos, (Der.derLength_eq_iff hos).mp hlen⟩
    · omega
  · rintro ⟨t', ts', os', val', heq, hts', hos', hform⟩
    simp only [List.append_assoc] at heq
    obtain ⟨-, rfl, hlong⟩ := hts.append_inj hts' heq
    obtain ⟨hlen, rfl, hval⟩ := hos.append_inj hos' hlong
    obtain ⟨rfl, hrest⟩ := List.append_inj (hval.trans (List.append_nil val').symm) hlen
    rw [hrest, List.append_nil]
    exact congrArg (ts ++ · ++ val) ((Der.derLength_eq_iff hos').mpr hform).symm

/-! ### The signature field -/

theorem tagOctets_signature : TagOctets tagSignature.toNat [0x5f, 0x37] :=
  TagOctets.two (a := 0x5f) (b := 0x37) (by decide)

/-- `parse_signature_bytes` reads the `5F37` element its input starts with. -/
theorem parseSignatureBytes_eq_ok {data value : Bytes} :
    parseSignatureBytes data = .ok value ↔
      ∃ os rest, data = [0x5f, 0x37] ++ os ++ value ++ rest ∧ LengthOctets value.length os := by
  simp only [parseSignatureBytes, Exec.bind_eq_ok, Prod.exists, readTlv_eq_ok, Exec.ite_err_eq_ok,
    not_not]
  constructor
  · rintro ⟨tag, v, _, ⟨ts, os, rest, rfl, hts, hos, -⟩, rfl, h⟩
    cases h
    obtain rfl := hts.eq_of_eq tagOctets_signature rfl
    exact ⟨os, rest, rfl, hos⟩
  · rintro ⟨os, rest, rfl, hos⟩
    exact ⟨tagSignature, value, _, ⟨[0x5f, 0x37], os, rest, rfl, tagOctets_signature, hos, rfl⟩, rfl,
      rfl⟩

theorem parseSignatureBytes_ne_panic (data : Bytes) : parseSignatureBytes data ≠ .panic := by
  intro h
  simp only [parseSignatureBytes, Exec.bind_eq_panic, readTlv_ne_panic, Exec.ite_err_eq_panic,
    false_or] at h
  obtain ⟨_, -, -, h⟩ := h
  cases h

/-- Parsing undoes encoding up to 65535 octets, and returns fewer octets or nothing above. -/
theorem parse_encodeSignatureBytes (raw : Bytes) :
    (raw.length ≤ 0xffff → parseSignatureBytes (encodeSignatureBytes raw) = .ok raw) ∧
      ∀ value, parseSignatureBytes (encodeSignatureBytes raw) = .ok value →
        0xffff < raw.length → value.length < raw.length := by
  constructor
  · intro h
    exact parseSignatureBytes_eq_ok.mpr ⟨derLength raw.length, [], by simp [encodeSignatureBytes],
      Der.derLength_spec h⟩
  · intro value h hgt
    obtain ⟨os, rest, heq, hos⟩ := parseSignatureBytes_eq_ok.mp h
    simp only [encodeSignatureBytes, List.append_assoc] at heq
    rcases Der.eq_mod_of_derLength hos (List.append_cancel_left heq).symm with
      ⟨hle, -⟩ | ⟨-, hmod⟩ <;> omega

/-- **The signature field round trip ends at 65535 octets.** Up to there a field parses back to
what was encoded and `der_length` reads back as the length it was given; from there on neither
holds, for any field or length. -/
theorem signature_round_trip_iff (raw : Bytes) (len : Nat) :
    (parseSignatureBytes (encodeSignatureBytes raw) = .ok raw ↔ raw.length ≤ 0xffff) ∧
    (((∀ rest, readLength (derLength len ++ rest) = .ok (len, (derLength len).length)) ∧
      ∀ rest n k, readLength (derLength len ++ rest) = .ok (n, k) → len ≤ n) ↔
        len ≤ 0xffff) := by
  refine ⟨⟨?_, (parse_encodeSignatureBytes raw).1⟩, ⟨?_, ?_⟩⟩
  · intro h
    by_contra hgt
    exact absurd ((parse_encodeSignatureBytes raw).2 raw h (by omega)) (Nat.lt_irrefl _)
  · rintro ⟨hread, -⟩
    obtain ⟨os, r, heq, hos, -⟩ := Der.readLengthWith_eq_ok.mp (hread [])
    rcases Der.eq_mod_of_derLength hos heq.symm with ⟨hle, -⟩ | ⟨hgt, hmod⟩ <;> omega
  · intro hle
    refine ⟨fun rest => Der.readLengthWith_append (Der.derLength_spec hle) rest, ?_⟩
    intro rest n k h
    obtain ⟨os, r, heq, hos, -⟩ := Der.readLengthWith_eq_ok.mp h
    rcases Der.eq_mod_of_derLength hos heq.symm with ⟨-, hn, -⟩ | ⟨hgt, -⟩ <;> omega

/-- A field of 65792 octets comes back as one of 256. -/
theorem signature_cut_off :
    parseSignatureBytes (encodeSignatureBytes (List.replicate 0x10100 0xab)) =
      .ok (List.replicate 0x100 0xab) := by
  refine parseSignatureBytes_eq_ok.mpr
    ⟨[0x82, 0x01, 0x00], List.replicate 0x10000 0xab, ?_, ?_⟩
  · rw [encodeSignatureBytes, derLength, List.length_replicate, Der.derLength_of_gt (by decide),
      List.append_assoc _ (List.replicate _ _), ← List.replicate_add]
    rfl
  · rw [List.length_replicate]
    show LengthOctets (beValue [0x01, 0x00]) [0x82, 0x01, 0x00]
    exact .long rfl (by decide) (by decide)

end Wire
end EuiccCrypto
