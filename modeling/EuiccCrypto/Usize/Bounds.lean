import EuiccCrypto.Bsp
import EuiccCrypto.Usize.Parts
import EuiccCrypto.Usize.Readers

/-!
# Staying in bounds

`wire.rs` adds the length that an element declares with `checked_add`, and what it reads out of a
byte string does not go wrong in either width. With the walks and the searches of `x509.rs` this says
for which byte strings all readers of the crate stay in bounds (`safe_iff`): for all of them if
`usize` has 64 bits, and else for those in which no reader comes to an element that declares too
much.
-/

namespace EuiccCrypto
namespace Usize

open Octets Tlv

variable {w : Width}

/-! ### Signature fields and protected elements

`checked_add` makes an overflow into an error. The functions of `wire.rs` and `bsp.rs` then fail
where those on natural numbers fail, if perhaps with another text: `Agree`. -/

section Agree

variable {α β : Type} {x y : Exec α}

/-- The calls return the same, or both fail. -/
def Agree (x y : Exec α) : Prop := x = y ∨ (x.Failed ∧ y.Failed)

theorem Agree.ne_panic (h : Agree x y) (hy : y ≠ .panic) : x ≠ .panic := by
  rcases h with rfl | ⟨⟨e, rfl⟩, -⟩
  · exact hy
  · simp

theorem Agree.bind {f g : α → Exec β} (h : Agree x y) (hf : ∀ a, f a = g a) :
    Agree (x >>= f) (y >>= g) := by
  obtain rfl : f = g := funext hf
  rcases h with rfl | ⟨⟨e, rfl⟩, ⟨e', rfl⟩⟩
  · exact .inl rfl
  · exact .inr ⟨⟨e, rfl⟩, ⟨e', rfl⟩⟩

theorem Agree.mapErr (h : Agree x y) (f : Error → Error) : Agree (x.mapErr f) (y.mapErr f) := by
  rcases h with rfl | ⟨⟨e, rfl⟩, ⟨e', rfl⟩⟩
  · exact .inl rfl
  · exact .inr ⟨⟨f e, rfl⟩, ⟨f e', rfl⟩⟩

end Agree

/-- `read_length` of `wire.rs`. -/
def wireReadLength (w : Width) (input : Bytes) : Exec (Nat × Nat) :=
  readLengthWith w .malformed
    (fun first count _ => "unsupported DER length form (marker " ++ hexPrefixed first ++ ", " ++
      toString count ++ " length bytes)")
    input

/-- `read_tlv` of `wire.rs`. -/
def wireReadTlv (w : Width) (input : Bytes) : Exec (UInt16 × Bytes × Nat) := do
  let (tag, tagBytes) ← Wire.readTag input
  let (len, lenBytes) ← sliceFrom input tagBytes >>= wireReadLength w
  let start ← add w tagBytes lenBytes
  let stop ← Exec.okOr (.malformed "TLV length overflow") (checkedAdd w start len)
  if input.length < stop then
    .err (.malformed ("TLV " ++ hexPrefixed16 tag ++ " declares " ++ toString len ++
      " bytes, only " ++ toString (input.length - start) ++ " remain"))
  else do
    let value ← slice input start stop
    .ok (tag, value, stop)

/-- `parse_signature_bytes`. -/
def parseSignatureBytes (w : Width) (data : Bytes) : Exec Bytes := do
  let (tag, value, _) ← wireReadTlv w data
  if tag ≠ Wire.tagSignature then
    .err (.malformed ("signature field tag is " ++ hexPrefixed16 tag ++ ", expected " ++
      hexPrefixed16 Wire.tagSignature))
  else .ok value

/-- `decode` of `bsp.rs`. -/
def decode (w : Width) (bytes : Bytes) : Exec Bsp.ProtectedTlv := do
  let (tag, value, _) ← (wireReadTlv w bytes).mapErr fun e =>
    .malformed ("protected TLV is not a TLV: " ++ e.display)
  if value.length < Bsp.cmacLen then
    .err (.malformed ("protected TLV body is " ++ toString value.length ++ " bytes; at least a " ++
      toString Bsp.cmacLen ++ "-byte C-MAC is needed"))
  else do
    let split ← sub value.length Bsp.cmacLen
    let data ← slice value 0 split
    let cmac ← sliceFrom value split
    .ok { tag := tag.toUInt32, data, cmac }

/-- Only short words do not hold the sum of a header and a length, and then no input whose length
they hold is as long as it says. -/
theorem wireReadTlv_eq_or (input : Bytes) :
    wireReadTlv w input = Wire.readTlv input ∨ (w = .w32 ∧ (wireReadTlv w input).Failed ∧
      (input.length < 2 ^ w.bits → (Wire.readTlv input).Failed)) := by
  rw [wireReadTlv, Wire.readTlv]
  cases htag : Wire.readTag input with
  | err e => exact .inl rfl
  | panic => exact .inl rfl
  | ok r =>
      obtain ⟨tag, tagBytes⟩ := r
      obtain ⟨ts, rest, -, hts, rfl⟩ := Wire.readTag_eq_ok.mp htag
      have hlength : wireReadLength w = Wire.readLength :=
        funext fun input => readLengthWith_eq _ _ input
      rw [Exec.ok_bind, Exec.ok_bind]
      dsimp only
      rw [hlength]
      cases hread : sliceFrom input ts.length >>= Wire.readLength with
      | err e => exact .inl rfl
      | panic => exact .inl rfl
      | ok r =>
          obtain ⟨len, lenBytes⟩ := r
          obtain ⟨_, -, hlen⟩ := Exec.bind_eq_ok.mp hread
          obtain ⟨os, _, -, hos, rfl⟩ := Der.readLengthWith_eq_ok.mp hlen
          have htsLen := hts.length_le
          have hosLen := hos.length_le
          rw [Exec.ok_bind, Exec.ok_bind]
          dsimp only
          rw [add_small (by omega), Exec.ok_bind, checkedAdd]
          split
          · exact .inl rfl
          · next hlarge =>
              refine .inr ⟨?_, ⟨_, rfl⟩, fun hfits => ⟨_, if_pos (by omega)⟩⟩
              have hlt := hos.lt
              cases w with
              | w32 => rfl
              | w64 => exact absurd (Nat.lt_of_lt_of_le (by omega)
                  (by decide : 2 ^ 33 ≤ 2 ^ Width.w64.bits)) hlarge

/-- The error may be another one: a sum that does not fit in a word exceeds the input, too. -/
theorem wireReadTlv_agree {input : Bytes} (h : input.length ≤ w.isizeMax) :
    Agree (wireReadTlv w input) (Wire.readTlv input) := by
  have hmax := w.isizeMax_lt
  exact (wireReadTlv_eq_or input).imp_right fun hfailed =>
    ⟨hfailed.2.1, hfailed.2.2 (by omega)⟩

/-- Long words hold every sum. -/
theorem wireReadTlv_eq (input : Bytes) : wireReadTlv .w64 input = Wire.readTlv input :=
  (wireReadTlv_eq_or input).resolve_right nofun

theorem parseSignatureBytes_agree {data : Bytes} (h : data.length ≤ w.isizeMax) :
    Agree (parseSignatureBytes w data) (Wire.parseSignatureBytes data) :=
  (wireReadTlv_agree h).bind fun _ => rfl

theorem decode_agree {bytes : Bytes} (h : bytes.length ≤ w.isizeMax) :
    Agree (decode w bytes) (Bsp.decode bytes) := by
  refine ((wireReadTlv_agree h).mapErr _).bind ?_
  rintro ⟨tag, value, _⟩
  dsimp only
  split
  · rfl
  · rw [sub_eq_ok (by omega), Exec.ok_bind]

/-! ### All readers -/

section Safe

variable (E : EcLib) (webpki : Bytes → Bool)

/-- On `b` no reader computes a sum that does not fit in a word or a difference below zero, takes an
index or a slice that does not lie in its string, or does not come to an end. -/
structure Safe (w : Width) (b : Bytes) : Prop where
  fromDer : fromDer E w webpki b ≠ .panic
  extractTbsAndSignature : extractTbsAndSignature w b ≠ .panic
  certificateNamedCurveOid : certificateNamedCurveOid w b ≠ .panic
  subjectSerialNumber : subjectSerialNumber w b ≠ .panic
  subjectAltName : subjectAltName w b ≠ .panic
  subjectKeyIdentifier : subjectKeyIdentifier w b ≠ .panic
  authorityKeyIdentifier : authorityKeyIdentifier w b ≠ .panic
  certificatePolicies : certificatePolicies w b ≠ .panic
  rspRoles : rspRoles w b ≠ .panic
  isServerCertificateRole : isServerCertificateRole w b ≠ .panic
  indicatesDpPbRole : indicatesDpPbRole w b ≠ .panic
  readTlv : wireReadTlv w b ≠ .panic
  parseSignatureBytes : parseSignatureBytes w b ≠ .panic
  decode : decode w b ≠ .panic

/-- One of the functions of `x509.rs` that use `read_tlv_any` comes to an element that declares too
much. -/
def ComesToOverflow (b : Bytes) : Prop :=
  KeyOverflows b ∨ SignatureOverflows b ∨ CurveOverflows b

/-- **The readers stay in bounds** on a byte string exactly when `usize` has 64 bits or none of them
comes to an element that declares too much. -/
theorem safe_iff (w : Width) (b : Slice w) :
    Safe E webpki w b.bytes ↔ w = .w64 ∨ ¬ ComesToOverflow b.bytes := by
  have hkey : fromDer E w webpki b.bytes = .panic ↔ w = .w32 ∧ KeyOverflows b.bytes :=
    fromDer_eq_panic_iff E
  have hsig := (extractTbsAndSignature_tracks b.fits).eq_panic_iff
    (X509.extractTbsAndSignature_ne_panic b.bytes)
  have hcurve : certificateNamedCurveOid w b.bytes = .panic ↔ w = .w32 ∧ CurveOverflows b.bytes :=
    (certificateNamedCurveOid_tracks b.bytes).eq_panic_iff (by simp)
  constructor
  · intro h
    cases w with
    | w64 => exact .inl rfl
    | w32 =>
        right
        rintro (hover | hover | hover)
        · exact h.fromDer (hkey.mpr ⟨rfl, hover⟩)
        · exact h.extractTbsAndSignature (hsig.mpr ⟨rfl, hover⟩)
        · exact h.certificateNamedCurveOid (hcurve.mpr ⟨rfl, hover⟩)
  · intro h
    have hnot : ¬ (w = .w32 ∧ ComesToOverflow b.bytes) := by
      rintro ⟨rfl, hover⟩
      exact h.resolve_left nofun hover
    have hpolicies : certificatePolicies w b.bytes ≠ .panic := by
      simp [certificatePolicies_eq b.fits]
    have hroles : rspRoles w b.bytes ≠ .panic := bindSome_ne_panic hpolicies (by simp)
    exact
      { fromDer := fun hp => hnot ((hkey.mp hp).imp_right .inl)
        extractTbsAndSignature := fun hp => hnot ((hsig.mp hp).imp_right (.inr ∘ .inl))
        certificateNamedCurveOid := fun hp => hnot ((hcurve.mp hp).imp_right (.inr ∘ .inr))
        subjectSerialNumber := by simp [subjectSerialNumber_eq b.fits]
        subjectAltName := by simp [subjectAltName_eq b.fits]
        subjectKeyIdentifier := by simp [subjectKeyIdentifier_eq b.fits]
        authorityKeyIdentifier := by simp [authorityKeyIdentifier_eq b.fits]
        certificatePolicies := hpolicies
        rspRoles := hroles
        isServerCertificateRole := bindSome_ne_panic hroles (by simp)
        indicatesDpPbRole := bindSome_ne_panic hpolicies (by simp)
        readTlv := (wireReadTlv_agree b.fits).ne_panic (Wire.readTlv_ne_panic _)
        parseSignatureBytes :=
          (parseSignatureBytes_agree b.fits).ne_panic (Wire.parseSignatureBytes_ne_panic _)
        decode := (decode_agree b.fits).ne_panic (Bsp.decode_ne_panic _) }

end Safe

/-- The header of an element with the length `0xfffffffa`. -/
def hugeHeader : Slice .w32 := ⟨[0x30, 0x84, 0xff, 0xff, 0xff, 0xfa], by decide⟩

/-- With 32-bit words the sum of the header and the length is 2³², and the readers of `x509.rs`
overflow where the one of `wire.rs` returns an error. -/
theorem hugeHeader_overflows :
    ¬ Safe (.ofTable []) (fun _ => false) .w32 hugeHeader.bytes ∧
      fromDer (.ofTable []) .w32 (fun _ => false) hugeHeader.bytes = .panic ∧
      extractTbsAndSignature .w32 hugeHeader.bytes = .panic ∧
      certificateNamedCurveOid .w32 hugeHeader.bytes = .panic ∧
      wireReadTlv .w32 hugeHeader.bytes = .err (.malformed "TLV length overflow") := by
  refine ⟨fun h => h.fromDer ?_, ?_⟩ <;> decide +kernel

end Usize
end EuiccCrypto
