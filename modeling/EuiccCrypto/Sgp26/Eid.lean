import EuiccCrypto.Sgp26.Verify

/-!
# The EID

`eid` and `eid_ascii` of `sgp26.rs`: the serialNumber of the eUICC certificate as text, and as the
octets its characters are the hexadecimal digits of. `eid_faithful_iff` says when the two are the
same identifier; `lettered_accepted` is a serialNumber with a letter, which is decoded too.
-/

namespace EuiccCrypto

open Octets

/-- `hex`: lowercase hexadecimal. -/
def hex (bytes : Bytes) : String := bytes.foldl (fun s b => s ++ hex02 b) ""

theorem foldl_append_hex02 (bytes : Bytes) (s : String) :
    bytes.foldl (fun s b => s ++ hex02 b) s = s ++ hex bytes := by
  induction bytes generalizing s with
  | nil => simp [hex]
  | cons b bytes ih =>
      rw [hex, List.foldl_cons, List.foldl_cons, ih, ih, String.empty_append, String.append_assoc]

theorem hex_cons (b : UInt8) (bytes : Bytes) : hex (b :: bytes) = hex02 b ++ hex bytes := by
  rw [hex, List.foldl_cons, foldl_append_hex02, String.empty_append]

namespace Sgp26

open X509 Pem Tlv

/-! ### Decoding -/

section Decode

variable (fmt : Fmt)

/-- `hex_nibble`: decode one ASCII hex digit. -/
def hexNibble (c : UInt8) : Exec UInt8 :=
  if '0'.toUInt8 ≤ c ∧ c ≤ '9'.toUInt8 then .ok (c - '0'.toUInt8)
  else if 'a'.toUInt8 ≤ c ∧ c ≤ 'f'.toUInt8 then .ok (c - 'a'.toUInt8 + 10)
  else if 'A'.toUInt8 ≤ c ∧ c ≤ 'F'.toUInt8 then .ok (c - 'A'.toUInt8 + 10)
  else .err (.certificate ("EID contains non-hex character " ++
    fmt.debugChar (Char.ofNat c.toNat)))

/-- The loop of `eid` over the pairs of characters; a single last character has no `pair[1]`. -/
def eidOctets : Bytes → Exec Bytes
  | [] => .ok []
  | [_] => .panic
  | first :: second :: rest => do
    let hi ← hexNibble fmt first
    let lo ← hexNibble fmt second
    let out ← eidOctets rest
    .ok ((hi <<< 4 ||| lo) :: out)

variable {E : EcLib} (m : Sgp26VariantO E)

/-- `eid_ascii`: the EID as the certificate's serialNumber states it. -/
def Sgp26VariantO.eidAscii : Exec Bytes :=
  Exec.okOr (.certificate "SGP.26 eUICC certificate has no serialNumber")
    m.euicc.subjectSerialNumber

/-- `eid`: the EID as 16 octets. -/
def Sgp26VariantO.eid : Exec Bytes := do
  let ascii ← m.eidAscii
  if ascii.length ≠ 32 then
    .err (.certificate ("EID is " ++ toString ascii.length ++ " characters, expected 32"))
  else eidOctets fmt ascii

end Decode

/-! ### Digits and letters -/

/-- An ASCII decimal digit. -/
def IsDigit (c : UInt8) : Prop := '0'.toUInt8 ≤ c ∧ c ≤ '9'.toUInt8

/-- One of the letters of hexadecimal, of either case. -/
def IsHexLetter (c : UInt8) : Prop :=
  ('a'.toUInt8 ≤ c ∧ c ≤ 'f'.toUInt8) ∨ ('A'.toUInt8 ≤ c ∧ c ≤ 'F'.toUInt8)

instance : DecidablePred IsDigit := fun _ => inferInstanceAs (Decidable (_ ∧ _))

instance : DecidablePred IsHexLetter := fun _ => inferInstanceAs (Decidable (_ ∨ _))

/-- The text whose characters have the given codes. -/
def asciiText (bytes : Bytes) : String := String.ofList (bytes.map fun b => Char.ofNat b.toNat)

variable {fmt : Fmt}

theorem not_isDigit_of_isHexLetter {c : UInt8} (h : IsHexLetter c) : ¬ IsDigit c := by
  have hall : ∀ n : Fin 256, IsHexLetter (UInt8.ofFin n) → ¬ IsDigit (UInt8.ofFin n) := by
    decide +kernel
  exact hall c.toFin h

theorem hexNibble_of_isDigit {c : UInt8} (h : IsDigit c) :
    hexNibble fmt c = .ok (c - '0'.toUInt8) := if_pos h

theorem exists_hexNibble_iff (fmt : Fmt) {c : UInt8} :
    (∃ n, hexNibble fmt c = .ok n) ↔ IsDigit c ∨ IsHexLetter c := by
  rw [hexNibble]
  split
  · next h => exact iff_of_true ⟨_, rfl⟩ (.inl h)
  · next hdigit =>
      split
      · next h => exact iff_of_true ⟨_, rfl⟩ (.inr (.inl h))
      · next hlower =>
          split
          · next h => exact iff_of_true ⟨_, rfl⟩ (.inr (.inr h))
          · next hupper =>
              refine iff_of_false (fun ⟨_, h⟩ => by cases h) ?_
              rintro (h | h | h)
              · exact hdigit h
              · exact hlower h
              · exact hupper h

theorem hexNibble_ne_panic (fmt : Fmt) (c : UInt8) : hexNibble fmt c ≠ .panic := by
  unfold hexNibble
  split
  · simp
  · split
    · simp
    · split <;> simp

theorem exists_eq_of_isDigit {c : UInt8} (h : IsDigit c) :
    ∃ i : Fin 10, c = '0'.toUInt8 + UInt8.ofNat i := by
  have hlo : 48 ≤ c.toNat := UInt8.le_iff_toNat_le.mp h.1
  have hhi : c.toNat ≤ 57 := UInt8.le_iff_toNat_le.mp h.2
  refine ⟨⟨c.toNat - 48, by omega⟩, UInt8.toNat_inj.mp ?_⟩
  have hzero : '0'.toUInt8.toNat = 48 := rfl
  rw [UInt8.toNat_add, UInt8.toNat_ofNat', hzero]
  simp only
  omega

/-- The octet that two digits stand for is printed as these digits. -/
theorem hex02_of_isDigit {a b : UInt8} (ha : IsDigit a) (hb : IsDigit b) :
    hex02 ((a - '0'.toUInt8) <<< 4 ||| (b - '0'.toUInt8)) = asciiText [a, b] := by
  have hall : ∀ i j : Fin 10,
      hex02 (('0'.toUInt8 + UInt8.ofNat i - '0'.toUInt8) <<< 4 |||
        ('0'.toUInt8 + UInt8.ofNat j - '0'.toUInt8)) =
      asciiText ['0'.toUInt8 + UInt8.ofNat i, '0'.toUInt8 + UInt8.ofNat j] := by
    decide +kernel
  obtain ⟨i, rfl⟩ := exists_eq_of_isDigit ha
  obtain ⟨j, rfl⟩ := exists_eq_of_isDigit hb
  exact hall i j

theorem asciiText_append (a b : Bytes) : asciiText (a ++ b) = asciiText a ++ asciiText b := by
  rw [asciiText, List.map_append, String.ofList_append]
  rfl

/-! ### What is decoded

Two digits give the octet they spell, whose hexadecimal text is the two digits again; by induction
on the pairs, a text of digits comes back from its octets. A letter from `a` to `f` is decoded as
well, so `eid` returns on some texts that are no EID: those are the exceptions of
`eid_faithful_iff`. -/

/-- Digits are decoded to octets that are printed as these digits. -/
theorem eidOctets_of_isDigit (fmt : Fmt) {ascii : Bytes} (heven : ascii.length % 2 = 0)
    (h : ∀ c ∈ ascii, IsDigit c) :
    ∃ o, eidOctets fmt ascii = .ok o ∧ 2 * o.length = ascii.length ∧ hex o = asciiText ascii := by
  induction ascii using eidOctets.induct with
  | case1 => exact ⟨[], rfl, rfl, rfl⟩
  | case2 => simp at heven
  | case3 first second rest ih =>
      obtain ⟨hfirst, hrest⟩ := List.forall_mem_cons.mp h
      obtain ⟨hsecond, hrest⟩ := List.forall_mem_cons.mp hrest
      simp only [List.length_cons] at heven
      obtain ⟨o, ho, hlen, hhex⟩ := ih (by omega) hrest
      refine ⟨((first - '0'.toUInt8) <<< 4 ||| (second - '0'.toUInt8)) :: o, ?_, ?_, ?_⟩
      · rw [eidOctets, hexNibble_of_isDigit hfirst, Exec.ok_bind, hexNibble_of_isDigit hsecond,
          Exec.ok_bind, ho, Exec.ok_bind]
      · simp only [List.length_cons]
        omega
      · rw [hex_cons, hex02_of_isDigit hfirst hsecond, hhex, ← asciiText_append]
        rfl

/-- What can be decoded at all. -/
theorem exists_eidOctets_iff (fmt : Fmt) {ascii : Bytes} (heven : ascii.length % 2 = 0) :
    (∃ o, eidOctets fmt ascii = .ok o) ↔ ∀ c ∈ ascii, IsDigit c ∨ IsHexLetter c := by
  induction ascii using eidOctets.induct with
  | case1 => simp [eidOctets]
  | case2 => simp at heven
  | case3 first second rest ih =>
      simp only [List.length_cons] at heven
      rw [List.forall_mem_cons, List.forall_mem_cons, ← ih (by omega),
        ← exists_hexNibble_iff fmt, ← exists_hexNibble_iff fmt]
      simp only [eidOctets, Exec.bind_eq_ok]
      constructor
      · rintro ⟨_, hi, hhi, lo, hlo, out, hout, -⟩
        exact ⟨⟨hi, hhi⟩, ⟨lo, hlo⟩, ⟨out, hout⟩⟩
      · rintro ⟨⟨hi, hhi⟩, ⟨lo, hlo⟩, ⟨out, hout⟩⟩
        exact ⟨_, hi, hhi, lo, hlo, out, hout, rfl⟩

/-- Only a last character without a partner would panic. -/
theorem eidOctets_ne_panic (fmt : Fmt) {ascii : Bytes} (heven : ascii.length % 2 = 0) :
    eidOctets fmt ascii ≠ .panic := by
  induction ascii using eidOctets.induct with
  | case1 => simp [eidOctets]
  | case2 => simp at heven
  | case3 first second rest ih =>
      simp only [List.length_cons] at heven
      have hrest := ih (by omega)
      intro h
      simp only [eidOctets, Exec.bind_eq_panic, hexNibble_ne_panic, hrest, reduceCtorEq, and_false,
        exists_false, or_false] at h

variable {E : EcLib} (m : Sgp26VariantO E)

theorem eid_eq_ok {o : Bytes} :
    m.eid fmt = .ok o ↔
      ∃ ascii, m.eidAscii = .ok ascii ∧ ascii.length = 32 ∧ eidOctets fmt ascii = .ok o := by
  simp only [Sgp26VariantO.eid, Exec.bind_eq_ok, Exec.ite_err_eq_ok, not_not]

theorem eid_ne_panic (fmt : Fmt) : m.eid fmt ≠ .panic := by
  simp only [Sgp26VariantO.eid, Sgp26VariantO.eidAscii, ne_eq, Exec.bind_eq_panic,
    Exec.okOr_ne_panic, Exec.ite_err_eq_panic, not_not, false_or, not_exists, not_and]
  intro ascii _ hlen
  exact eidOctets_ne_panic fmt (by omega)

/-- Octets and text are the same identifier: `eid` returns exactly when the text is 32 digits, and
then prints as that text; on every other text, and without a text, it fails. -/
structure EidFaithful (fmt : Fmt) (m : Sgp26VariantO E) : Prop where
  returns : (∃ o, m.eid fmt = .ok o) ↔
    ∃ ascii, m.eidAscii = .ok ascii ∧ ascii.length = 32 ∧ ∀ c ∈ ascii, IsDigit c
  same : ∀ o, m.eid fmt = .ok o →
    o.length = 16 ∧ ∃ ascii, m.eidAscii = .ok ascii ∧ hex o = asciiText ascii
  fails : (m.eid fmt).Failed ↔
    ¬ ∃ ascii, m.eidAscii = .ok ascii ∧ ascii.length = 32 ∧ ∀ c ∈ ascii, IsDigit c

/-- **The EID octets are those of the EID text** exactly when the serialNumber is not made of 32
hexadecimal digits with a letter among them. -/
theorem eid_faithful_iff :
    EidFaithful fmt m ↔
      ¬ ∃ serial, m.euicc.subjectSerialNumber = some serial ∧ serial.length = 32 ∧
        (∀ c ∈ serial, IsDigit c ∨ IsHexLetter c) ∧ ∃ c ∈ serial, IsHexLetter c := by
  have hascii : ∀ serial, m.eidAscii = .ok serial ↔ m.euicc.subjectSerialNumber = some serial :=
    fun _ => Exec.okOr_eq_ok
  constructor
  · rintro ⟨hreturns, -, -⟩ ⟨serial, hserial, hlen, hhex, c, hc, hletter⟩
    obtain ⟨o, ho⟩ := (exists_eidOctets_iff fmt (by omega)).mpr hhex
    obtain ⟨ascii, hascii', -, hdigits⟩ :=
      hreturns.mp ⟨o, (eid_eq_ok m).mpr ⟨serial, (hascii serial).mpr hserial, hlen, ho⟩⟩
    obtain rfl : serial = ascii :=
      Option.some.inj (hserial.symm.trans ((hascii ascii).mp hascii'))
    exact not_isDigit_of_isHexLetter hletter (hdigits c hc)
  · intro hno
    -- Where no letter is decoded, all characters are digits.
    have hdigits : ∀ serial o, m.eidAscii = .ok serial → serial.length = 32 →
        eidOctets fmt serial = .ok o → ∀ c ∈ serial, IsDigit c := by
      intro serial o hserial hlen ho c hc
      have hhex := (exists_eidOctets_iff fmt (by omega)).mp ⟨o, ho⟩
      refine (hhex c hc).resolve_right fun hletter => hno ?_
      exact ⟨serial, (hascii serial).mp hserial, hlen, hhex, c, hc, hletter⟩
    have hreturns : (∃ o, m.eid fmt = .ok o) ↔
        ∃ ascii, m.eidAscii = .ok ascii ∧ ascii.length = 32 ∧ ∀ c ∈ ascii, IsDigit c := by
      constructor
      · rintro ⟨o, ho⟩
        obtain ⟨serial, hserial, hlen, ho⟩ := (eid_eq_ok m).mp ho
        exact ⟨serial, hserial, hlen, hdigits serial o hserial hlen ho⟩
      · rintro ⟨serial, hserial, hlen, hdigit⟩
        obtain ⟨o, ho, -⟩ := eidOctets_of_isDigit fmt (by omega) hdigit
        exact ⟨o, (eid_eq_ok m).mpr ⟨serial, hserial, hlen, ho⟩⟩
    refine ⟨hreturns, ?_, (Exec.failed_iff (eid_ne_panic m fmt)).trans (not_congr hreturns)⟩
    · intro o ho
      obtain ⟨serial, hserial, hlen, ho⟩ := (eid_eq_ok m).mp ho
      obtain ⟨o', ho', hlen', hhex⟩ :=
        eidOctets_of_isDigit fmt (by omega) (hdigits serial o hserial hlen ho)
      rw [ho, Exec.ok.injEq] at ho'
      subst ho'
      exact ⟨by omega, serial, hserial, hhex⟩

/-- An eUICC certificate with the given serialNumber. -/
def numberedFields (serial : String) : CertFields :=
  { serverFields with
    subject := [encode 0x30 (oidSerialNumber ++ encode 0x13 serial.toUTF8.toList)] }

/-- A serialNumber that ends in a letter. -/
def letteredSerial : String := "8904903212345123451234567890123A"

def letteredCert : Certificate chainLib where
  der := (numberedFields letteredSerial).encode
  publicKey := { curve := .p256, point := serverPoint }
  webpkiParsed := false
  extracted := by decide +kernel

def letteredMaterial : Sgp26VariantO chainLib := { material serverPoint with euicc := letteredCert }

/-- The serialNumber is decoded although it is not 32 decimal digits. -/
theorem lettered_accepted :
    letteredMaterial.eidAscii = .ok letteredSerial.toUTF8.toList ∧
    letteredMaterial.eid sampleFmt =
      .ok [0x89, 0x04, 0x90, 0x32, 0x12, 0x34, 0x51, 0x23, 0x45, 0x12, 0x34, 0x56, 0x78, 0x90,
        0x12, 0x3a] ∧
    ¬ EidFaithful sampleFmt letteredMaterial := by
  have hascii : letteredMaterial.eidAscii = .ok letteredSerial.toUTF8.toList := by decide +kernel
  have heid : letteredMaterial.eid sampleFmt =
      .ok [0x89, 0x04, 0x90, 0x32, 0x12, 0x34, 0x51, 0x23, 0x45, 0x12, 0x34, 0x56, 0x78, 0x90,
        0x12, 0x3a] := by decide +kernel
  refine ⟨hascii, heid, fun h => ?_⟩
  obtain ⟨ascii, hascii', -, hdigits⟩ := h.returns.mp ⟨_, heid⟩
  rw [hascii, Exec.ok.injEq] at hascii'
  subst hascii'
  exact absurd (hdigits 'A'.toUInt8 (by decide +kernel)) (by decide)

end Sgp26
end EuiccCrypto
