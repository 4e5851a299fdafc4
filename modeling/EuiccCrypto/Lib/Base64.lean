import EuiccCrypto.Lib.Octets

/-!
# Base64

The padded encoding of RFC 4648, section 4, on the octets of its text. Three octets become four
digits; one or two octets at the end are padded with `=`, and the bits their digits leave over are
zero. `WellPadded` says of a text of whole groups that its padding is of that form, and
`encode_octets` that such a text is the encoding of what its groups decode to.
-/

namespace Base64

open Octets

/-! ### Digits -/

/-- The digits in the order of their values: `A` to `Z`, `a` to `z`, `0` to `9`, `+` and `/`. -/
def alphabet : List UInt8 :=
  (List.range' 0x41 26 ++ List.range' 0x61 26 ++ List.range' 0x30 10 ++ [0x2b, 0x2f]).map
    UInt8.ofNat

/-- The padding character. -/
def padChar : UInt8 := '='.toUInt8

/-- The digit with the value `n`. -/
def digit (n : Nat) : UInt8 := alphabet.getD n padChar

/-- The value of a digit. -/
def value (c : UInt8) : Option Nat := alphabet.idxOf? c

theorem value_digit {n : Nat} (h : n < 64) : value (digit n) = some n := by
  have hall : ∀ i : Fin 64, value (digit i) = some i.val := by decide +kernel
  exact hall ⟨n, h⟩

theorem value_padChar : value padChar = none := by decide +kernel

theorem digit_ne_padChar {n : Nat} (h : n < 64) : digit n ≠ padChar := by
  intro heq
  have hvalue := value_digit h
  rw [heq, value_padChar] at hvalue
  cases hvalue

theorem eq_digit_of_value {c : UInt8} {n : Nat} (h : value c = some n) : n < 64 ∧ c = digit n := by
  obtain ⟨hlt, heq, -⟩ := List.idxOf?_eq_some_iff.mp h
  have hlen : alphabet.length = 64 := by decide +kernel
  refine ⟨by omega, ?_⟩
  rw [digit, List.getD_eq_getElem?_getD, List.getElem?_eq_getElem hlt, Option.getD_some, heq]

/-! ### Groups -/

/-- The first octet of a group. -/
def octet0 (v0 v1 : Nat) : UInt8 := UInt8.ofNat (v0 * 4 + v1 / 16)

/-- The second octet of a group. -/
def octet1 (v1 v2 : Nat) : UInt8 := UInt8.ofNat (v1 % 16 * 16 + v2 / 4)

/-- The third octet of a group. -/
def octet2 (v2 v3 : Nat) : UInt8 := UInt8.ofNat (v2 % 4 * 64 + v3)

/-- The padded encoding. -/
def encode : Bytes → Bytes
  | [] => []
  | [a] => [digit (a.toNat / 4), digit (a.toNat % 4 * 16), padChar, padChar]
  | [a, b] =>
    [digit (a.toNat / 4), digit (a.toNat % 4 * 16 + b.toNat / 16), digit (b.toNat % 16 * 4),
      padChar]
  | a :: b :: c :: rest =>
    digit (a.toNat / 4) :: digit (a.toNat % 4 * 16 + b.toNat / 16) ::
      digit (b.toNat % 16 * 4 + c.toNat / 64) :: digit (c.toNat % 64) :: encode rest

theorem length_encode_mod (b : Bytes) : (encode b).length % 4 = 0 := by
  induction b using encode.induct with
  | case1 => simp [encode]
  | case2 a => simp [encode]
  | case3 a b => simp [encode]
  | case4 a b c rest ih =>
      rw [encode]
      simp only [List.length_cons]
      omega

/-! ### Decoding -/

/-- A digit or the padding character. -/
def IsSymbol (c : UInt8) : Prop := c = padChar ∨ (value c).isSome

/-- What a group of four stands for when its padding characters are counted, wherever they are. -/
def groupOctets (c0 c1 c2 c3 : UInt8) : Bytes :=
  let v : UInt8 → Nat := fun c => (value c).getD 0
  let pad := [c0, c1, c2, c3].count padChar
  octet0 (v c0) (v c1) :: ((if pad < 2 then [octet1 (v c1) (v c2)] else []) ++
    if pad < 1 then [octet2 (v c2) (v c3)] else [])

/-- What the groups of a text stand for. -/
def octets : Bytes → Bytes
  | c0 :: c1 :: c2 :: c3 :: rest => groupOctets c0 c1 c2 c3 ++ octets rest
  | _ => []

section Groups

variable {v0 v1 v2 v3 : Nat}

theorem groupOctets_three (h0 : v0 < 64) (h1 : v1 < 64) (h2 : v2 < 64) (h3 : v3 < 64) :
    groupOctets (digit v0) (digit v1) (digit v2) (digit v3) =
      [octet0 v0 v1, octet1 v1 v2, octet2 v2 v3] := by
  simp [groupOctets, value_digit, h0, h1, h2, h3, digit_ne_padChar]

theorem groupOctets_two (h0 : v0 < 64) (h1 : v1 < 64) (h2 : v2 < 64) :
    groupOctets (digit v0) (digit v1) (digit v2) padChar = [octet0 v0 v1, octet1 v1 v2] := by
  simp [groupOctets, value_digit, h0, h1, h2, digit_ne_padChar]

theorem groupOctets_one (h0 : v0 < 64) (h1 : v1 < 64) :
    groupOctets (digit v0) (digit v1) padChar padChar = [octet0 v0 v1] := by
  simp [groupOctets, value_digit, h0, h1, digit_ne_padChar]

theorem toNat_octet0 (h0 : v0 < 64) (h1 : v1 < 64) : (octet0 v0 v1).toNat = v0 * 4 + v1 / 16 :=
  UInt8.toNat_ofNat_of_lt' (by show _ < 256; omega)

theorem toNat_octet1 (h2 : v2 < 64) : (octet1 v1 v2).toNat = v1 % 16 * 16 + v2 / 4 :=
  UInt8.toNat_ofNat_of_lt' (by show _ < 256; omega)

theorem toNat_octet2 (h3 : v3 < 64) : (octet2 v2 v3).toNat = v2 % 4 * 64 + v3 :=
  UInt8.toNat_ofNat_of_lt' (by show _ < 256; omega)

theorem encode_three (h0 : v0 < 64) (h1 : v1 < 64) (h2 : v2 < 64) (h3 : v3 < 64) (rest : Bytes) :
    encode (octet0 v0 v1 :: octet1 v1 v2 :: octet2 v2 v3 :: rest) =
      digit v0 :: digit v1 :: digit v2 :: digit v3 :: encode rest := by
  have e0 : (v0 * 4 + v1 / 16) / 4 = v0 := by omega
  have e1 : (v0 * 4 + v1 / 16) % 4 * 16 + (v1 % 16 * 16 + v2 / 4) / 16 = v1 := by omega
  have e2 : (v1 % 16 * 16 + v2 / 4) % 16 * 4 + (v2 % 4 * 64 + v3) / 64 = v2 := by omega
  have e3 : (v2 % 4 * 64 + v3) % 64 = v3 := by omega
  rw [encode, toNat_octet0 h0 h1, toNat_octet1 h2, toNat_octet2 h3, e0, e1, e2, e3]

theorem encode_two (h0 : v0 < 64) (h1 : v1 < 64) (h2 : v2 < 64) (hlow : v2 % 4 = 0) :
    encode [octet0 v0 v1, octet1 v1 v2] = [digit v0, digit v1, digit v2, padChar] := by
  have e0 : (v0 * 4 + v1 / 16) / 4 = v0 := by omega
  have e1 : (v0 * 4 + v1 / 16) % 4 * 16 + (v1 % 16 * 16 + v2 / 4) / 16 = v1 := by omega
  have e2 : (v1 % 16 * 16 + v2 / 4) % 16 * 4 = v2 := by omega
  rw [encode, toNat_octet0 h0 h1, toNat_octet1 h2, e0, e1, e2]

theorem encode_one (h0 : v0 < 64) (h1 : v1 < 64) (hlow : v1 % 16 = 0) :
    encode [octet0 v0 v1] = [digit v0, digit v1, padChar, padChar] := by
  have e0 : (v0 * 4 + v1 / 16) / 4 = v0 := by omega
  have e1 : (v0 * 4 + v1 / 16) % 4 * 16 = v1 := by omega
  rw [encode, toNat_octet0 h0 h1, e0, e1]

end Groups

/-! ### Decoding what was encoded -/

theorem octet0_digits (a b : UInt8) :
    octet0 (a.toNat / 4) (a.toNat % 4 * 16 + b.toNat / 16) = a := by
  have ha := a.toNat_lt
  have hb := b.toNat_lt
  rw [← UInt8.toNat_inj, toNat_octet0 (by omega) (by omega)]
  omega

theorem octet1_digits (a b c : UInt8) :
    octet1 (a.toNat % 4 * 16 + b.toNat / 16) (b.toNat % 16 * 4 + c.toNat / 64) = b := by
  have hb := b.toNat_lt
  have hc := c.toNat_lt
  rw [← UInt8.toNat_inj, toNat_octet1 (by omega)]
  omega

theorem octet2_digits (b c : UInt8) :
    octet2 (b.toNat % 16 * 4 + c.toNat / 64) (c.toNat % 64) = c := by
  have hc := c.toNat_lt
  rw [← UInt8.toNat_inj, toNat_octet2 (by omega)]
  omega

/-- What an encoding stands for. -/
theorem octets_encode (b : Bytes) : octets (encode b) = b := by
  induction b using encode.induct with
  | case1 => simp [encode, octets]
  | case2 a =>
      have ha := a.toNat_lt
      have h0 := octet0_digits a 0
      rw [UInt8.toNat_zero, Nat.zero_div, Nat.add_zero] at h0
      rw [encode, octets, groupOctets_one (by omega) (by omega), h0]
      simp [octets]
  | case3 a b =>
      have ha := a.toNat_lt
      have hb := b.toNat_lt
      have h1 := octet1_digits a b 0
      rw [UInt8.toNat_zero, Nat.zero_div, Nat.add_zero] at h1
      rw [encode, octets, groupOctets_two (by omega) (by omega) (by omega), octet0_digits, h1]
      simp [octets]
  | case4 a b c rest ih =>
      have ha := a.toNat_lt
      have hb := b.toNat_lt
      have hc := c.toNat_lt
      rw [encode, octets, groupOctets_three (by omega) (by omega) (by omega) (by omega),
        octet0_digits, octet1_digits, octet2_digits, ih]
      rfl

/-- An encoding has no other characters than digits and padding. -/
theorem isSymbol_of_mem_encode {b : Bytes} : ∀ c ∈ encode b, IsSymbol c := by
  have hdigit : ∀ n < 64, IsSymbol (digit n) := fun n h => .inr (by rw [value_digit h]; rfl)
  induction b using encode.induct with
  | case1 => simp [encode]
  | case2 a =>
      have ha := a.toNat_lt
      simp only [encode, List.forall_mem_cons]
      exact ⟨hdigit _ (by omega), hdigit _ (by omega), .inl rfl, .inl rfl, by simp⟩
  | case3 a b =>
      have ha := a.toNat_lt
      have hb := b.toNat_lt
      simp only [encode, List.forall_mem_cons]
      exact ⟨hdigit _ (by omega), hdigit _ (by omega), hdigit _ (by omega), .inl rfl, by simp⟩
  | case4 a b c rest ih =>
      have ha := a.toNat_lt
      have hb := b.toNat_lt
      have hc := c.toNat_lt
      simp only [encode, List.forall_mem_cons]
      exact ⟨hdigit _ (by omega), hdigit _ (by omega), hdigit _ (by omega), hdigit _ (by omega), ih⟩

/-! ### Where padding may be -/

/-- The last group has no padding, or one padding character at its end, or two; the bits of the last
digit that the octets do not take are zero. -/
def FinalGroup (c0 c1 c2 c3 : UInt8) : Prop :=
  c0 ≠ padChar ∧ c1 ≠ padChar ∧
    ((c2 ≠ padChar ∧ c3 ≠ padChar) ∨
      (c2 ≠ padChar ∧ c3 = padChar ∧ ∀ v ∈ value c2, v % 4 = 0) ∨
      (c2 = padChar ∧ c3 = padChar ∧ ∀ v ∈ value c1, v % 16 = 0))

/-- The text consists of groups, and only the last has padding. -/
def WellPadded : Bytes → Prop
  | [] => True
  | c0 :: c1 :: c2 :: c3 :: rest =>
    if rest = [] then FinalGroup c0 c1 c2 c3
    else padChar ∉ [c0, c1, c2, c3] ∧ WellPadded rest
  | _ => False

theorem wellPadded_encode (b : Bytes) : WellPadded (encode b) := by
  induction b using encode.induct with
  | case1 => simp [encode, WellPadded]
  | case2 a =>
      have ha := a.toNat_lt
      rw [encode, WellPadded, if_pos rfl]
      refine ⟨digit_ne_padChar (by omega), digit_ne_padChar (by omega), .inr (.inr ⟨rfl, rfl, ?_⟩)⟩
      intro v hv
      rw [value_digit (by omega), Option.mem_some_iff] at hv
      omega
  | case3 a b =>
      have ha := a.toNat_lt
      have hb := b.toNat_lt
      rw [encode, WellPadded, if_pos rfl]
      refine ⟨digit_ne_padChar (by omega), digit_ne_padChar (by omega),
        .inr (.inl ⟨digit_ne_padChar (by omega), rfl, ?_⟩)⟩
      intro v hv
      rw [value_digit (by omega), Option.mem_some_iff] at hv
      omega
  | case4 a b c rest ih =>
      have ha := a.toNat_lt
      have hb := b.toNat_lt
      have hc := c.toNat_lt
      have h0 := digit_ne_padChar (n := a.toNat / 4) (by omega)
      have h1 := digit_ne_padChar (n := a.toNat % 4 * 16 + b.toNat / 16) (by omega)
      have h2 := digit_ne_padChar (n := b.toNat % 16 * 4 + c.toNat / 64) (by omega)
      have h3 := digit_ne_padChar (n := c.toNat % 64) (by omega)
      rw [encode, WellPadded]
      split
      · exact ⟨h0, h1, .inl ⟨h2, h3⟩⟩
      · exact ⟨by simp [h0.symm, h1.symm, h2.symm, h3.symm], ih⟩

theorem exists_digit {c : UInt8} (h : IsSymbol c) (hne : c ≠ padChar) :
    ∃ v < 64, c = digit v := by
  obtain ⟨v, hv⟩ := Option.isSome_iff_exists.mp (h.resolve_left hne)
  obtain ⟨hlt, hc⟩ := eq_digit_of_value hv
  exact ⟨v, hlt, hc⟩

theorem encode_groupOctets {c0 c1 c2 c3 : UInt8} (hsymbols : ∀ c ∈ [c0, c1, c2, c3], IsSymbol c)
    (h : FinalGroup c0 c1 c2 c3) : encode (groupOctets c0 c1 c2 c3) = [c0, c1, c2, c3] := by
  simp only [List.forall_mem_cons] at hsymbols
  obtain ⟨hs0, hs1, hs2, hs3, -⟩ := hsymbols
  obtain ⟨h0, h1, hlast⟩ := h
  obtain ⟨v0, hv0, rfl⟩ := exists_digit hs0 h0
  obtain ⟨v1, hv1, rfl⟩ := exists_digit hs1 h1
  rcases hlast with ⟨h2, h3⟩ | ⟨h2, rfl, hlow⟩ | ⟨rfl, rfl, hlow⟩
  · obtain ⟨v2, hv2, rfl⟩ := exists_digit hs2 h2
    obtain ⟨v3, hv3, rfl⟩ := exists_digit hs3 h3
    rw [groupOctets_three hv0 hv1 hv2 hv3, encode_three hv0 hv1 hv2 hv3, encode]
  · obtain ⟨v2, hv2, rfl⟩ := exists_digit hs2 h2
    rw [groupOctets_two hv0 hv1 hv2, encode_two hv0 hv1 hv2 (hlow v2 (value_digit hv2))]
  · rw [groupOctets_one hv0 hv1, encode_one hv0 hv1 (hlow v1 (value_digit hv1))]

/-- A well-padded text is the encoding of what it stands for. -/
theorem encode_octets {t : Bytes} (hsymbols : ∀ c ∈ t, IsSymbol c) (h : WellPadded t) :
    encode (octets t) = t := by
  induction t using WellPadded.induct with
  | case1 => simp [encode, octets]
  | case2 c0 c1 c2 c3 =>
      rw [WellPadded, if_pos rfl] at h
      have hoctets : octets [c0, c1, c2, c3] = groupOctets c0 c1 c2 c3 := by simp [octets]
      rw [hoctets, encode_groupOctets hsymbols h]
  | case3 c0 c1 c2 c3 rest hrest ih =>
      rw [WellPadded, if_neg hrest] at h
      obtain ⟨hpad, hrest⟩ := h
      simp only [List.mem_cons, not_or] at hpad
      simp only [List.forall_mem_cons] at hsymbols
      obtain ⟨hs0, hs1, hs2, hs3, hsymbols⟩ := hsymbols
      obtain ⟨v0, hv0, rfl⟩ := exists_digit hs0 (Ne.symm hpad.1)
      obtain ⟨v1, hv1, rfl⟩ := exists_digit hs1 (Ne.symm hpad.2.1)
      obtain ⟨v2, hv2, rfl⟩ := exists_digit hs2 (Ne.symm hpad.2.2.1)
      obtain ⟨v3, hv3, rfl⟩ := exists_digit hs3 (Ne.symm hpad.2.2.2.1)
      rw [octets, groupOctets_three hv0 hv1 hv2 hv3]
      simp only [List.cons_append, List.nil_append]
      rw [encode_three hv0 hv1 hv2 hv3, ih hsymbols hrest]
  | case4 t hnil hgroups =>
      rw [WellPadded] at h
      · exact h.elim
      · exact hnil
      · exact hgroups

end Base64
