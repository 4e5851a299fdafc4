import EuiccCrypto.Lib.Tlv
import EuiccCrypto.X509.Readers

/-!
# What stands behind an OID

`subject_serial_number` and `extension_value` come past every place of a certificate, and read on
where their OID stands. Here is what can stand at a place, in octets, and what the two do there:
`serial_cases` and `extension_cases` say that nothing else can. A place that concludes a search does
so whatever follows, and a place at which the octets end too early leaves it open, so that it can be
read off a tbsCertificate whether a search is settled in it (`settled_serial_iff`,
`settled_extension_iff`).
-/

namespace EuiccCrypto
namespace X509

open Octets Tlv Search

/-! ### serialNumber attributes

`subject_serial_number` goes on at an attribute of another type, at a length that is not in short
form, and at a value that is cut off; it returns at the first place that looks like a serialNumber
attribute. -/

/-- `attr` is the content of a serialNumber attribute with the PrintableString or UTF8String `v`,
in DER. -/
def IsSerialNumber (attr v : Bytes) : Prop :=
  ∃ tag : UInt8, (tag = 0x13 ∨ tag = 0x0C) ∧ attr = oidSerialNumber ++ encode tag v

/-- `s` starts with what looks like the content of a serialNumber attribute with the value `v`. -/
def LooksLikeSerial (s v : Bytes) : Prop :=
  v.length ≤ 0x7F ∧ ∃ attr, IsSerialNumber attr v ∧ attr <+: s

/-- `s` ends within what looks like the content of a serialNumber attribute. -/
def EndsInSerial (s : Bytes) : Prop :=
  ∃ attr v, v.length ≤ 0x7F ∧ IsSerialNumber attr v ∧ s <+: attr ∧ s ≠ attr

section Serial

variable {s v : Bytes}

theorem LooksLikeSerial.append (h : LooksLikeSerial s v) (r : Bytes) :
    LooksLikeSerial (s ++ r) v := by
  obtain ⟨hv, attr, hattr, hs⟩ := h
  exact ⟨hv, attr, hattr, hs.trans (List.prefix_append s r)⟩

theorem LooksLikeSerial.length (h : LooksLikeSerial s v) :
    oidSerialNumber.length + 1 < s.length := by
  obtain ⟨hv, _, ⟨tag, -, rfl⟩, hs⟩ := h
  have := hs.length_le
  rw [List.length_append, encode_of_lt (Nat.lt_succ_of_le hv), List.length_cons,
    List.length_cons] at this
  omega

/-- The search returns what looks like a serialNumber. -/
theorem LooksLikeSerial.turn (h : LooksLikeSerial s v) : serialTurn s = .done (some v) := by
  obtain ⟨hv, _, ⟨tag, htag, rfl⟩, r, rfl⟩ := h
  have hlen : (UInt8.ofNat v.length).toNat = v.length :=
    UInt8.toNat_ofNat_of_lt' (Nat.lt_of_le_of_lt hv (by decide))
  have htag' : ¬ (tag ≠ 0x13 ∧ tag ≠ 0x0C) := by grind
  rw [encode_of_lt (Nat.lt_succ_of_le hv), List.append_assoc, serialTurn, atPattern_append,
    List.cons_append, List.cons_append, serialAfter, if_neg htag', hlen, if_neg (by omega),
    if_pos (by rw [List.length_append]; omega), List.take_left]

theorem LooksLikeSerial.decided (h : LooksLikeSerial s v) : Decided serialTurn s :=
  ⟨some v, fun r => (h.append r).turn⟩

/-- What ends within an attribute can be completed to two attributes. -/
theorem EndsInSerial.free (h : EndsInSerial s) : Free serialTurn s := by
  obtain ⟨_, v, hv, ⟨tag, htag, rfl⟩, hs, hne⟩ := h
  have hlooks : ∀ r w : Bytes, w.length ≤ 0x7F → s ++ r = oidSerialNumber ++ encode tag w →
      serialTurn (s ++ r) = .done (some w) := by
    intro r w hw heq
    have hlooks : LooksLikeSerial (s ++ r) w := ⟨hw, _, ⟨tag, htag, rfl⟩, heq ▸ List.prefix_rfl⟩
    exact hlooks.turn
  rw [encode_of_lt (Nat.lt_succ_of_le hv)] at hs hne
  have hfront : oidSerialNumber ++ [tag] <+:
      oidSerialNumber ++ tag :: UInt8.ofNat v.length :: v :=
    (List.prefix_append_right_inj _).mpr (List.prefix_append [tag] _)
  rcases List.prefix_or_prefix_of_prefix hs hfront with ⟨p, hp⟩ | ⟨p, rfl⟩
  · -- The length is still missing: two values of one octet fit.
    refine ⟨p ++ [1, 0], p ++ [1, 1], [0], [1], by decide, hlooks _ _ (by decide) ?_,
      hlooks _ _ (by decide) ?_⟩
    all_goals
      rw [← List.append_assoc, hp, List.append_assoc]
      rfl
  · rw [List.append_assoc, List.prefix_append_right_inj, List.singleton_append,
      List.prefix_cons_inj] at hs
    match p, hs with
    | [], _ =>
        refine ⟨[1, 0], [1, 1], [0], [1], by decide, hlooks _ _ (by decide) ?_,
          hlooks _ _ (by decide) ?_⟩ <;> rw [List.append_nil, List.append_assoc] <;> rfl
    | len :: value, hs =>
        obtain ⟨hlen, hvalue⟩ := List.cons_prefix_cons.mp hs
        subst hlen
        have hne' : value ≠ v := fun heq => hne (by rw [heq, List.append_assoc]; rfl)
        have hlen : (UInt8.ofNat v.length).toNat = v.length :=
          UInt8.toNat_ofNat_of_lt' (Nat.lt_of_le_of_lt hv (by decide))
        have hlt : value.length < v.length :=
          lt_of_le_of_ne hvalue.length_le fun heq => hne' (hvalue.eq_of_length heq)
        obtain ⟨r, r', hr, hr', hdiff⟩ := exists_two_completions hlt
        have hencode : ∀ r, (value ++ r).length = v.length →
            oidSerialNumber ++ [tag] ++ UInt8.ofNat v.length :: value ++ r =
              oidSerialNumber ++ encode tag (value ++ r) := by
          intro r hr
          rw [← encode_of_length_eq (hlen.trans_le hv) (hr.trans hlen.symm)]
          simp
        exact ⟨r, r', _, _, hdiff, hlooks r _ (hr.trans_le hv) (hencode r hr),
          hlooks r' _ (hr'.trans_le hv) (hencode r' hr')⟩

/-- What the string behind the OID leads to, if it has one of the two identifiers. -/
theorem serial_cases_of_tag {tag : UInt8} (htag : tag = 0x13 ∨ tag = 0x0C) {t : Bytes}
    (ht : t.head? = some tag) : (∃ v, LooksLikeSerial (oidSerialNumber ++ t) v) ∨
      EndsInSerial (oidSerialNumber ++ t) ∨ Skipped serialTurn (oidSerialNumber ++ t) := by
  cases shortView tag t with
  | nil => cases ht
  | other hb => exact absurd (Option.some.inj ht) hb
  | onlyTag =>
      refine .inr (.inl ⟨_, [], by decide, ⟨tag, htag, rfl⟩, ⟨[0x00], rfl⟩, ?_⟩)
      intro heq
      cases List.append_cancel_left heq
  | @long len rest hlen =>
      right; right
      intro r
      have htag' : ¬ (tag ≠ 0x13 ∧ tag ≠ 0x0C) := by grind
      rw [List.append_assoc, serialTurn, atPattern_append]
      exact (if_neg htag').trans (if_pos hlen)
  | @cutOff len val hlen hlt =>
      obtain ⟨r, -, hr, -, -⟩ := exists_two_completions hlt
      have hencode := @encode_of_length_eq tag _ _ _ hlen hr
      refine .inr (.inl ⟨_, val ++ r, hr.trans_le hlen, ⟨tag, htag, rfl⟩, ⟨r, ?_⟩, ?_⟩)
      · rw [List.append_assoc, ← hencode]
        rfl
      · rw [← hencode]
        intro heq
        have hlength := congrArg List.length heq
        simp only [List.length_append, List.length_cons] at hlength hr
        omega
  | @whole val rest hval =>
      refine .inl ⟨val, hval, _, ⟨tag, htag, rfl⟩, ?_⟩
      exact (List.prefix_append_right_inj _).mpr (List.prefix_append _ _)

theorem serial_cases (s : Bytes) :
    (∃ v, LooksLikeSerial s v) ∨ EndsInSerial s ∨ Skipped serialTurn s := by
  have hends : ∀ {t : Bytes}, t <+: oidSerialNumber → EndsInSerial t := by
    intro t ht
    refine ⟨_, [], by decide, ⟨0x13, .inl rfl, rfl⟩, ht.trans (List.prefix_append _ _), ?_⟩
    rintro rfl
    exact absurd ht.length_le (by decide)
  rcases skipped_or_prefix oidSerialNumber serialAfter s with h | h | ⟨t, rfl⟩
  · exact .inr (.inr h)
  · exact .inr (.inl (hends h))
  · cases t with
    | nil => exact .inr (.inl (hends (List.append_nil _ ▸ List.prefix_rfl)))
    | cons b t =>
        by_cases hb : b = 0x13 ∨ b = 0x0C
        · exact serial_cases_of_tag hb rfl
        · right; right
          intro r
          rw [List.append_assoc, serialTurn, atPattern_append]
          exact if_pos (not_or.mp hb)

/-- Where the search stops behind the OID: at its end, or at a short string that is all there. -/
theorem serialAfter_eq_done {t : Bytes} {r : Option Bytes} (h : serialAfter t = .done r) :
    (r = none ∧ t.length ≤ 1) ∨ ∃ (tag len : UInt8) (value : Bytes),
      t = tag :: len :: value ∧ (tag = 0x13 ∨ tag = 0x0C) ∧ len.toNat ≤ 0x7F ∧
        len.toNat ≤ value.length ∧ r = some (value.take len.toNat) := by
  unfold serialAfter at h
  split at h
  · cases h
    exact .inl ⟨rfl, Nat.zero_le 1⟩
  · next tag rest =>
      split at h
      · cases h
      · next htag =>
          split at h
          · cases h
            exact .inl ⟨rfl, Nat.le.refl⟩
          · next len value =>
              split at h
              · cases h
              · next hlen =>
                  split at h
                  · next hfits =>
                      cases h
                      have hstring : tag = 0x13 ∨ tag = 0x0C := by grind
                      exact .inr ⟨tag, len, value, rfl, hstring, by omega, hfits, rfl⟩
                  · cases h

/-- The search stops with a value exactly where a serialNumber attribute seems to be. -/
theorem serialTurn_eq_done_some : serialTurn s = .done (some v) ↔ LooksLikeSerial s v := by
  refine ⟨?_, LooksLikeSerial.turn⟩
  intro h
  obtain ⟨t, rfl, ht⟩ := atPattern_eq_done h
  rcases serialAfter_eq_done ht with ⟨hnone, -⟩ | ⟨tag, len, value, rfl, htag, hlen, hfits, hv⟩
  · cases hnone
  · cases hv
    have hvalue : (value.take len.toNat).length = len.toNat := List.length_take_of_le hfits
    refine ⟨by omega, _, ⟨tag, htag, rfl⟩, ?_⟩
    rw [encode_of_lt (by omega), hvalue, UInt8.ofNat_toNat, List.prefix_append_right_inj]
    exact (List.prefix_cons_inj _).mpr ((List.prefix_cons_inj _).mpr (List.take_prefix _ _))

/-- The search gives up only where the certificate ends within an attribute. -/
theorem length_le_of_serialTurn (h : serialTurn s = .done none) :
    s.length ≤ oidSerialNumber.length + 1 := by
  obtain ⟨t, rfl, ht⟩ := atPattern_eq_done h
  rcases serialAfter_eq_done ht with ⟨-, hlen⟩ | ⟨_, _, _, -, -, -, -, hsome⟩
  · rw [List.length_append]
    omega
  · cases hsome

/-- The search is settled in `t` exactly when `t` has a place that looks like a serialNumber
attribute and does not seem to end within one before it. -/
theorem settled_serial_iff {t : Bytes} :
    Settled serialTurn t ↔ ∃ k, (∃ v, LooksLikeSerial (t.drop k) v) ∧
      ∀ j < k, ¬ EndsInSerial (t.drop j) := by
  have hstops : ∀ u, (∃ v, LooksLikeSerial u v) → Decided serialTurn u := by
    rintro u ⟨v, hv⟩
    exact hv.decided
  exact settled_iff_exists hstops (fun _ hends => hends.free) serial_cases

/-- What the search finds depends on nothing behind `t` exactly when it is settled in `t`. -/
theorem serial_determined_iff {t : Bytes} :
    Determined oidSerialNumber.length serialTurn t ↔ Settled serialTurn t := by
  apply determined_iff_settled (bounded_atPattern rfl)
  · intro u _
    rcases serial_cases u with ⟨v, hv⟩ | hends | hskip
    · exact .inr (.inl hv.decided)
    · exact .inr (.inr hends.free)
    · exact .inl hskip
  · have hlooks : LooksLikeSerial (oidSerialNumber ++ encode 0x13 []) [] :=
      ⟨by decide, _, ⟨0x13, .inl rfl, rfl⟩, List.prefix_rfl⟩
    exact ⟨_, [], scan_of_done (by decide) hlooks.turn⟩

end Serial

/-! ### Extensions

`extension_value` goes on where no extnValue follows and at a value that is cut off. Everywhere else
it returns: with a value, or with nothing at a length that is not in short form and where the
certificate ends before the value. -/

/-- `crit` is what `extension_value` skips as `critical`: nothing, or a BOOLEAN in short form. -/
def IsCritical (crit : Bytes) : Prop :=
  crit = [] ∨ ∃ content, content.length ≤ 0x7F ∧ crit = encode 0x01 content

/-- `s` starts with the OID, possibly `critical`, and the OCTET STRING `v` in short form. -/
def HasValue (oid s v : Bytes) : Prop :=
  v.length ≤ 0x7F ∧ ∃ crit, IsCritical crit ∧ oid ++ (crit ++ encode 0x04 v) <+: s

/-- `s` starts with the OID, and `critical` or the OCTET STRING behind it has a length that is not
in short form. -/
def HasLongLength (oid s : Bytes) : Prop :=
  ∃ len : UInt8, 0x7F < len.toNat ∧ (oid ++ [0x01, len] <+: s ∨
    ∃ crit, IsCritical crit ∧ oid ++ (crit ++ [0x04, len]) <+: s)

/-- `s` ends within the OID, `critical` or the identifier of the OCTET STRING. -/
def EndsBeforeValue (oid s : Bytes) : Prop :=
  ∃ crit, IsCritical crit ∧ s <+: oid ++ (crit ++ [0x04])

/-- `s` is the OID, possibly `critical`, and an OCTET STRING with fewer octets than its length
says. -/
def EndsInValue (oid s : Bytes) : Prop :=
  ∃ (crit : Bytes) (len : UInt8) (value : Bytes), IsCritical crit ∧
    s = oid ++ (crit ++ 0x04 :: len :: value) ∧ len.toNat ≤ 0x7F ∧ value.length < len.toNat

/-- `s` starts with the OID and a value in short form, or with the OID and a length in long form: the
search returns there, whatever follows. -/
def Conclusive (oid s : Bytes) : Prop := (∃ v, HasValue oid s v) ∨ HasLongLength oid s

/-- `s` ends within the OID or what belongs behind it, so that what follows `s` decides. -/
def EndsWithin (oid s : Bytes) : Prop := EndsBeforeValue oid s ∨ EndsInValue oid s

/-- `s` starts with the OID, and with a value in short form or a length in long form behind it, or
it ends before a value: the search returns there, if nothing follows `s`. -/
def StopsAt (oid s : Bytes) : Prop := Conclusive oid s ∨ (oid <+: s ∧ EndsBeforeValue oid s)

section Extension

variable {oid s v crit : Bytes}

theorem skipCritical_encode {content : Bytes} (h : content.length ≤ 0x7F) (rest : Bytes) :
    skipCritical (encode 0x01 content ++ rest) = some rest := by
  have hlen : (UInt8.ofNat content.length).toNat = content.length :=
    UInt8.toNat_ofNat_of_lt' (Nat.lt_of_le_of_lt h (by decide))
  rw [encode_of_lt (Nat.lt_succ_of_le h), List.cons_append, List.cons_append, skipCritical,
    if_pos rfl, hlen, if_neg (by omega), List.drop_left]

/-- Behind `critical` the search looks at the extnValue. -/
theorem extensionAfter_critical (hcrit : IsCritical crit) {u : Bytes}
    (hu : crit = [] → u.head? ≠ some 0x01) :
    extensionAfter (crit ++ u) = extnValueTurn u := by
  rcases hcrit with rfl | ⟨content, hcontent, rfl⟩
  · cases u with
    | nil => rfl
    | cons b u =>
        have hb : b ≠ 0x01 := fun h => hu rfl (congrArg some h)
        have hskip : skipCritical (b :: u) = some (b :: u) := if_neg hb
        rw [List.nil_append, extensionAfter, hskip]
  · rw [extensionAfter, skipCritical_encode hcontent]

theorem extnValueTurn_encode (h : v.length ≤ 0x7F) (rest : Bytes) :
    extnValueTurn (encode 0x04 v ++ rest) = .done (some v) := by
  have hlen : (UInt8.ofNat v.length).toNat = v.length :=
    UInt8.toNat_ofNat_of_lt' (Nat.lt_of_le_of_lt h (by decide))
  rw [encode_of_lt (Nat.lt_succ_of_le h), List.cons_append, List.cons_append, extnValueTurn,
    if_neg (by decide), hlen, if_neg (by omega), if_pos (by rw [List.length_append]; omega),
    List.take_left]

theorem HasValue.append (h : HasValue oid s v) (r : Bytes) : HasValue oid (s ++ r) v := by
  obtain ⟨hv, crit, hcrit, hs⟩ := h
  exact ⟨hv, crit, hcrit, hs.trans (List.prefix_append s r)⟩

theorem HasValue.length (h : HasValue oid s v) : oid.length < s.length := by
  obtain ⟨-, crit, -, hs⟩ := h
  have hlen := hs.length_le
  have hvalue := length_lt_length_encode 0x04 v
  rw [List.length_append, List.length_append] at hlen
  omega

theorem HasValue.turn (h : HasValue oid s v) : extensionTurn oid s = .done (some v) := by
  obtain ⟨hv, crit, hcrit, r, rfl⟩ := h
  rw [List.append_assoc, List.append_assoc, extensionTurn, atPattern_append,
    extensionAfter_critical hcrit (by simp [encode]), extnValueTurn_encode hv]

theorem HasLongLength.append (h : HasLongLength oid s) (r : Bytes) :
    HasLongLength oid (s ++ r) := by
  obtain ⟨len, hlen, hs | ⟨crit, hcrit, hs⟩⟩ := h
  · exact ⟨len, hlen, .inl (hs.trans (List.prefix_append s r))⟩
  · exact ⟨len, hlen, .inr ⟨crit, hcrit, hs.trans (List.prefix_append s r)⟩⟩

theorem HasLongLength.turn (h : HasLongLength oid s) : extensionTurn oid s = .done none := by
  obtain ⟨len, hlen, ⟨r, rfl⟩ | ⟨crit, hcrit, r, rfl⟩⟩ := h
  · have hskip : skipCritical ([0x01, len] ++ r) = none := if_pos hlen
    rw [List.append_assoc, extensionTurn, atPattern_append, extensionAfter, hskip]
  · rw [List.append_assoc, List.append_assoc, extensionTurn, atPattern_append,
      extensionAfter_critical hcrit (by simp)]
    exact if_pos hlen

theorem Conclusive.decided (h : Conclusive oid s) : Decided (extensionTurn oid) s := by
  rcases h with ⟨v, hv⟩ | hlong
  · exact ⟨some v, fun r => (hv.append r).turn⟩
  · exact ⟨none, fun r => (hlong.append r).turn⟩

/-- The values that `extension_value` can return. -/
def ShortValue (a : Bytes) : Prop := a.length ≤ 0x7F

/-- Any short value can be put in where `s` ends before the value. -/
theorem EndsBeforeValue.open (h : EndsBeforeValue oid s) :
    Open (extensionTurn oid) ShortValue s := by
  obtain ⟨crit, hcrit, p, hp⟩ := h
  intro a ha
  have ha : a.length ≤ 0x7F := ha
  have heq : s ++ (p ++ UInt8.ofNat a.length :: a) = oid ++ (crit ++ encode 0x04 a) := by
    rw [← List.append_assoc, hp, encode_of_lt (Nat.lt_succ_of_le ha)]
    simp
  have hvalue : HasValue oid (s ++ (p ++ UInt8.ofNat a.length :: a)) a :=
    ⟨ha, crit, hcrit, heq ▸ List.prefix_rfl⟩
  exact ⟨_, hvalue.turn⟩

theorem EndsBeforeValue.free (h : EndsBeforeValue oid s) : Free (extensionTurn oid) s :=
  h.open.free (by decide : ([] : Bytes).length ≤ 0x7F) (by decide : [(0x00 : UInt8)].length ≤ 0x7F)
    (by decide)

/-- Where the OID is all there and the value is not, the search gives up. -/
theorem EndsBeforeValue.turn (h : EndsBeforeValue oid s) (hoid : oid <+: s) :
    extensionTurn oid s = .done none := by
  obtain ⟨t, rfl⟩ := hoid
  obtain ⟨crit, hcrit, hs⟩ := h
  rw [List.prefix_append_right_inj] at hs
  rw [extensionTurn, atPattern_append]
  have hnone : ∀ u : Bytes, u <+: [0x04] → extnValueTurn u = .done none := by
    intro u hu
    match u, hu with
    | [], _ => rfl
    | [b], hu =>
        obtain rfl : b = 0x04 := (List.cons_prefix_cons.mp hu).1
        rfl
  rcases hcrit with rfl | ⟨content, hcontent, rfl⟩
  · rw [← List.nil_append t, extensionAfter_critical (.inl rfl)]
    · exact hnone t hs
    · intro _ hhead
      match t, hs, hhead with
      | b :: t, hs, hhead =>
          cases hhead
          exact absurd (List.cons_prefix_cons.mp hs).1 (by decide)
  · rw [encode_of_lt (Nat.lt_succ_of_le hcontent), List.cons_append, List.cons_append] at hs
    match t, hs with
    | [], _ => rfl
    | [b], hs =>
        obtain rfl : b = 0x01 := (List.cons_prefix_cons.mp hs).1
        rfl
    | b :: len :: c, hs =>
        obtain ⟨hb, htail⟩ := List.cons_prefix_cons.mp hs
        obtain ⟨rfl, hc⟩ := List.cons_prefix_cons.mp htail
        have hlen : (UInt8.ofNat content.length).toNat = content.length :=
          UInt8.toNat_ofNat_of_lt' (Nat.lt_of_le_of_lt hcontent (by decide))
        have hdrop := hc.drop content.length
        rw [List.drop_left] at hdrop
        rw [extensionAfter, skipCritical, if_pos hb, hlen, if_neg (by omega)]
        exact hnone _ hdrop

theorem EndsInValue.free (h : EndsInValue oid s) : Free (extensionTurn oid) s := by
  obtain ⟨crit, len, value, hcrit, rfl, hlen, hlt⟩ := h
  obtain ⟨r, r', hr, hr', hne⟩ := exists_two_completions hlt
  have hvalue : ∀ r, (value ++ r).length = len.toNat →
      HasValue oid (oid ++ (crit ++ 0x04 :: len :: value) ++ r) (value ++ r) := by
    intro r hr
    refine ⟨hr.trans_le hlen, crit, hcrit, ?_⟩
    rw [← encode_of_length_eq hlen hr]
    simp
  exact ⟨r, r', _, _, hne, (hvalue r hr).turn, (hvalue r' hr').turn⟩

theorem EndsInValue.turn (h : EndsInValue oid s) : extensionTurn oid s = .next := by
  obtain ⟨crit, len, value, hcrit, rfl, hlen, hlt⟩ := h
  rw [extensionTurn, atPattern_append, extensionAfter_critical hcrit (by simp), extnValueTurn,
    if_neg (by decide), if_neg (by omega), if_neg (by omega)]

theorem EndsWithin.free (h : EndsWithin oid s) : Free (extensionTurn oid) s := by
  rcases h with h | h
  · exact h.free
  · exact h.free

/-- What ends within an extension has the OID, or is a part of it. -/
theorem EndsWithin.prefix_or_prefix (h : EndsWithin oid s) : oid <+: s ∨ s <+: oid := by
  rcases h with ⟨crit, -, hs⟩ | ⟨crit, len, value, -, rfl, -, -⟩
  · exact List.prefix_or_prefix_of_prefix (List.prefix_append oid _) hs
  · exact .inl (List.prefix_append oid _)

/-- What can stand at the extnValue, which is where the search has come to behind `crit`. -/
theorem extension_cases_of_critical (hcrit : IsCritical crit) {u : Bytes}
    (hu : crit = [] → u.head? ≠ some 0x01) : Conclusive oid (oid ++ (crit ++ u)) ∨
      EndsWithin oid (oid ++ (crit ++ u)) ∨ Skipped (extensionTurn oid) (oid ++ (crit ++ u)) := by
  cases shortView 0x04 u with
  | nil =>
      refine .inr (.inl (.inl ⟨crit, hcrit, ?_⟩))
      rw [List.append_nil, List.prefix_append_right_inj]
      exact List.prefix_append _ _
  | @other b rest hb =>
      right; right
      intro r
      have hu' : crit = [] → (b :: (rest ++ r)).head? ≠ some 0x01 := hu
      rw [List.append_assoc, List.append_assoc, extensionTurn, atPattern_append, List.cons_append,
        extensionAfter_critical hcrit hu']
      exact if_pos hb
  | onlyTag => exact .inr (.inl (.inl ⟨crit, hcrit, List.prefix_rfl⟩))
  | @long len rest hlen =>
      refine .inl (.inr ⟨len, hlen, .inr ⟨crit, hcrit, ?_⟩⟩)
      rw [List.prefix_append_right_inj, List.prefix_append_right_inj]
      exact List.prefix_append [0x04, len] rest
  | @cutOff len value hlen hlt =>
      exact .inr (.inl (.inr ⟨crit, len, value, hcrit, rfl, hlen, hlt⟩))
  | @whole v rest hv =>
      refine .inl (.inl ⟨v, hv, crit, hcrit, ?_⟩)
      rw [List.prefix_append_right_inj, List.prefix_append_right_inj]
      exact List.prefix_append _ _

theorem extension_cases (oid s : Bytes) :
    Conclusive oid s ∨ EndsWithin oid s ∨ Skipped (extensionTurn oid) s := by
  rcases skipped_or_prefix oid extensionAfter s with h | h | ⟨t, rfl⟩
  · exact .inr (.inr h)
  · exact .inr (.inl (.inl ⟨[], .inl rfl, h.trans (List.prefix_append _ _)⟩))
  · -- Is there a `critical`, and does it end?
    cases shortView 0x01 t with
    | nil => exact extension_cases_of_critical (.inl rfl) (by simp)
    | @other b rest hb => exact extension_cases_of_critical (.inl rfl) (by simpa using hb)
    | onlyTag =>
        refine .inr (.inl (.inl ⟨encode 0x01 [], .inr ⟨[], by decide, rfl⟩, ?_⟩))
        rw [List.prefix_append_right_inj]
        exact List.prefix_append [0x01] _
    | @long len rest hlen =>
        refine .inl (.inr ⟨len, hlen, .inl ?_⟩)
        rw [List.prefix_append_right_inj]
        exact List.prefix_append [0x01, len] rest
    | @cutOff len content hlen hlt =>
        obtain ⟨r, -, hr, -, -⟩ := exists_two_completions hlt
        refine .inr (.inl (.inl ⟨_, .inr ⟨content ++ r, hr.trans_le hlen, rfl⟩, ?_⟩))
        rw [List.prefix_append_right_inj, ← encode_of_length_eq hlen hr]
        exact ⟨r ++ [0x04], by simp⟩
    | @whole content rest hcontent =>
        exact extension_cases_of_critical (.inr ⟨content, hcontent, rfl⟩) (by simp [encode])

theorem extensionTurn_eq_done_some : extensionTurn oid s = .done (some v) ↔ HasValue oid s v := by
  refine ⟨?_, HasValue.turn⟩
  intro h
  rcases extension_cases oid s with (⟨w, hw⟩ | hlong) | (hbefore | hin) | hskip
  · cases h.symm.trans hw.turn
    exact hw
  · cases h.symm.trans hlong.turn
  · obtain ⟨t, rfl, -⟩ := atPattern_eq_done h
    cases h.symm.trans (hbefore.turn (List.prefix_append oid t))
  · cases h.symm.trans hin.turn
  · have hnext := hskip []
    rw [List.append_nil, h] at hnext
    cases hnext

theorem extensionTurn_eq_next : extensionTurn oid s = .next ↔ ¬ StopsAt oid s := by
  constructor
  · rintro h ((⟨v, hv⟩ | hlong) | ⟨hoid, hbefore⟩)
    · cases h.symm.trans hv.turn
    · cases h.symm.trans hlong.turn
    · cases h.symm.trans (hbefore.turn hoid)
  · intro h
    rcases extension_cases oid s with hstop | (hbefore | hin) | hskip
    · exact absurd (.inl hstop) h
    · exact atPattern_eq_next fun hoid => h (.inr ⟨hoid, hbefore⟩)
    · exact hin.turn
    · simpa using hskip []

/-- The search finds the first place where it stops. -/
theorem settlesAt_extension_iff {der : Bytes} {k : Nat} :
    SettlesAt oid.length (extensionTurn oid) der k (some v) ↔
      HasValue oid (der.drop k) v ∧ ∀ j < k, ¬ StopsAt oid (der.drop j) := by
  constructor
  · intro h
    exact ⟨extensionTurn_eq_done_some.mp h.done,
      fun j hj => extensionTurn_eq_next.mp (h.earlier j hj)⟩
  · rintro ⟨hvalue, hearlier⟩
    exact ⟨fun j hj => extensionTurn_eq_next.mpr (hearlier j hj), hvalue.turn, hvalue.length⟩

/-- The search is settled in `t` exactly when `t` has a place that concludes it and does not end
within an extension before it. -/
theorem settled_extension_iff {t : Bytes} :
    Settled (extensionTurn oid) t ↔ ∃ k, Conclusive oid (t.drop k) ∧
      ∀ j < k, ¬ EndsWithin oid (t.drop j) := by
  apply settled_iff_exists
  · intro u hstop
    exact hstop.decided
  · intro u hends
    exact hends.free
  · exact extension_cases oid

theorem extension_determined_iff {t : Bytes} :
    Determined oid.length (extensionTurn oid) t ↔ Settled (extensionTurn oid) t := by
  apply determined_iff_settled (bounded_atPattern rfl)
  · intro u _
    rcases extension_cases oid u with hstop | hends | hskip
    · exact .inr (.inl hstop.decided)
    · exact .inr (.inr hends.free)
    · exact .inl hskip
  · have hvalue : HasValue oid (oid ++ encode 0x04 []) [] :=
      ⟨by decide, [], .inl rfl, List.prefix_rfl⟩
    exact ⟨_, [], scan_of_done hvalue.length hvalue.turn⟩

end Extension

end X509
end EuiccCrypto
