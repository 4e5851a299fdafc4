import EuiccCrypto.X509.Policies

/-!
# What the search for an extension finds

The extensions of a certificate in DER, as values, and what `extension_value` returns for them.
`extensionValue_eq_find?` says that the search returns the value of the extension with the OID
searched for, and nothing if there is none, as long as the OID stands nowhere else.
-/

namespace EuiccCrypto
namespace X509

open Octets Tlv Search

/-- An Extension: the DER of its OID, whether it is marked critical, and its value. -/
structure Extension where
  oid : Bytes
  critical : Bool
  value : Bytes

namespace Extension

variable (e : Extension)

/-- The content of the Extension in DER. -/
def content : Bytes :=
  e.oid ++ ((if e.critical then encode 0x01 [0xFF] else []) ++ encode 0x04 e.value)

/-- The Extension as an element. -/
def item : UInt8 × Bytes := (0x30, e.content)

theorem oid_prefix_content : e.oid <+: e.content := List.prefix_append _ _

theorem length_oid_lt : e.oid.length + 1 < e.content.length := by
  have hvalue : (encode 0x04 e.value).length ≠ 0 ∧ (encode 0x04 e.value).length ≠ 1 := by
    have hpos : 0 < (lengthOctets e.value.length).length := by
      rw [lengthOctets]
      split <;> simp
    rw [encode, List.length_cons, List.length_append]
    omega
  rw [content, List.length_append, List.length_append]
  omega

/-- The OID of an Extension can be read off its content, among OIDs of one length. -/
theorem oid_eq_of_prefix {oid : Bytes} (hlen : e.oid.length = oid.length)
    (h : oid <+: e.content) : e.oid = oid :=
  (List.prefix_of_prefix_length_le e.oid_prefix_content h hlen.le).eq_of_length hlen

end Extension

/-- At an Extension with a short value the search stops with that value. -/
theorem extensionTurn_content {e : Extension} (h : e.value.length ≤ 0x7F) (rest : Bytes) :
    extensionTurn e.oid (e.content ++ rest) = .done (some e.value) := by
  have hcrit : IsCritical (if e.critical then encode 0x01 [0xFF] else []) := by
    cases e.critical with
    | true => exact .inr ⟨[0xFF], by decide, rfl⟩
    | false => exact .inl rfl
  have hvalue : HasValue e.oid (e.content ++ rest) e.value :=
    ⟨h, _, hcrit, List.prefix_append _ _⟩
  exact hvalue.turn

/-- The OID `oid` stands nowhere in `der` but in an Extension that starts with it. -/
def OccursOnlyInExtension (der oid : Bytes) : Prop :=
  ∀ i, oid <+: der.drop i → ∃ (l : Layout der) (x : Extensions l) (front extn : Bytes),
    x.At front extn ∧ oid <+: extn ∧ front.length ≤ i ∧ i < front.length + extn.length

section Search

variable {der oid : Bytes} {l : Layout der}

/-- The search comes first to an Extension with the OID, if the OID stands nowhere else. -/
theorem OccursOnlyInExtension.exists_first (honly : OccursOnlyInExtension der oid)
    {i : Nat} (hi : oid <+: der.drop i) :
    ∃ (l : Layout der) (x : Extensions l) (front extn : Bytes), x.At front extn ∧ oid <+: extn ∧
      ∀ j < front.length, ¬ oid <+: der.drop j := by
  classical
  have hex : ∃ j, oid <+: der.drop j := ⟨i, hi⟩
  obtain ⟨l, x, front, extn, hat, hoid, hle, -⟩ := honly (Nat.find hex) (Nat.find_spec hex)
  refine ⟨l, x, front, extn, hat, hoid, ?_⟩
  intro j hj
  exact Nat.find_min hex (by omega)

/-- The items of the extensions element are determined by the certificate, if it has one such
element. -/
theorem Extensions.items_eq {items : List (UInt8 × Bytes)} (x : Extensions l)
    (hmem : ∀ content, (0xa3, content) ∈ l.members → content = encode 0x30 (encodeAll items))
    (hlen : (encodeAll items).length < 2 ^ 32) : x.items = items := by
  have hcontent := hmem x.content (by rw [x.members_eq]; simp)
  have hseq := (x.content_isTlv.unique (hcontent ▸ isTlv_encode 0x30 hlen)).2
  exact x.items_seq.unique (hseq ▸ tlvSeq_encodeAll hlen)

/-- The search settles at the first place of the OID, if a whole Extension stands there. -/
theorem Extensions.At.settlesAt {x : Extensions l} {front : Bytes} {e : Extension}
    (hat : x.At front e.content) (hvalue : e.value.length ≤ 0x7F)
    (hearlier : ∀ j < front.length, ¬ e.oid <+: der.drop j) :
    SettlesAt e.oid.length (extensionTurn e.oid) der front.length (some e.value) := by
  obtain ⟨rest, hdrop⟩ := hat.drop_eq
  refine ⟨fun j hj => atPattern_eq_next (hearlier j hj), ?_, ?_⟩
  · rw [hdrop]
    exact extensionTurn_content hvalue rest
  · have := e.length_oid_lt
    rw [hdrop, List.length_append]
    omega

/-- **What the search for an extension finds**, in a certificate with the extensions `es`: the
value of the one with this OID. -/
theorem extensionValue_eq_find? {es : List Extension} (x : Extensions l)
    (hitems : ∀ x' : Extensions l, x'.items = es.map Extension.item)
    (hoid : ∀ e ∈ es, e.oid.length = oid.length) (hvalue : ∀ e ∈ es, e.value.length ≤ 0x7F)
    (hnodup : (es.map Extension.oid).Nodup) (honly : OccursOnlyInExtension der oid) :
    extensionValue der oid = (es.find? fun e => e.oid = oid).map Extension.value := by
  -- An Extension that starts with the OID is one of `es`.
  have hmem : ∀ (x' : Extensions l) (front extn : Bytes), x'.At front extn → oid <+: extn →
      ∃ e ∈ es, e.oid = oid ∧ extn = e.content := by
    intro x' front extn hat hprefix
    have hextn := hat.mem
    rw [hitems x', List.mem_map] at hextn
    obtain ⟨e, he, hitem⟩ := hextn
    cases hitem
    exact ⟨e, he, e.oid_eq_of_prefix (hoid e he) hprefix, rfl⟩
  cases hfind : es.find? fun e => e.oid = oid with
  | some e =>
      have he := List.mem_of_find?_eq_some hfind
      obtain rfl : e.oid = oid := by simpa using List.find?_some hfind
      -- The Extension itself is a place where the OID stands, so there is a first one.
      have hitem : e.item ∈ x.items := by
        rw [hitems x]
        exact List.mem_map_of_mem he
      obtain ⟨front, hat⟩ := x.exists_at hitem
      obtain ⟨rest, hdrop⟩ := hat.drop_eq
      have hoccurs : e.oid <+: der.drop front.length := by
        rw [hdrop]
        exact e.oid_prefix_content.trans (List.prefix_append _ _)
      obtain ⟨l', x', front', extn, hat', hprefix, hearlier⟩ := honly.exists_first hoccurs
      obtain rfl := Subsingleton.elim l l'
      obtain ⟨e', he', heq, rfl⟩ := hmem x' front' extn hat' hprefix
      obtain rfl := List.inj_on_of_nodup_map hnodup he' he heq
      exact (hat'.settlesAt (hvalue e' he') hearlier).scan_eq
  | none =>
      apply Option.eq_none_iff_forall_not_mem.mpr
      intro v hv
      obtain ⟨i, hi⟩ := exists_settlesAt hv
      obtain ⟨t, ht, -⟩ := atPattern_eq_done hi.done
      obtain ⟨l', x', front, extn, hat, hprefix, -⟩ := honly i ⟨t, ht.symm⟩
      obtain rfl := Subsingleton.elim l l'
      obtain ⟨e, he, heq, -⟩ := hmem x' front extn hat hprefix
      exact absurd heq (by simpa using List.find?_eq_none.mp hfind e he)

/-- An OID with one place in the certificate stands only in the Extension that starts with it. -/
theorem occursOnlyInExtension_of_unique {x : Extensions l} {e : Extension} (he : e.item ∈ x.items)
    (n : Nat) (huniq : ∀ t ∈ der.tails, e.oid <+: t → t.length = n) :
    OccursOnlyInExtension der e.oid := by
  obtain ⟨front, hat⟩ := x.exists_at he
  obtain ⟨rest, hdrop⟩ := hat.drop_eq
  have hplace : ∀ i, e.oid <+: der.drop i → (der.drop i).length = n := by
    intro i hi
    exact huniq _ ((List.mem_tails _ _).mpr (List.drop_suffix i der)) hi
  have hfront := hplace front.length (by
    rw [hdrop]
    exact e.oid_prefix_content.trans (List.prefix_append _ _))
  have hpos := e.length_oid_lt
  have hlen := congrArg List.length hdrop
  rw [List.length_append] at hlen
  intro i hi
  -- As much is left behind the one place as behind the other.
  have hi' := hplace i hi
  rw [List.length_drop] at hi' hfront hlen
  exact ⟨l, x, front, e.content, hat, e.oid_prefix_content, by omega, by omega⟩

end Search

end X509
end EuiccCrypto
