import EuiccCrypto.X509.Occurrences
import EuiccCrypto.X509.Signed

/-!
# What the readers read outside tbsCertificate

The readers search the whole input, so what they return may depend on octets that are not
signed. `readers_agree_iff` says when it does not: the searches have to stop inside
tbsCertificate (`SettledTbs`). The one thing the readers cannot always tell is a value that
tbsCertificate cuts off (`CutOffTbs`). `unsigned_role_accepted` is a certificate with a genuine
signature that takes its role from the signature algorithm.
-/

namespace EuiccCrypto
namespace X509

open Octets Tlv Search

/-! ### The header in front of tbsCertificate

A search starts at the first octet of the certificate, in front of tbsCertificate. No OID that is
searched for can begin in the outer header (`not_prefix_header`), so a search of the certificate is
one of tbsCertificate and what follows it (`scan_layout`). -/

/-- What the OIDs searched for have in common: they cannot be found in the header of a SEQUENCE,
nor across its end when a SEQUENCE follows. -/
structure IsSearched (oid : Bytes) : Prop where
  length : oid.length = 5
  head : oid.head? = some 0x06
  not_mem : 0x30 ∉ oid

theorem isSearched_serialNumber : IsSearched oidSerialNumber := ⟨rfl, rfl, by decide⟩

/-- The OIDs the readers pass to `extension_value`. -/
def extensionOids : List Bytes :=
  [oidSubjectAltName, oidSubjectKeyIdentifier, oidAuthorityKeyIdentifier, oidCertificatePolicies]

theorem isSearched_of_mem {oid : Bytes} (h : oid ∈ extensionOids) : IsSearched oid := by
  simp only [extensionOids, List.mem_cons, List.not_mem_nil, or_false] at h
  rcases h with rfl | rfl | rfl | rfl <;> exact ⟨rfl, rfl, by decide⟩

theorem not_prefix_header {oid hdr : Bytes} {n : Nat} (ho : IsSearched oid)
    (hh : IsHeader 0x30 n hdr) (r : Bytes) {j : Nat} (hj : j < hdr.length) :
    ¬ oid <+: hdr.drop j ++ 0x30 :: r := by
  intro hpre
  have hget : ∀ k < 5, (hdr.drop j ++ 0x30 :: r)[k]? = oid[k]? := by
    intro k hk
    obtain ⟨t, ht⟩ := hpre
    rw [← ht, List.getElem?_append_left (by rw [ho.length]; exact hk)]
  -- The SEQUENCE that follows starts before the OID would end, unless the header is longest.
  by_cases hlen : (hdr.drop j).length < 5
  · have := hget _ hlen
    rw [List.getElem?_append_right Nat.le.refl, Nat.sub_self, List.getElem?_cons_zero] at this
    exact ho.not_mem (List.mem_of_getElem? this.symm)
  · obtain ⟨os, hos, rfl⟩ := hh
    have hle := hos.length_le
    have h0 := hget 0 (by omega)
    rw [List.getElem?_append_left (by omega), List.getElem?_drop, ← List.head?_eq_getElem?, ho.head,
      Nat.add_zero] at h0
    rw [List.length_drop, List.length_cons] at hlen
    cases j with
    | zero => simp at h0
    | succ j =>
        obtain rfl : j = 0 := by omega
        -- Five octets are left behind the identifier, and a marker is not `0x06`.
        cases hos with
        | short _ => simp at hlen
        | @long m d ds hm hds _ =>
            simp only [List.getElem?_cons_succ, List.getElem?_cons_zero, Option.some.injEq] at h0
            rw [h0] at hm
            simp at hm
            omega

/-- A search starts in tbsCertificate. -/
theorem scan_layout {der oid : Bytes} (ho : IsSearched oid) (after : Bytes → Turn Bytes)
    (l : Layout der) :
    scan oid.length (atPattern oid after) der =
      scan oid.length (atPattern oid after) (l.tbsTlv ++ (l.after ++ l.trailing)) := by
  obtain ⟨hdr, hh, hder, -⟩ := l.exists_header
  obtain ⟨r, hr⟩ := l.tbs_isTlv.exists_cons
  have hder' : der = hdr ++ (l.tbsTlv ++ (l.after ++ l.trailing)) := by simpa using hder
  refine (congrArg _ hder').trans (scan_append_of_next ?_)
  intro j hj
  apply atPattern_eq_next
  rw [hr, List.cons_append]
  exact not_prefix_header ho hh _ hj

/-! ### When the readers read signed content only

Two certificates with one tbsCertificate differ in what follows it, and any octets may follow: every
tail makes an accepted certificate (`exists_certificate_with_tail`). Searches that are settled in
tbsCertificate find the same in all of them. For the converse, a search that is not settled tells two
tails apart (`serial_determined_iff`, `extension_determined_iff`), and with them two certificates. -/

variable {E : EcLib}

/-- The eight readers return the same on both certificates. -/
structure ReadersAgree (c₁ c₂ : Certificate E) : Prop where
  subjectSerialNumber : c₁.subjectSerialNumber = c₂.subjectSerialNumber
  subjectAltName : c₁.subjectAltName = c₂.subjectAltName
  subjectKeyIdentifier : c₁.subjectKeyIdentifier = c₂.subjectKeyIdentifier
  authorityKeyIdentifier : c₁.authorityKeyIdentifier = c₂.authorityKeyIdentifier
  certificatePolicies : c₁.certificatePolicies = c₂.certificatePolicies
  rspRoles : c₁.rspRoles = c₂.rspRoles
  isServerCertificateRole : c₁.isServerCertificateRole = c₂.isServerCertificateRole
  indicatesDpPbRole : c₁.indicatesDpPbRole = c₂.indicatesDpPbRole

/-- Seven of the readers are functions of what `extension_value` finds. -/
theorem readersAgree_of_searches {c₁ c₂ : Certificate E}
    (hs : c₁.subjectSerialNumber = c₂.subjectSerialNumber)
    (he : ∀ oid ∈ extensionOids, c₁.extensionValue oid = c₂.extensionValue oid) :
    ReadersAgree c₁ c₂ := by
  have hpolicies : c₁.certificatePolicies = c₂.certificatePolicies := by
    rw [Certificate.certificatePolicies, he _ (by simp [extensionOids])]
    rfl
  have hroles : c₁.rspRoles = c₂.rspRoles := by
    rw [Certificate.rspRoles, hpolicies]
    rfl
  refine ⟨hs, ?_, ?_, ?_, hpolicies, hroles, ?_, ?_⟩
  · rw [Certificate.subjectAltName, he _ (by simp [extensionOids])]
    rfl
  · rw [Certificate.subjectKeyIdentifier, he _ (by simp [extensionOids])]
    rfl
  · rw [Certificate.authorityKeyIdentifier, he _ (by simp [extensionOids])]
    rfl
  · rw [Certificate.isServerCertificateRole, hroles]
    rfl
  · rw [Certificate.indicatesDpPbRole, hpolicies]
    rfl

/-- On certificates with the tbsCertificate `tbs`, `r` holds of every two. -/
def OnEveryTwo (E : EcLib) (webpki : Bytes → Bool) (tbs : Bytes)
    (r : Certificate E → Certificate E → Prop) : Prop :=
  ∀ (d₁ d₂ : Bytes) (c₁ c₂ : Certificate E), Certificate.fromDer webpki d₁ = .ok c₁ →
    Certificate.fromDer webpki d₂ = .ok c₂ →
    ∀ (l₁ : Layout d₁) (l₂ : Layout d₂), l₁.tbsTlv = tbs → l₂.tbsTlv = tbs → r c₁ c₂

/-- What the readers return depends on the tbsCertificate `tbs` only. -/
def ReadersSignedOnly (E : EcLib) (webpki : Bytes → Bool) (tbs : Bytes) : Prop :=
  OnEveryTwo E webpki tbs ReadersAgree

/-- The extension values that seven of them read from depend on `tbs` only. -/
def ValuesSignedOnly (E : EcLib) (webpki : Bytes → Bool) (tbs : Bytes) : Prop :=
  OnEveryTwo E webpki tbs fun c₁ c₂ =>
    ∀ oid ∈ extensionOids, c₁.extensionValue oid = c₂.extensionValue oid

/-- Each of the five searches comes to a place in `tbs` that concludes it: one that looks like a
serialNumber attribute, and for each extension its OID with a short value behind it, or with a length
that is not in short form. Before that place `tbs` does not end within something of the kind. -/
def SettledTbs (tbs : Bytes) : Prop :=
  (∃ k, (∃ v, LooksLikeSerial (tbs.drop k) v) ∧ ∀ j < k, ¬ EndsInSerial (tbs.drop j)) ∧
    ∀ oid ∈ extensionOids, ∃ k, Conclusive oid (tbs.drop k) ∧
      ∀ j < k, ¬ EndsWithin oid (tbs.drop j)

theorem settledTbs_iff {tbs : Bytes} :
    SettledTbs tbs ↔
      Settled serialTurn tbs ∧ ∀ oid ∈ extensionOids, Settled (extensionTurn oid) tbs :=
  and_congr settled_serial_iff.symm (forall₂_congr fun _ _ => settled_extension_iff.symm)

/-- The certificate with the tbsCertificate of `l` and nothing else in its SEQUENCE. -/
def Layout.withTail {der : Bytes} (l : Layout der) (tail : Bytes)
    (h : l.tbsTlv.length < 2 ^ 32) : Layout (encode 0x30 l.tbsTlv ++ tail) where
  outer := encode 0x30 l.tbsTlv
  body := l.tbsTlv
  trailing := tail
  tbsTlv := l.tbsTlv
  tbs := l.tbs
  after := []
  members := l.members
  der_eq := rfl
  outer_isTlv := isTlv_encode 0x30 h
  body_eq := (List.append_nil _).symm
  tbs_isTlv := l.tbs_isTlv
  members_seq := l.members_seq

theorem Layout.length_tbsTlv_lt {der : Bytes} (l : Layout der) : l.tbsTlv.length < 2 ^ 32 := by
  obtain ⟨_, ⟨os, hos, -⟩, -⟩ := l.outer_isTlv
  have hlt := hos.lt
  have hbody := congrArg List.length l.body_eq
  rw [List.length_append] at hbody
  omega

/-- Every tail behind the tbsCertificate of an accepted certificate makes an accepted
certificate. -/
theorem exists_certificate_with_tail (webpki : Bytes → Bool) (c : Certificate E)
    (l : Layout c.der) (tail : Bytes) :
    ∃ (d : Bytes) (c' : Certificate E) (l' : Layout d),
      Certificate.fromDer webpki d = .ok c' ∧ l'.tbsTlv = l.tbsTlv ∧
        l'.after ++ l'.trailing = tail := by
  obtain ⟨l₀, spki, hspki, hkey⟩ := c.exists_layout
  obtain rfl := Subsingleton.elim l₀ l
  let l' := l₀.withTail tail l₀.length_tbsTlv_lt
  have hextract : extractSpkiPublicKey E (encode 0x30 l₀.tbsTlv ++ tail) = .ok c.publicKey :=
    extractSpkiPublicKey_eq_ok.mpr ⟨l', spki, hspki, hkey⟩
  exact ⟨_, ⟨_, c.publicKey, webpki _, hextract⟩, l', Certificate.fromDer_eq_ok.mpr ⟨rfl, rfl⟩, rfl,
    rfl⟩

theorem subjectSerialNumber_eq {c : Certificate E} (l : Layout c.der) :
    c.subjectSerialNumber =
      scan oidSerialNumber.length serialTurn (l.tbsTlv ++ (l.after ++ l.trailing)) :=
  scan_layout isSearched_serialNumber serialAfter l

theorem extensionValue_eq {c : Certificate E} {oid : Bytes} (ho : oid ∈ extensionOids)
    (l : Layout c.der) :
    c.extensionValue oid =
      scan oid.length (extensionTurn oid) (l.tbsTlv ++ (l.after ++ l.trailing)) :=
  scan_layout (isSearched_of_mem ho) extensionAfter l

/-- Settled searches find the same in all certificates with one tbsCertificate. -/
theorem SettledTbs.signedOnly {webpki : Bytes → Bool} {tbs : Bytes} (h : SettledTbs tbs) :
    ReadersSignedOnly E webpki tbs ∧ ValuesSignedOnly E webpki tbs := by
  have hvalues : ValuesSignedOnly E webpki tbs := by
    intro d₁ d₂ c₁ c₂ hc₁ hc₂ l₁ l₂ ht₁ ht₂ oid ho
    obtain ⟨rfl, -⟩ := Certificate.fromDer_eq_ok.mp hc₁
    obtain ⟨rfl, -⟩ := Certificate.fromDer_eq_ok.mp hc₂
    obtain ⟨res, hres⟩ := extension_determined_iff.mpr ((settledTbs_iff.mp h).2 oid ho)
    rw [extensionValue_eq ho l₁, extensionValue_eq ho l₂, ht₁, ht₂, hres, hres]
  refine ⟨?_, hvalues⟩
  intro d₁ d₂ c₁ c₂ hc₁ hc₂ l₁ l₂ ht₁ ht₂
  have he := hvalues d₁ d₂ c₁ c₂ hc₁ hc₂ l₁ l₂ ht₁ ht₂
  obtain ⟨rfl, -⟩ := Certificate.fromDer_eq_ok.mp hc₁
  obtain ⟨rfl, -⟩ := Certificate.fromDer_eq_ok.mp hc₂
  have hs : c₁.subjectSerialNumber = c₂.subjectSerialNumber := by
    obtain ⟨res, hres⟩ := serial_determined_iff.mpr (settledTbs_iff.mp h).1
    rw [subjectSerialNumber_eq l₁, subjectSerialNumber_eq l₂, ht₁, ht₂, hres, hres]
  exact readersAgree_of_searches hs he

/-- Where the readers depend on tbsCertificate only, the search for the serial number is
settled. -/
theorem serial_settled_of_signedOnly {webpki : Bytes → Bool} (c : Certificate E)
    (l : Layout c.der) (h : ReadersSignedOnly E webpki l.tbsTlv) : Settled serialTurn l.tbsTlv := by
  -- What is found with one tail is found with every tail.
  obtain ⟨d₀, c₀, l₀, hc₀, ht₀, -⟩ := exists_certificate_with_tail webpki c l []
  apply serial_determined_iff.mp
  refine ⟨c₀.subjectSerialNumber, ?_⟩
  intro tail
  obtain ⟨d, c', l', hc', ht', htail⟩ := exists_certificate_with_tail webpki c l tail
  have hagree := (h d d₀ c' c₀ hc' hc₀ l' l₀ ht' ht₀).subjectSerialNumber
  obtain ⟨rfl, -⟩ := Certificate.fromDer_eq_ok.mp hc'
  rw [← hagree, subjectSerialNumber_eq l', ht', htail]

/-- Where the extension values depend on tbsCertificate only, the searches for them are
settled. -/
theorem extension_settled_of_signedOnly {webpki : Bytes → Bool} (c : Certificate E)
    (l : Layout c.der) (h : ValuesSignedOnly E webpki l.tbsTlv) {oid : Bytes}
    (ho : oid ∈ extensionOids) : Settled (extensionTurn oid) l.tbsTlv := by
  obtain ⟨d₀, c₀, l₀, hc₀, ht₀, -⟩ := exists_certificate_with_tail webpki c l []
  apply extension_determined_iff.mp
  refine ⟨c₀.extensionValue oid, ?_⟩
  intro tail
  obtain ⟨d, c', l', hc', ht', htail⟩ := exists_certificate_with_tail webpki c l tail
  have hagree := h d d₀ c' c₀ hc' hc₀ l' l₀ ht' ht₀ oid ho
  obtain ⟨rfl, -⟩ := Certificate.fromDer_eq_ok.mp hc'
  rw [← hagree, extensionValue_eq ho l', ht', htail]

/-! ### When the readers alone can tell

The converse is about the readers, and these keep to themselves whether the search has stopped with a
value they cannot read. A search that is not settled comes to a place where any value can be put in,
or to a value that tbsCertificate cuts off (`settled_or_open_or_cutOff`). In the first case the tail
completes a value that can be read; the second is what `readers_agree_iff` excludes. -/

/-- The search for `oid` goes on until it has come to the end `u` of `t`. -/
def ComesTo (oid t u : Bytes) : Prop :=
  ∃ pre, t = pre ++ u ∧ ∀ j < pre.length, Skipped (extensionTurn oid) (pre.drop j ++ u)

/-- `t` ends within the value of an extension, and the search for its OID comes to that place: none
before it concludes the search, and `t` ends within none of them. -/
def CutOffTbs (t : Bytes) : Prop :=
  ∃ oid ∈ extensionOids, ∃ k, EndsInValue oid (t.drop k) ∧
    ∀ j < k, ¬ Conclusive oid (t.drop j) ∧ ¬ EndsWithin oid (t.drop j)

/-- A search that is settled does not come to a value that is cut off. -/
theorem SettledTbs.not_cutOff {t : Bytes} (h : SettledTbs t) : ¬ CutOffTbs t := by
  rintro ⟨oid, ho, k', hcut, hearlier⟩
  obtain ⟨k, hstop, hends⟩ := h.2 oid ho
  rcases Nat.lt_trichotomy k k' with hlt | rfl | hgt
  · exact (hearlier k hlt).1 hstop
  · exact hstop.decided.not_free hcut.free
  · exact hends k' hgt (.inr hcut)

/-- A search is settled, comes to a place where any value can be put in, or comes to a value that is
cut off. -/
theorem settled_or_open_or_cutOff {oid : Bytes} (ho : oid ∈ extensionOids) (t : Bytes) :
    Settled (extensionTurn oid) t ∨
      (∃ u, ComesTo oid t u ∧ Open (extensionTurn oid) ShortValue u) ∨ CutOffTbs t := by
  rcases skipped_or_first (extensionTurn oid) t with hall | ⟨pre, u, rfl, -, hskip, hu⟩
  · right; left
    have hends : EndsBeforeValue oid [] := ⟨[], .inl rfl, List.nil_prefix⟩
    refine ⟨[], ⟨t, (List.append_nil t).symm, ?_⟩, hends.open⟩
    intro j hj
    rw [List.append_nil]
    exact hall j hj
  · rcases extension_cases oid u with hstop | (hbefore | hin) | h
    · exact .inl ⟨pre, u, rfl, hskip, hstop.decided⟩
    · exact .inr (.inl ⟨u, ⟨pre, rfl, hskip⟩, hbefore.open⟩)
    · refine .inr (.inr ⟨oid, ho, pre.length, by rwa [List.drop_left], ?_⟩)
      intro j hj
      rw [List.drop_append_of_le_length hj.le]
      exact ⟨fun hstop => hstop.decided.not_skipped (hskip j hj),
        fun hends => hends.free.not_skipped (hskip j hj)⟩
    · exact absurd h hu

/-- A value that the reader behind each search reads. -/
def readableValue (oid : Bytes) : Bytes :=
  if oid = oidSubjectAltName then [0x30, 0x02, 0x88, 0x00]
  else if oid = oidAuthorityKeyIdentifier then [0x30, 0x02, 0x80, 0x00]
  else if oid = oidSubjectKeyIdentifier then [0x04, 0x00]
  else [0x30, 0x00]

/-- What a tail makes the search stop with is the extension value. -/
theorem extensionValue_of_comesTo {c : Certificate E} {oid tbs u tail v : Bytes}
    (ho : oid ∈ extensionOids) (l : Layout c.der) (htbs : l.tbsTlv = tbs)
    (htail : l.after ++ l.trailing = tail) (hcomes : ComesTo oid tbs u)
    (hdone : extensionTurn oid (u ++ tail) = .done (some v)) : c.extensionValue oid = some v := by
  obtain ⟨pre, rfl, hskip⟩ := hcomes
  rw [extensionValue_eq ho l, htbs, htail]
  exact scan_append_of_done (bounded_atPattern rfl) hskip hdone

/-- Where a search comes to a place where any value can be put in, the readers can tell two
certificates apart. -/
theorem not_signedOnly_of_open (webpki : Bytes → Bool) (c : Certificate E) (l : Layout c.der)
    {oid u : Bytes} (ho : oid ∈ extensionOids) (hcomes : ComesTo oid l.tbsTlv u)
    (hopen : Open (extensionTurn oid) ShortValue u) : ¬ ReadersSignedOnly E webpki l.tbsTlv := by
  intro h
  have hshort : ShortValue (readableValue oid) := by
    unfold ShortValue readableValue
    split
    · decide
    · split
      · decide
      · split <;> decide
  -- One tail puts in an empty value, which no reader reads, the other one that its reader reads.
  obtain ⟨tail₁, hdone₁⟩ := hopen [] (Nat.zero_le _)
  obtain ⟨tail₂, hdone₂⟩ := hopen (readableValue oid) hshort
  obtain ⟨d₁, c₁, l₁, hc₁, ht₁, htail₁⟩ := exists_certificate_with_tail webpki c l tail₁
  obtain ⟨d₂, c₂, l₂, hc₂, ht₂, htail₂⟩ := exists_certificate_with_tail webpki c l tail₂
  have hagree := h d₁ d₂ c₁ c₂ hc₁ hc₂ l₁ l₂ ht₁ ht₂
  obtain ⟨rfl, -⟩ := Certificate.fromDer_eq_ok.mp hc₁
  obtain ⟨rfl, -⟩ := Certificate.fromDer_eq_ok.mp hc₂
  have hv₁ := extensionValue_of_comesTo ho l₁ ht₁ htail₁ hcomes hdone₁
  have hv₂ := extensionValue_of_comesTo ho l₂ ht₂ htail₂ hcomes hdone₂
  simp only [extensionOids, List.mem_cons, List.not_mem_nil, or_false] at ho
  rcases ho with rfl | rfl | rfl | rfl
  · have := hagree.subjectAltName
    rw [Certificate.subjectAltName, Certificate.subjectAltName, hv₁, hv₂] at this
    exact absurd this (by decide)
  · have := hagree.subjectKeyIdentifier
    rw [Certificate.subjectKeyIdentifier, Certificate.subjectKeyIdentifier, hv₁, hv₂] at this
    exact absurd this (by decide)
  · have := hagree.authorityKeyIdentifier
    rw [Certificate.authorityKeyIdentifier, Certificate.authorityKeyIdentifier, hv₁, hv₂] at this
    exact absurd this (by decide)
  · have := hagree.certificatePolicies
    rw [Certificate.certificatePolicies, Certificate.certificatePolicies, hv₁, hv₂] at this
    exact absurd this (by decide)

/-- **Only signed content is read.** The readers depend on nothing but the tbsCertificate of an
accepted certificate exactly when the five searches are settled in it, as long as it does not end
within a value that one of them comes to; and readers and extension values together do so exactly
when the searches are settled, in any case. -/
theorem readers_agree_iff {webpki : Bytes → Bool} {der : Bytes} {c : Certificate E}
    (hc : Certificate.fromDer webpki der = .ok c) :
    ∃ l : Layout der,
      (¬ CutOffTbs l.tbsTlv → (ReadersSignedOnly E webpki l.tbsTlv ↔ SettledTbs l.tbsTlv)) ∧
      (ReadersSignedOnly E webpki l.tbsTlv ∧ ValuesSignedOnly E webpki l.tbsTlv ↔
        SettledTbs l.tbsTlv) := by
  obtain ⟨rfl, -⟩ := Certificate.fromDer_eq_ok.mp hc
  obtain ⟨l, -⟩ := c.exists_layout
  refine ⟨l, ?_, ?_⟩
  · intro hcut
    constructor
    · intro h
      refine settledTbs_iff.mpr ⟨serial_settled_of_signedOnly c l h, ?_⟩
      intro oid ho
      rcases settled_or_open_or_cutOff ho l.tbsTlv with hs | ⟨u, hcomes, hopen⟩ | h'
      · exact hs
      · exact absurd h (not_signedOnly_of_open webpki c l ho hcomes hopen)
      · exact absurd h' hcut
    · intro h
      exact h.signedOnly.1
  · constructor
    · rintro ⟨hreaders, hvalues⟩
      exact settledTbs_iff.mpr ⟨serial_settled_of_signedOnly c l hreaders,
        fun oid ho => extension_settled_of_signedOnly c l hvalues ho⟩
    · exact SettledTbs.signedOnly

/-! ### A certificate that is settled, and one that is not

In `fullCertificate` all five searches stop in tbsCertificate. The certificate of
`unsigned_role_accepted` has no extensions, so that the search for its policies goes on into the
parameters of the signature algorithm, which nobody has signed. -/

/-- An extension without `critical`. -/
def extension (oid value : Bytes) : Bytes := encode 0x30 (oid ++ encode 0x04 value)

/-- The value of a `certificatePolicies` extension with one policy. -/
def policiesValue (role : Bytes) : Bytes := encode 0x30 (encode 0x30 (encode 0x06 role))

/-- A certificate with a subject serial number and the four extensions. -/
def fullFields : CertFields :=
  { serverFields with
    subject := [encode 0x30 (oidSerialNumber ++ encode 0x13 "89049032".toUTF8.toList)]
    trailing := [(0xa3, encode 0x30
      (extension oidSubjectAltName (encode 0x30 (encode 0x88 [0x83, 0x37, 0x81, 0x67])) ++
        extension oidSubjectKeyIdentifier (encode 0x04 [0x01, 0x02, 0x03, 0x04]) ++
        extension oidAuthorityKeyIdentifier (encode 0x30 (encode 0x80 [0x05, 0x06, 0x07, 0x08])) ++
        extension oidCertificatePolicies (policiesValue oidRspRoleDpAuth)))] }

/-- What `fullFields` is parsed into. -/
def fullCertificate : Certificate (.ofTable []) :=
  ⟨fullFields.encode, { curve := .p256, point := serverPoint }, false, by decide +kernel⟩

theorem fromDer_full :
    Certificate.fromDer (fun _ => false) fullFields.encode = .ok fullCertificate :=
  Certificate.fromDer_eq_ok.mpr ⟨rfl, rfl⟩

def fullTbs : Bytes := encode 0x30 (encodeAll fullFields.members)

theorem settledTbs_full : SettledTbs fullTbs := by
  have hext : ∀ (oid v : Bytes) (k : Nat), v.length ≤ 0x7F →
      oid ++ ([] ++ encode 0x04 v) <+: fullTbs.drop k →
      (∀ t ∈ fullTbs.tails, (¬ oid <+: t ∧ ¬ t <+: oid) ∨ t.length + k ≤ fullTbs.length) →
        ∃ k, Conclusive oid (fullTbs.drop k) ∧ ∀ j < k, ¬ EndsWithin oid (fullTbs.drop j) := by
    intro oid v k hv hvalue hbefore
    refine ⟨k, .inl ⟨v, hv, [], .inl rfl, hvalue⟩, ?_⟩
    intro j hj hends
    have hnot := forall_lt_drop hbefore j hj
    rcases hends.prefix_or_prefix with h | h
    · exact hnot.1 h
    · exact hnot.2 h
  constructor
  · refine ⟨71, ⟨"89049032".toUTF8.toList, by decide +kernel, _, ⟨0x13, .inl rfl, rfl⟩,
      by decide +kernel⟩, ?_⟩
    -- Too much is left for an attribute that does not end.
    rintro j hj ⟨_, v, hv, ⟨tag, -, rfl⟩, hprefix, -⟩
    have hle := hprefix.length_le
    have hlen : fullTbs.length = 255 := by decide +kernel
    rw [List.length_drop, hlen, List.length_append, encode_of_lt (Nat.lt_succ_of_le hv),
      List.length_cons, List.length_cons] at hle
    have hoid : oidSerialNumber.length = 5 := rfl
    omega
  · intro oid ho
    simp only [extensionOids, List.mem_cons, List.not_mem_nil, or_false] at ho
    rcases ho with rfl | rfl | rfl | rfl
    · exact hext _ (encode 0x30 (encode 0x88 [0x83, 0x37, 0x81, 0x67])) 183 (by decide)
        (by decide +kernel) (by decide +kernel)
    · exact hext _ (encode 0x04 [0x01, 0x02, 0x03, 0x04]) 200 (by decide) (by decide +kernel)
        (by decide +kernel)
    · exact hext _ (encode 0x30 (encode 0x80 [0x05, 0x06, 0x07, 0x08])) 215 (by decide)
        (by decide +kernel) (by decide +kernel)
    · exact hext _ (policiesValue oidRspRoleDpAuth) 232 (by decide) (by decide +kernel)
        (by decide +kernel)

theorem readers_agree_iff_full :
    ∃ l : Layout fullFields.encode, l.tbsTlv = fullTbs ∧ ¬ CutOffTbs l.tbsTlv ∧
      ReadersSignedOnly (.ofTable []) (fun _ => false) l.tbsTlv := by
  obtain ⟨l, hl, -⟩ := readers_agree_iff fromDer_full
  have htbs : l.tbsTlv = fullTbs := by
    rw [Subsingleton.elim l (fullFields.layout (by decide +kernel))]
    rfl
  have hsettled : SettledTbs l.tbsTlv := htbs ▸ settledTbs_full
  exact ⟨l, htbs, hsettled.not_cutOff, (hl hsettled.not_cutOff).mpr hsettled⟩

/-- The certificate of `serverDer` with a `certificatePolicies` extension among the parameters of
its signature algorithm. -/
def unsignedRoleDer : Bytes :=
  certificateDer serverFields.members
    (encode 0x30 (encode 0x06 serverFields.signatureOid ++
        extension oidCertificatePolicies (policiesValue oidRspRoleDpAuth)) ++
      encode 0x03 (0x00 :: serverSignature))

/-- Two certificates with one tbsCertificate, both with the issuer's genuine signature. One has no
role, the other takes a server role from outside the signed part. -/
theorem unsigned_role_accepted : ∃ c₁ c₂ : Certificate serverLib,
    Certificate.fromDer (fun _ => false) serverDer = .ok c₁ ∧
      Certificate.fromDer (fun _ => false) unsignedRoleDer = .ok c₂ ∧
      (∀ (l₁ : Layout serverDer) (l₂ : Layout unsignedRoleDer), l₁.tbsTlv = l₂.tbsTlv) ∧
      c₁.verifySignedByKey issuerKey = .ok () ∧ c₂.verifySignedByKey issuerKey = .ok () ∧
      c₁.isServerCertificateRole = none ∧ c₂.isServerCertificateRole = some true := by
  refine ⟨⟨serverDer, { curve := .p256, point := serverPoint }, false, by decide +kernel⟩,
    ⟨unsignedRoleDer, { curve := .p256, point := serverPoint }, false, by decide +kernel⟩,
    Certificate.fromDer_eq_ok.mpr ⟨rfl, rfl⟩, Certificate.fromDer_eq_ok.mpr ⟨rfl, rfl⟩,
    fun l₁ l₂ => ?_, by decide +kernel, by decide +kernel, by decide +kernel, by decide +kernel⟩
  rw [Subsingleton.elim l₁ (.ofMembers serverFields.members _ [] (by decide +kernel)
    (List.append_nil _).symm), Subsingleton.elim l₂ (.ofMembers serverFields.members _ []
    (by decide +kernel) (List.append_nil _).symm)]
  rfl

end X509
end EuiccCrypto
