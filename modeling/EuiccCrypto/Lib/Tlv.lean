import EuiccCrypto.Lib.Octets

/-!
# Tag-length-value encodings

The framing DER, BER and their relatives share: a one-octet identifier, a definite length and
as many content octets as the length says. Encodings are described by relations, so that a
reader can be specified without choosing how it walks its input:

* `LengthOctets n os` says that `os` is an accepted spelling of the length `n` (short form, or
  long form in at most four octets with no leading zero);
* `IsTlv tag val b` says that `b` is one element and nothing more;
* `TlvSeq fs b` says that `b` is the elements `fs` one after another;
* `ContentAt b fs k tag val` says where in `b` the content `val` of an element lies.

The first three are prefix-free: what follows an encoding never changes how it is split off. The
functions `lengthOctets` and `encode` pick the shortest spelling, and `ShortView` is what a reader
of the short form can come across.
-/

namespace Tlv

open Octets

/-! ### Lengths -/

/-- The octets that spell a definite length. The long form has a marker `0x80 + k` and then
`k` octets, `1 ≤ k ≤ 4`, the first of which is not zero. -/
inductive LengthOctets : Nat → Bytes → Prop
  | short {b : UInt8} : b.toNat < 0x80 → LengthOctets b.toNat [b]
  | long {m d : UInt8} {ds : Bytes} : m.toNat = 0x81 + ds.length → ds.length ≤ 3 → d ≠ 0 →
      LengthOctets (beValue (d :: ds)) (m :: d :: ds)

theorem LengthOctets.ne_nil {n : Nat} {os : Bytes} (h : LengthOctets n os) : os ≠ [] := by
  cases h <;> simp

theorem LengthOctets.length_pos {n : Nat} {os : Bytes} (h : LengthOctets n os) :
    0 < os.length :=
  List.length_pos_iff.mpr h.ne_nil

theorem LengthOctets.length_le {n : Nat} {os : Bytes} (h : LengthOctets n os) :
    os.length ≤ 5 := by
  cases h with
  | short _ => simp
  | long _ hds _ => simp only [List.length_cons]; omega

theorem LengthOctets.lt {n : Nat} {os : Bytes} (h : LengthOctets n os) : n < 2 ^ 32 := by
  cases h with
  | short hb => omega
  | @long m d ds _ hds _ =>
      have hlt := beValue_lt (d :: ds)
      have hpow : (256 : Nat) ^ (d :: ds).length ≤ 256 ^ 4 :=
        Nat.pow_le_pow_right (by omega) (Nat.succ_le_succ hds)
      omega

/-- One octet is the short form. -/
theorem LengthOctets.lt_of_length_eq_one {n : Nat} {os : Bytes} (h : LengthOctets n os)
    (hone : os.length = 1) : n < 0x80 := by
  cases h with
  | short hb => exact hb
  | long _ _ _ => simp at hone

/-- Length octets are self-delimiting. -/
theorem LengthOctets.append_inj {n n' : Nat} {os os' r r' : Bytes} (h : LengthOctets n os)
    (h' : LengthOctets n' os') (heq : os ++ r = os' ++ r') : n = n' ∧ os = os' ∧ r = r' := by
  cases h with
  | short hb =>
      cases h' with
      | short _ =>
          simp only [List.cons_append, List.nil_append, List.cons.injEq] at heq
          obtain ⟨rfl, rfl⟩ := heq
          exact ⟨rfl, rfl, rfl⟩
      | long hm _ _ =>
          -- A short form stays below `0x80`, a marker does not.
          simp only [List.cons_append, List.cons.injEq] at heq
          have := congrArg UInt8.toNat heq.1
          omega
  | long hm _ _ =>
      cases h' with
      | short _ =>
          simp only [List.cons_append, List.cons.injEq] at heq
          have := congrArg UInt8.toNat heq.1
          omega
      | long hm' _ _ =>
          simp only [List.cons_append, List.cons.injEq] at heq
          obtain ⟨hmm, hdd, hrest⟩ := heq
          -- Equal markers announce equally many octets.
          have hlen := congrArg UInt8.toNat hmm
          obtain ⟨hds, hr⟩ := List.append_inj hrest (by omega)
          subst hmm hdd hds hr
          exact ⟨rfl, rfl, rfl⟩

/-- The shortest spelling of a length. -/
def lengthOctets (n : Nat) : Bytes :=
  if n < 0x80 then [UInt8.ofNat n]
  else UInt8.ofNat (0x80 + (beOctets n).length) :: beOctets n

theorem lengthOctets_of_lt {n : Nat} (h : n < 0x80) : lengthOctets n = [UInt8.ofNat n] := by
  simp [lengthOctets, h]

/-- The shortest spelling is one of the accepted ones, for every length four octets can hold. -/
theorem lengthOctets_spec {n : Nat} (h : n < 2 ^ 32) : LengthOctets n (lengthOctets n) := by
  rw [lengthOctets]
  split
  · next hlt =>
      have hn : (UInt8.ofNat n).toNat = n := by simp; omega
      simpa [hn] using LengthOctets.short (b := UInt8.ofNat n) (by rw [hn]; exact hlt)
  · next hge =>
      have hlen : (beOctets n).length ≤ 4 := length_beOctets_le (by omega)
      cases hd : beOctets n with
      | nil => exact absurd hd (beOctets_ne_nil (by omega))
      | cons d ds =>
          rw [hd] at hlen
          simp only [List.length_cons] at hlen
          have hval : beValue (d :: ds) = n := by rw [← hd, beValue_beOctets]
          have hm : (UInt8.ofNat (0x80 + (d :: ds).length)).toNat = 0x81 + ds.length := by
            simp; omega
          simpa [hval] using
            LengthOctets.long (m := UInt8.ofNat (0x80 + (d :: ds).length)) hm
              (by omega) (head_beOctets_ne_zero hd)

/-- A spelling is the shortest one, unless it is the long form of a length that has a short form. -/
theorem LengthOctets.eq_lengthOctets {n : Nat} {os : Bytes} (h : LengthOctets n os)
    (hlong : os.length = 2 → 0x80 ≤ n) : os = lengthOctets n := by
  cases h with
  | short hb => rw [lengthOctets_of_lt hb, UInt8.ofNat_toNat]
  | @long m d ds hm hds hd =>
      have hge : 0x80 ≤ beValue (d :: ds) := by
        cases ds with
        | nil => exact hlong rfl
        | cons e ds =>
            -- Two octets of which the first is not zero are worth 256 at least.
            have hpos : 0 < d.toNat := UInt8.pos_iff_ne_zero.mpr hd
            have hpow : 256 ^ 1 ≤ 256 ^ (e :: ds).length := Nat.pow_le_pow_right (by omega) (by simp)
            have hmul := Nat.mul_le_mul hpos hpow
            rw [beValue_cons]
            omega
      have hmark : UInt8.ofNat (0x80 + (d :: ds).length) = m := by
        rw [← UInt8.toNat_inj, hm, UInt8.toNat_ofNat_of_lt' (by simp [UInt8.size]; omega)]
        simp only [List.length_cons]
        omega
      rw [lengthOctets, if_neg (by omega), beOctets_beValue ds hd, hmark]

/-! ### Elements -/

/-- The octets in front of the content of an element: identifier and length. -/
def IsHeader (tag : UInt8) (n : Nat) (hdr : Bytes) : Prop :=
  ∃ os, LengthOctets n os ∧ hdr = tag :: os

/-- `b` is exactly one element with identifier `tag` and content `val`. -/
def IsTlv (tag : UInt8) (val b : Bytes) : Prop :=
  ∃ hdr, IsHeader tag val.length hdr ∧ b = hdr ++ val

theorem IsHeader.length_le {tag : UInt8} {n : Nat} {hdr : Bytes} (h : IsHeader tag n hdr) :
    hdr.length ≤ 6 := by
  obtain ⟨os, hos, rfl⟩ := h
  exact Nat.succ_le_succ hos.length_le

theorem IsHeader.two_le_length {tag : UInt8} {n : Nat} {hdr : Bytes} (h : IsHeader tag n hdr) :
    2 ≤ hdr.length := by
  obtain ⟨os, hos, rfl⟩ := h
  exact Nat.succ_le_succ hos.length_pos

theorem IsHeader.ne_nil {tag : UInt8} {n : Nat} {hdr : Bytes} (h : IsHeader tag n hdr) :
    hdr ≠ [] := by
  obtain ⟨os, -, rfl⟩ := h
  simp

/-- Headers are self-delimiting. -/
theorem IsHeader.append_inj {tag tag' : UInt8} {n n' : Nat} {hdr hdr' r r' : Bytes}
    (h : IsHeader tag n hdr) (h' : IsHeader tag' n' hdr') (heq : hdr ++ r = hdr' ++ r') :
    tag = tag' ∧ n = n' ∧ hdr = hdr' ∧ r = r' := by
  obtain ⟨os, hos, rfl⟩ := h
  obtain ⟨os', hos', rfl⟩ := h'
  simp only [List.cons_append, List.cons.injEq] at heq
  obtain ⟨rfl, hrest⟩ := heq
  obtain ⟨rfl, rfl, rfl⟩ := hos.append_inj hos' hrest
  exact ⟨rfl, rfl, rfl, rfl⟩

theorem IsTlv.length_lt {tag : UInt8} {val b : Bytes} (h : IsTlv tag val b) :
    val.length < b.length := by
  obtain ⟨hdr, hh, rfl⟩ := h
  have := hh.two_le_length
  simp
  omega

theorem IsTlv.two_le_length {tag : UInt8} {val b : Bytes} (h : IsTlv tag val b) :
    2 ≤ b.length := by
  obtain ⟨hdr, hh, rfl⟩ := h
  have := hh.two_le_length
  simp
  omega

theorem IsTlv.ne_nil {tag : UInt8} {val b : Bytes} (h : IsTlv tag val b) : b ≠ [] :=
  List.length_pos_iff.mp (Nat.lt_of_lt_of_le (by omega) h.two_le_length)

/-- An element starts with its identifier. -/
theorem IsTlv.exists_cons {tag : UInt8} {val b : Bytes} (h : IsTlv tag val b) :
    ∃ r, b = tag :: r := by
  obtain ⟨_, ⟨os, -, rfl⟩, rfl⟩ := h
  exact ⟨os ++ val, rfl⟩

/-- Elements are self-delimiting. -/
theorem IsTlv.append_inj {tag tag' : UInt8} {val val' b b' r r' : Bytes} (h : IsTlv tag val b)
    (h' : IsTlv tag' val' b') (heq : b ++ r = b' ++ r') :
    tag = tag' ∧ val = val' ∧ b = b' ∧ r = r' := by
  obtain ⟨hdr, hh, rfl⟩ := h
  obtain ⟨hdr', hh', rfl⟩ := h'
  simp only [List.append_assoc] at heq
  obtain ⟨rfl, hn, rfl, hrest⟩ := hh.append_inj hh' heq
  obtain ⟨rfl, rfl⟩ := List.append_inj hrest hn
  exact ⟨rfl, rfl, rfl, rfl⟩

/-- An element has one reading. -/
theorem IsTlv.unique {tag tag' : UInt8} {val val' b : Bytes} (h : IsTlv tag val b)
    (h' : IsTlv tag' val' b) : tag = tag' ∧ val = val' := by
  obtain ⟨ht, hv, -, -⟩ := h.append_inj h' (rfl : b ++ [] = b ++ [])
  exact ⟨ht, hv⟩

/-- The element with identifier `tag` and content `val`, its length spelled shortest. -/
def encode (tag : UInt8) (val : Bytes) : Bytes := tag :: (lengthOctets val.length ++ val)

theorem isTlv_encode (tag : UInt8) {val : Bytes} (h : val.length < 2 ^ 32) :
    IsTlv tag val (encode tag val) :=
  ⟨tag :: lengthOctets val.length, ⟨_, lengthOctets_spec h, rfl⟩, rfl⟩

theorem encode_of_lt {tag : UInt8} {val : Bytes} (h : val.length < 0x80) :
    encode tag val = tag :: UInt8.ofNat val.length :: val := by
  rw [encode, lengthOctets_of_lt h, List.singleton_append]

theorem length_lt_length_encode (tag : UInt8) (val : Bytes) :
    val.length < (encode tag val).length := by
  simp only [encode, List.length_cons, List.length_append]
  omega

/-! ### Elements in short form

A reader that knows the short form only looks at the identifier, at one length octet and at as
many octets as that says. `ShortView` lists what it can come across. -/

/-- What `b` is to a reader that expects an element with identifier `tag` in short form. -/
inductive ShortView (tag : UInt8) : Bytes → Prop
  | nil : ShortView tag []
  | other {b : UInt8} {rest : Bytes} : b ≠ tag → ShortView tag (b :: rest)
  | onlyTag : ShortView tag [tag]
  | long {len : UInt8} {rest : Bytes} : 0x7F < len.toNat → ShortView tag (tag :: len :: rest)
  | cutOff {len : UInt8} {val : Bytes} : len.toNat ≤ 0x7F → val.length < len.toNat →
      ShortView tag (tag :: len :: val)
  | whole {val rest : Bytes} : val.length ≤ 0x7F → ShortView tag (encode tag val ++ rest)

theorem shortView (tag : UInt8) (b : Bytes) : ShortView tag b := by
  match b with
  | [] => exact .nil
  | b :: rest =>
      by_cases hb : b = tag
      · subst hb
        match rest with
        | [] => exact .onlyTag
        | len :: val =>
            by_cases hlen : len.toNat ≤ 0x7F
            · by_cases hfits : val.length < len.toNat
              · exact .cutOff hlen hfits
              · have htake : (val.take len.toNat).length = len.toNat :=
                  List.length_take_of_le (by omega)
                have hwhole : b :: len :: val =
                    encode b (val.take len.toNat) ++ val.drop len.toNat := by
                  rw [encode_of_lt (by omega), htake, UInt8.ofNat_toNat, List.cons_append,
                    List.cons_append, List.take_append_drop]
                rw [hwhole]
                exact .whole (by omega)
            · exact .long (by omega)
      · exact .other hb

/-- Content that is cut off, completed to the length in front of it. -/
theorem encode_of_length_eq {tag len : UInt8} {val r : Bytes} (hlen : len.toNat ≤ 0x7F)
    (h : (val ++ r).length = len.toNat) : tag :: len :: (val ++ r) = encode tag (val ++ r) := by
  rw [encode_of_lt (by omega), h, UInt8.ofNat_toNat]

/-- There are two ways to complete it. -/
theorem exists_two_completions {val : Bytes} {n : Nat} (h : val.length < n) :
    ∃ r r' : Bytes, (val ++ r).length = n ∧ (val ++ r').length = n ∧ val ++ r ≠ val ++ r' := by
  refine ⟨List.replicate (n - val.length - 1) 0 ++ [0],
    List.replicate (n - val.length - 1) 0 ++ [1], ?_, ?_, ?_⟩
  · simp only [List.length_append, List.length_replicate, List.length_singleton]
    omega
  · simp only [List.length_append, List.length_replicate, List.length_singleton]
    omega
  · simp

/-! ### Sequences of elements -/

/-- `b` is the elements `fs`, each given by identifier and content, one after another. -/
inductive TlvSeq : List (UInt8 × Bytes) → Bytes → Prop
  | nil : TlvSeq [] []
  | cons {tag : UInt8} {val b rest : Bytes} {fs : List (UInt8 × Bytes)} :
      IsTlv tag val b → TlvSeq fs rest → TlvSeq ((tag, val) :: fs) (b ++ rest)

/-- A sequence of elements has one reading. -/
theorem TlvSeq.unique {fs : List (UInt8 × Bytes)} {b : Bytes} (h : TlvSeq fs b) :
    ∀ {gs : List (UInt8 × Bytes)}, TlvSeq gs b → fs = gs := by
  -- By induction on the first reading; the octets it reads are generalized, so that the second
  -- can be split too.
  induction h with
  | nil =>
      intro gs h'
      generalize hb : ([] : Bytes) = b at h'
      cases h' with
      | nil => rfl
      | cons ht _ => exact absurd (List.append_eq_nil_iff.mp hb.symm).1 ht.ne_nil
  | @cons tag val b rest fs ht _ ih =>
      intro gs h'
      generalize hb : b ++ rest = c at h'
      cases h' with
      | nil => exact absurd (List.append_eq_nil_iff.mp hb).1 ht.ne_nil
      | cons ht' hs' =>
          obtain ⟨rfl, rfl, -, rfl⟩ := ht.append_inj ht' hb
          rw [ih hs']

/-- Where the element at a given place of a sequence starts and ends. -/
theorem TlvSeq.split {fs gs : List (UInt8 × Bytes)} {tag : UInt8} {val : Bytes} :
    ∀ {b : Bytes}, TlvSeq (fs ++ (tag, val) :: gs) b →
      ∃ pre e post, b = pre ++ e ++ post ∧ TlvSeq fs pre ∧ IsTlv tag val e ∧ TlvSeq gs post := by
  induction fs with
  | nil =>
      intro b h
      cases h with
      | cons ht hs => exact ⟨[], _, _, rfl, .nil, ht, hs⟩
  | cons f fs ih =>
      intro b h
      cases h with
      | cons ht hs =>
          obtain ⟨pre, e, post, rfl, hpre, he, hpost⟩ := ih hs
          exact ⟨_, e, post, by simp, .cons ht hpre, he, hpost⟩

/-- The elements `fs` one after another, their lengths spelled shortest. -/
def encodeAll (fs : List (UInt8 × Bytes)) : Bytes := fs.flatMap fun f => encode f.1 f.2

@[simp] theorem encodeAll_nil : encodeAll [] = [] := rfl

@[simp] theorem encodeAll_cons (f : UInt8 × Bytes) (fs : List (UInt8 × Bytes)) :
    encodeAll (f :: fs) = encode f.1 f.2 ++ encodeAll fs := rfl

theorem encodeAll_append (fs gs : List (UInt8 × Bytes)) :
    encodeAll (fs ++ gs) = encodeAll fs ++ encodeAll gs := List.flatMap_append

/-- An element is shorter than the sequence it is in. -/
theorem length_lt_length_encodeAll {f : UInt8 × Bytes} {fs : List (UInt8 × Bytes)} (h : f ∈ fs) :
    f.2.length < (encodeAll fs).length := by
  induction fs with
  | nil => cases h
  | cons g fs ih =>
      rw [encodeAll_cons, List.length_append]
      rcases List.mem_cons.mp h with rfl | h
      · have := length_lt_length_encode f.1 f.2
        omega
      · have := ih h
        omega

theorem tlvSeq_encodeAll : ∀ {fs : List (UInt8 × Bytes)}, (encodeAll fs).length < 2 ^ 32 →
    TlvSeq fs (encodeAll fs)
  | [], _ => .nil
  | f :: fs, h => by
      rw [encodeAll_cons, List.length_append] at h
      have hlt := length_lt_length_encode f.1 f.2
      exact .cons (isTlv_encode f.1 (by omega)) (tlvSeq_encodeAll (by omega))

/-! ### Places in a sequence -/

/-- `val` is the content of an element of `b` with the identifier `tag`, in front of which `b` has
the elements `fs`. The content starts at offset `k`. -/
def ContentAt (b : Bytes) (fs : List (UInt8 × Bytes)) (k : Nat) (tag : UInt8) (val : Bytes) :
    Prop :=
  ∃ pre hdr post, b = pre ++ hdr ++ (val ++ post) ∧ TlvSeq fs pre ∧
    IsHeader tag val.length hdr ∧ k = (pre ++ hdr).length

section ContentAt

variable {b val : Bytes} {fs : List (UInt8 × Bytes)} {k : Nat} {tag : UInt8}

theorem ContentAt.prefix_drop (h : ContentAt b fs k tag val) : val <+: b.drop k := by
  obtain ⟨pre, hdr, post, rfl, -, -, rfl⟩ := h
  rw [List.drop_left]
  exact List.prefix_append val post

theorem ContentAt.isInfix (h : ContentAt b fs k tag val) : val <:+: b :=
  h.prefix_drop.isInfix.trans (List.drop_suffix k b).isInfix

/-- What starts at an offset of a content starts at the sum of the offsets. -/
theorem ContentAt.prefix_drop_add {c : Bytes} {j : Nat} (h : ContentAt b fs k tag val)
    (hc : c <+: val.drop j) : c <+: b.drop (k + j) := by
  rw [← List.drop_drop]
  exact hc.trans (h.prefix_drop.drop j)

/-- The content of an element in DER that comes after others. -/
theorem contentAt_append (hfs : (encodeAll fs).length < 2 ^ 32) (hval : val.length < 2 ^ 32)
    (post : Bytes) :
    ContentAt (encodeAll fs ++ (encode tag val ++ post)) fs
      ((encodeAll fs).length + (1 + (lengthOctets val.length).length)) tag val := by
  refine ⟨encodeAll fs, tag :: lengthOctets val.length, post, ?_, tlvSeq_encodeAll hfs,
    ⟨_, lengthOctets_spec hval, rfl⟩, ?_⟩
  · simp [encode]
  · rw [List.length_append, List.length_cons, Nat.add_comm 1]

end ContentAt

/-! ### Elements with other contents -/

/-- An element with another content of the same length has the same header. -/
theorem IsTlv.exists_of_length_eq {tag : UInt8} {val val' b : Bytes} (h : IsTlv tag val b)
    (hlen : val'.length = val.length) : ∃ b', IsTlv tag val' b' ∧ b'.length = b.length := by
  obtain ⟨hdr, hh, rfl⟩ := h
  refine ⟨hdr ++ val', ⟨hdr, hlen ▸ hh, rfl⟩, ?_⟩
  rw [List.length_append, List.length_append, hlen]

/-- A sequence with another content in one of its elements. -/
theorem TlvSeq.exists_set {fs : List (UInt8 × Bytes)} {b : Bytes} (h : TlvSeq fs b) {i : Nat}
    {tag : UInt8} {val val' : Bytes} (hi : fs[i]? = some (tag, val))
    (hlen : val'.length = val.length) :
    ∃ b', TlvSeq (fs.set i (tag, val')) b' ∧ b'.length = b.length := by
  induction h generalizing i with
  | nil => cases hi
  | @cons _ _ e rest fs htlv hseq ih =>
      cases i with
      | zero =>
          cases hi
          obtain ⟨e', he', hel⟩ := htlv.exists_of_length_eq hlen
          refine ⟨e' ++ rest, .cons he' hseq, ?_⟩
          rw [List.length_append, List.length_append, hel]
      | succ i =>
          obtain ⟨rest', hrest, hrl⟩ := ih hi
          refine ⟨e ++ rest', .cons htlv hrest, ?_⟩
          rw [List.length_append, List.length_append, hrl]

end Tlv
