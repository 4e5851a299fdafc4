import Mathlib.Data.Nat.Digits.Lemmas

/-!
# Octet strings and big-endian numbers

A byte string is a list of octets. `beValue` reads one as a big-endian number and
`beOctets` writes a number in the fewest octets; the two are inverse to each other as long
as no leading zero octet is involved (`beValue_beOctets`, `beOctets_beValue`). `lengthPrefixed` puts
the length of a string in front of it.
-/

namespace Octets

/-- A byte string. -/
abbrev Bytes := List UInt8

/-- The number a byte string spells, most significant octet first. -/
def beValue (bs : Bytes) : Nat := bs.foldl (fun n b => n * 256 + b.toNat) 0

/-- The shortest big-endian spelling of a number (nothing at all for `0`). -/
def beOctets (n : Nat) : Bytes := ((Nat.digits 256 n).map UInt8.ofNat).reverse

@[simp] theorem beValue_nil : beValue [] = 0 := rfl

@[simp] theorem beValue_concat (bs : Bytes) (b : UInt8) :
    beValue (bs ++ [b]) = beValue bs * 256 + b.toNat := by
  simp [beValue]

theorem beValue_cons (b : UInt8) (bs : Bytes) :
    beValue (b :: bs) = b.toNat * 256 ^ bs.length + beValue bs := by
  induction bs using List.reverseRecOn with
  | nil => simp [beValue]
  | append_singleton bs c ih =>
      rw [← List.cons_append, beValue_concat, ih, beValue_concat, List.length_append,
        List.length_singleton, Nat.pow_succ, Nat.add_mul, Nat.mul_assoc, Nat.add_assoc]

/-- `beValue` in terms of Mathlib's little-endian `Nat.ofDigits`. -/
theorem beValue_eq_ofDigits (bs : Bytes) :
    beValue bs = Nat.ofDigits 256 (bs.reverse.map UInt8.toNat) := by
  induction bs using List.reverseRecOn with
  | nil => rfl
  | append_singleton bs b ih =>
      rw [beValue_concat, ih, List.reverse_append, List.reverse_singleton, List.singleton_append,
        List.map_cons, Nat.ofDigits_cons]
      omega

theorem beValue_lt (bs : Bytes) : beValue bs < 256 ^ bs.length := by
  rw [beValue_eq_ofDigits]
  have hlt : ∀ d ∈ bs.reverse.map UInt8.toNat, d < 256 := by
    intro d hd
    obtain ⟨b, _, rfl⟩ := List.mem_map.mp hd
    exact b.toNat_lt
  simpa using Nat.ofDigits_lt_base_pow_length (by omega) hlt

private theorem map_toNat_ofNat {ds : List Nat} (h : ∀ d ∈ ds, d < 256) :
    (ds.map UInt8.ofNat).map UInt8.toNat = ds := by
  rw [List.map_map]
  refine (List.map_congr_left ?_).trans (List.map_id ds)
  intro d hd
  simpa using Nat.mod_eq_of_lt (h d hd)

@[simp] theorem beValue_beOctets (n : Nat) : beValue (beOctets n) = n := by
  rw [beValue_eq_ofDigits, beOctets, List.reverse_reverse,
    map_toNat_ofNat fun d hd => Nat.digits_lt_base (by omega) hd, Nat.ofDigits_digits]

theorem beOctets_ne_nil {n : Nat} (hn : n ≠ 0) : beOctets n ≠ [] := by
  simp [beOctets, Nat.digits_ne_nil_iff_ne_zero.mpr hn]

/-- The shortest spelling has no leading zero. -/
theorem head_beOctets_ne_zero {n : Nat} {b : UInt8} {bs : Bytes} (h : beOctets n = b :: bs) :
    b ≠ 0 := by
  have hn : n ≠ 0 := by rintro rfl; simp [beOctets] at h
  have hd : Nat.digits 256 n ≠ [] := Nat.digits_ne_nil_iff_ne_zero.mpr hn
  -- The first octet is the last digit, and that one is never zero.
  have hlast : UInt8.ofNat ((Nat.digits 256 n).getLast hd) = b := by
    have hhead := congrArg List.head? h
    simpa [beOctets, List.head?_reverse, List.getLast?_eq_some_getLast hd] using hhead
  have hlt : (Nat.digits 256 n).getLast hd < 256 :=
    Nat.digits_lt_base (by omega) (List.getLast_mem hd)
  rintro rfl
  have hz := congrArg UInt8.toNat hlast
  simp [Nat.mod_eq_of_lt hlt] at hz
  exact Nat.getLast_digit_ne_zero 256 hn hz

theorem length_beOctets_le {n k : Nat} (h : n < 256 ^ k) : (beOctets n).length ≤ k := by
  simpa [beOctets] using (Nat.digits_length_le_iff (by omega) n).mpr h

/-- A spelling without a leading zero is the shortest one. -/
theorem beOctets_beValue {b : UInt8} (bs : Bytes) (hb : b ≠ 0) :
    beOctets (beValue (b :: bs)) = b :: bs := by
  have hlt : ∀ d ∈ (b :: bs).reverse.map UInt8.toNat, d < 256 := by
    intro d hd
    obtain ⟨c, _, rfl⟩ := List.mem_map.mp hd
    exact c.toNat_lt
  have hlast : ∀ h : (b :: bs).reverse.map UInt8.toNat ≠ [],
      ((b :: bs).reverse.map UInt8.toNat).getLast h ≠ 0 := by
    intro h
    simpa using fun h0 => hb (UInt8.toNat_inj.mp (by simpa using h0))
  rw [beOctets, beValue_eq_ofDigits, Nat.digits_ofDigits 256 (by omega) _ hlt hlast, List.map_map]
  have hid : UInt8.ofNat ∘ UInt8.toNat = id := funext fun _ => UInt8.ofNat_toNat
  rw [hid, List.map_id, List.reverse_reverse]

/-! ### Length prefixes -/

/-- A string of at most 255 octets with its length in front. -/
def lengthPrefixed (b : Bytes) : Bytes := UInt8.ofNat b.length :: b

/-- Whatever a string holds, where it ends can be told from its length prefix. -/
theorem lengthPrefixed_append_inj {a b r s : Bytes} (ha : a.length ≤ 255) (hb : b.length ≤ 255)
    (h : lengthPrefixed a ++ r = lengthPrefixed b ++ s) : a = b ∧ r = s := by
  simp only [lengthPrefixed, List.cons_append, List.cons.injEq] at h
  have hlen := congrArg UInt8.toNat h.1
  rw [UInt8.toNat_ofNat_of_lt' (Nat.lt_succ_of_le ha),
    UInt8.toNat_ofNat_of_lt' (Nat.lt_succ_of_le hb)] at hlen
  exact List.append_inj h.2 hlen

/-! ### Byte arrays -/

theorem toList_loop_eq (bs : ByteArray) (i : Nat) (r : Bytes) :
    ByteArray.toList.loop bs i r = r.reverse ++ bs.data.toList.drop i := by
  fun_induction ByteArray.toList.loop bs i r with
  | case1 i r hi ih =>
      have hlen : i < bs.data.toList.length := by simpa using hi
      have hget : bs.get! i = bs.data.toList[i] := by
        rw [Array.getElem_toList]
        exact getElem!_pos bs.data i hi
      rw [ih, List.reverse_cons, List.append_assoc, List.drop_eq_getElem_cons hlen, hget]
      rfl
  | case2 i r hi =>
      have hlen : bs.data.toList.length ≤ i := by simpa using hi
      rw [List.drop_eq_nil_of_le hlen, List.append_nil]

theorem byteArray_toList_eq (bs : ByteArray) : bs.toList = bs.data.toList := by
  rw [ByteArray.toList, toList_loop_eq]
  rfl

theorem length_byteArray_toList (bs : ByteArray) : bs.toList.length = bs.size := by
  rw [byteArray_toList_eq, Array.length_toList]
  rfl

theorem byteArray_toList_inj {bs bs' : ByteArray} (h : bs.toList = bs'.toList) : bs = bs' := by
  rw [byteArray_toList_eq, byteArray_toList_eq] at h
  exact ByteArray.ext (Array.toList_inj.mp h)

end Octets
