import EuiccCrypto.Lib.Tlv

/-!
# Distinguished encodings

What the distinguished rules ask of an encoding beyond being readable: that lengths are spelled
shortest (`IsShortest`) and that the content of an INTEGER is (`IsMinimalInteger`).

A `Tree` is a value to be encoded, down to contents that are octets. `Tree.write len` writes one
with the length octets `len` gives, and `Tree.lengthsShortest_of_length_le` says that all the
lengths in it are spelled shortest when `len` does so up to the length of the whole.
-/

namespace Tlv

open Octets

/-! ### Lengths -/

/-- The octets that spell a definite length under the basic rules: in the long form any number of
octets may follow the marker, and zeros may lead. -/
inductive SpellsLength : Nat → Bytes → Prop
  | short {b : UInt8} : b.toNat < 0x80 → SpellsLength b.toNat [b]
  | long {m : UInt8} {ds : Bytes} : m.toNat = 0x80 + ds.length → ds ≠ [] → m ≠ 0xff →
      SpellsLength (beValue ds) (m :: ds)

/-- `os` spells the length `n`, and nothing shorter does. -/
def IsShortest (n : Nat) (os : Bytes) : Prop :=
  SpellsLength n os ∧ ∀ os', SpellsLength n os' → os.length ≤ os'.length

theorem LengthOctets.spellsLength {n : Nat} {os : Bytes} (h : LengthOctets n os) :
    SpellsLength n os := by
  cases h with
  | short hb => exact .short hb
  | @long m d ds hm hds _ =>
      apply SpellsLength.long
      · rw [hm, List.length_cons]
        omega
      · simp
      · rintro rfl
        simp at hm
        omega

theorem isShortest_lengthOctets {n : Nat} (h : n < 2 ^ 32) : IsShortest n (lengthOctets n) := by
  refine ⟨(lengthOctets_spec h).spellsLength, ?_⟩
  intro os hos
  rw [lengthOctets]
  split
  · cases hos with
    | short _ => simp
    | long _ _ _ => simp
  · next hge =>
      cases hos with
      | short hb => exact absurd hb hge
      | @long m ds _ _ _ =>
          rw [List.length_cons, List.length_cons]
          exact Nat.succ_le_succ (length_beOctets_le (beValue_lt ds))

/-- Of the spellings with at most four octets behind the marker, the shortest have no leading zero.
-/
theorem IsShortest.lengthOctets {n : Nat} {os : Bytes} (h : IsShortest n os)
    (hlen : os.length ≤ 5) : LengthOctets n os := by
  obtain ⟨hspells, hleast⟩ := h
  cases hspells with
  | short hb => exact .short hb
  | @long m ds hm hne _ =>
      cases ds with
      | nil => exact absurd rfl hne
      | cons d ds =>
          simp only [List.length_cons] at hm hlen
          by_cases hd : d = 0
          · subst hd
            have hvalue : beValue (0 :: ds) = beValue ds := by simp [beValue_cons]
            -- Without the zero, and in the short form if nothing else is there, it is shorter.
            obtain ⟨os', hos', hlt⟩ : ∃ os', SpellsLength (beValue ds) os' ∧
                os'.length < (m :: 0 :: ds).length := by
              cases ds with
              | nil => exact ⟨[0], SpellsLength.short (b := 0) (by decide), by simp⟩
              | cons e ds =>
                  simp only [List.length_cons] at hm hlen
                  have hm' : (UInt8.ofNat (0x80 + (e :: ds).length)).toNat =
                      0x80 + (e :: ds).length :=
                    UInt8.toNat_ofNat_of_lt' (by simp [UInt8.size]; omega)
                  refine ⟨_, .long hm' (by simp) ?_, by simp⟩
                  intro hff
                  rw [hff] at hm'
                  simp at hm'
                  omega
            rw [hvalue] at hleast
            exact absurd (hleast os' hos') (by omega)
          · exact .long (by omega) (by omega) hd

/-- An accepted spelling is the shortest one, unless it is the long form of a length that has a
short form. -/
theorem LengthOctets.isShortest_iff {n : Nat} {os : Bytes} (h : LengthOctets n os) :
    IsShortest n os ↔ (os.length = 2 → 0x80 ≤ n) := by
  constructor
  · rintro ⟨-, hleast⟩ hlen
    by_contra hlt
    have hn : (UInt8.ofNat n).toNat = n := UInt8.toNat_ofNat_of_lt' (by simp [UInt8.size]; omega)
    have hshort : SpellsLength n [UInt8.ofNat n] := by
      have hspells := SpellsLength.short (b := UInt8.ofNat n) (by omega)
      rwa [hn] at hspells
    have hle := hleast _ hshort
    rw [List.length_singleton] at hle
    omega
  · intro hlong
    rw [h.eq_lengthOctets hlong]
    exact isShortest_lengthOctets h.lt

/-! ### Contents of INTEGER -/

/-- The number the content of an INTEGER stands for, in two's complement. -/
def integerValue (bs : Bytes) : Int :=
  if (bs.headD 0).toNat < 0x80 then beValue bs else beValue bs - 256 ^ bs.length

/-- The first nine bits are not all zeros and not all ones, so that no octet can be left out. -/
def IsMinimalInteger (bs : Bytes) : Prop :=
  bs ≠ [] ∧ ∀ a b rest, bs = a :: b :: rest →
    ¬ (a = 0x00 ∧ b.toNat < 0x80) ∧ ¬ (a = 0xFF ∧ 0x80 ≤ b.toNat)

theorem isMinimalInteger_cons {a b : UInt8} {rest : Bytes} :
    IsMinimalInteger (a :: b :: rest) ↔
      ¬ (a = 0x00 ∧ b.toNat < 0x80) ∧ ¬ (a = 0xFF ∧ 0x80 ≤ b.toNat) := by
  constructor
  · intro h
    exact h.2 a b rest rfl
  · intro h
    refine ⟨by simp, ?_⟩
    rintro _ _ _ ⟨⟩
    exact h

/-- An octet in front that is not zero makes a number positive. -/
theorem beValue_pos_of_cons {a : UInt8} (bs : Bytes) (h : a ≠ 0) : 0 < beValue (a :: bs) := by
  have ha : 0 < a.toNat := by
    by_contra h0
    exact h (UInt8.toNat_inj.mp (by simpa using h0))
  have hpow : 0 < 256 ^ bs.length := Nat.pow_pos (by decide)
  rw [beValue_cons]
  exact Nat.add_pos_left (Nat.mul_pos ha hpow) _

/-- When two octets and more are the shortest content of a positive number. -/
theorem isMinimalInteger_and_pos_iff {a b : UInt8} {rest : Bytes} (ha : a.toNat < 0x80) :
    IsMinimalInteger (a :: b :: rest) ∧ 0 < integerValue (a :: b :: rest) ↔
      a ≠ 0x00 ∨ 0x80 ≤ b.toNat := by
  have hvalue : integerValue (a :: b :: rest) = beValue (a :: b :: rest) := if_pos ha
  have hff : a ≠ 0xFF := by
    rintro rfl
    simp at ha
  rw [isMinimalInteger_cons, hvalue]
  constructor
  · rintro ⟨⟨hmin, -⟩, -⟩
    by_contra hcon
    rw [not_or, not_not] at hcon
    exact hmin ⟨hcon.1, by omega⟩
  · intro h
    refine ⟨⟨?_, fun h' => hff h'.1⟩, ?_⟩
    · rintro ⟨ha0, hb⟩
      rcases h with h | h
      · exact h ha0
      · omega
    · -- Of the first two octets one is not zero.
      by_cases ha0 : a = 0x00
      · have hb : b ≠ 0x00 := by
          rintro rfl
          rcases h with h | h
          · exact h ha0
          · simp at h
        subst ha0
        have hpos := beValue_pos_of_cons rest hb
        rw [beValue_cons]
        simpa using hpos
      · exact_mod_cast beValue_pos_of_cons (b :: rest) ha0

/-! ### Trees of elements -/

/-- An element: its identifier, and either octets or elements as content. An OCTET STRING around an
encoding has elements as content too. -/
inductive Tree
  | primitive (tag : UInt8) (content : Bytes)
  | constructed (tag : UInt8) (elements : List Tree)

namespace Tree

section Write

variable (len : Nat → Bytes)

mutual

/-- The element, the lengths in it spelled by `len`. -/
def write : Tree → Bytes
  | .primitive tag octets => tag :: (len octets.length ++ octets)
  | .constructed tag elements =>
    tag :: (len (writeAll elements).length ++ writeAll elements)

/-- The elements one after another. -/
def writeAll : List Tree → Bytes
  | [] => []
  | t :: ts => t.write ++ writeAll ts

end

/-- The content octets of the element. -/
def content : Tree → Bytes
  | .primitive _ octets => octets
  | .constructed _ elements => writeAll len elements

end Write

/-- `s` is an element somewhere in `t`, or `t` itself. -/
inductive Within (s : Tree) : Tree → Prop
  | self : Within s s
  | inside {c : Tree} {tag : UInt8} {elements : List Tree} :
      c ∈ elements → Within s c → Within s (.constructed tag elements)

/-- Every length in the element is spelled shortest. -/
def LengthsShortest (len : Nat → Bytes) (t : Tree) : Prop :=
  ∀ s, Within s t → IsShortest (s.content len).length (len (s.content len).length)

theorem length_content_lt (len : Nat → Bytes) (t : Tree) :
    (t.content len).length < (t.write len).length := by
  cases t with
  | primitive tag octets =>
      rw [content, write, List.length_cons, List.length_append]
      omega
  | constructed tag elements =>
      rw [content, write, List.length_cons, List.length_append]
      omega

variable {len : Nat → Bytes}

theorem writeAll_eq_flatten (ts : List Tree) :
    writeAll len ts = (ts.map (write len)).flatten := by
  induction ts with
  | nil => rfl
  | cons t ts ih => rw [writeAll, ih, List.map_cons, List.flatten_cons]

theorem length_write_le_writeAll (len : Nat → Bytes) {c : Tree} {elements : List Tree}
    (h : c ∈ elements) :
    (c.write len).length ≤ (writeAll len elements).length := by
  induction elements with
  | nil => cases h
  | cons t ts ih =>
      rw [writeAll, List.length_append]
      rcases List.mem_cons.mp h with rfl | h
      · omega
      · have := ih h
        omega

/-- An element is no longer than the one it is in. -/
theorem Within.length_write_le (len : Nat → Bytes) {s t : Tree} (h : Within s t) :
    (s.write len).length ≤ (t.write len).length := by
  induction h with
  | self => exact Nat.le.refl
  | @inside c tag elements hmem _ ih =>
      have hle := length_write_le_writeAll len hmem
      have hlt := length_content_lt len (.constructed tag elements)
      rw [content] at hlt
      omega

/-- If `len` spells all lengths up to that of the whole shortest, all lengths in the whole are
spelled shortest. -/
theorem lengthsShortest_of_length_le {N : Nat} (hlen : ∀ n ≤ N, IsShortest n (len n)) {t : Tree}
    (h : (t.write len).length ≤ N) : t.LengthsShortest len := by
  intro s hs
  have hle := hs.length_write_le len
  have hlt := length_content_lt len s
  exact hlen _ (by omega)

end Tree

end Tlv
