import EuiccCrypto.Der

/-!
# Machine words

Elsewhere lengths and offsets are natural numbers. Here they are words of 32 or 64 bits, and `add`
and `sub` end the call where the source would leave their range. `Tracks w P x y` says that a call on
words is the call `y` on natural numbers, unless `P` and the words are short, and then it does not
return; the rules for it follow the shape of a function, so that `P` collects the places where it
goes wrong.

The two readers of DER lengths compute nothing that does not fit in 32 bits
(`readLengthWith_eq`), but the sum of what they return can be too large (`declaresTooMuch_iff`).
-/

namespace EuiccCrypto
namespace Usize

open Octets Tlv

/-! ### Words -/

/-- The width of `usize`. -/
inductive Width
  | w32
  | w64
  deriving DecidableEq

def Width.bits : Width → Nat
  | .w32 => 32
  | .w64 => 64

/-- `isize::MAX`, the length no byte string exceeds. -/
def Width.isizeMax (w : Width) : Nat := 2 ^ (w.bits - 1) - 1

/-- A byte string on the target. -/
structure Slice (w : Width) where
  bytes : Bytes
  fits : bytes.length ≤ w.isizeMax

/-- `a + b`. -/
def add (w : Width) (a b : Nat) : Exec Nat := if a + b < 2 ^ w.bits then .ok (a + b) else .panic

/-- `a - b`. -/
def sub (a b : Nat) : Exec Nat := if b ≤ a then .ok (a - b) else .panic

/-- `a.checked_add(b)`. -/
def checkedAdd (w : Width) (a b : Nat) : Option Nat :=
  if a + b < 2 ^ w.bits then some (a + b) else none

variable {w : Width} {a b : Nat}

theorem Width.le_bits (w : Width) : 2 ^ 32 ≤ 2 ^ w.bits := by
  cases w <;> decide

theorem Width.isizeMax_lt (w : Width) : 2 * w.isizeMax + 1 < 2 ^ w.bits := by
  cases w <;> decide

theorem add_eq_ok (h : a + b < 2 ^ w.bits) : add w a b = .ok (a + b) := if_pos h

/-- Small sums fit in both widths. -/
theorem add_small (h : a + b < 2 ^ 32) : add w a b = .ok (a + b) :=
  add_eq_ok (Nat.lt_of_lt_of_le h w.le_bits)

theorem add_eq_panic (h : 2 ^ w.bits ≤ a + b) : add w a b = .panic := if_neg (Nat.not_lt.mpr h)

theorem sub_eq_ok (h : b ≤ a) : sub a b = .ok (a - b) := if_pos h

theorem checkedAdd_small (h : a + b < 2 ^ 32) : checkedAdd w a b = some (a + b) :=
  if_pos (Nat.lt_of_lt_of_le h w.le_bits)

/-! ### Calls that agree

A function on words is compared with the function on natural numbers call by call. `Tracks.bind`
is the rule for one call after another: the two go wrong at the first, or at the second on what
the first returns. The rules leave a condition of this shape, and each function has one that says
the same in terms of its input. -/

section Tracks

variable {α β : Type}

/-- The call `x` on words is `y`, unless `P` and the words have 32 bits: then it panics. -/
structure Tracks (w : Width) (P : Prop) (x y : Exec α) : Prop where
  panics : w = .w32 ∧ P → x = .panic
  agrees : ¬ (w = .w32 ∧ P) → x = y

variable {P Q : Prop} {x y : Exec α}

theorem Tracks.of_eq (h : x = y) : Tracks w False x y := ⟨fun hp => hp.2.elim, fun _ => h⟩

theorem Tracks.congr (h : Tracks w P x y) (hpq : P ↔ Q) : Tracks w Q x y := by
  rwa [propext hpq] at h

theorem Tracks.trans_eq {z : Exec α} (h : Tracks w P x y) (hz : y = z) : Tracks w P x z := hz ▸ h

theorem Tracks.eq_panic_iff (h : Tracks w P x y) (hy : y ≠ .panic) :
    x = .panic ↔ w = .w32 ∧ P := by
  constructor
  · intro hx
    by_contra hp
    exact hy ((h.agrees hp).symm.trans hx)
  · exact h.panics

theorem Tracks.of_ok {a : α} (h : Tracks w P x y) (hx : x = .ok a) : y = .ok a := by
  by_cases hp : w = .w32 ∧ P
  · cases (h.panics hp).symm.trans hx
  · exact (h.agrees hp).symm.trans hx

/-- One call after another. -/
theorem Tracks.bind {f g : α → Exec β} {R : α → Prop} (h : Tracks w P x y)
    (hf : ∀ a, y = .ok a → Tracks w (R a) (f a) (g a)) :
    Tracks w (P ∨ ∃ a, y = .ok a ∧ R a) (x >>= f) (y >>= g) := by
  constructor
  · rintro ⟨hw, hp | ⟨a, ha, hr⟩⟩
    · rw [h.panics ⟨hw, hp⟩, Exec.panic_bind]
    · by_cases hp : P
      · rw [h.panics ⟨hw, hp⟩, Exec.panic_bind]
      · rw [h.agrees fun hwp => hp hwp.2, ha, Exec.ok_bind, (hf a ha).panics ⟨hw, hr⟩]
  · intro hnot
    rw [h.agrees fun hwp => hnot ⟨hwp.1, .inl hwp.2⟩]
    cases ha : y with
    | ok a => exact (hf a ha).agrees fun hwr => hnot ⟨hwr.1, .inr ⟨a, ha, hwr.2⟩⟩
    | err e => rfl
    | panic => rfl

/-- What comes after a call is the same in both. -/
theorem Tracks.bind_same {f g : α → Exec β} (h : Tracks w P x y) (hf : ∀ a, f a = g a) :
    Tracks w P (x >>= f) (y >>= g) :=
  (h.bind fun a _ => .of_eq (hf a)).congr (by simp)

/-- A step that only the call on words takes. -/
theorem Tracks.bind_ok {a : α} {f : α → Exec β} {y : Exec β} (h : Tracks w P x (.ok a))
    (hf : f a = y) : Tracks w P (x >>= f) y := by
  constructor
  · intro hp
    rw [h.panics hp, Exec.panic_bind]
  · intro hp
    rw [h.agrees hp, Exec.ok_bind, hf]

theorem Tracks.mapErr (h : Tracks w P x y) (f : Error → Error) :
    Tracks w P (x.mapErr f) (y.mapErr f) :=
  ⟨fun hp => by rw [h.panics hp, Exec.mapErr_panic], fun hp => by rw [h.agrees hp]⟩

/-- A guard that returns early. -/
theorem Tracks.guard {c : Prop} [Decidable c] (e : Error) (h : ¬ c → Tracks w P x y) :
    Tracks w (¬ c ∧ P) (if c then .err e else x) (if c then .err e else y) := by
  split
  · next hc => exact (Tracks.of_eq rfl).congr (by simp [hc])
  · next hc => exact (h hc).congr (by simp [hc])

end Tracks

/-! ### Lengths

Up to four octets make a length, which fits in 32 bits. So the readers of lengths never go wrong,
and the first sum that can is that of a length and the header in front of it. -/

/-- `read_length`, as `Der.readLengthWith`. -/
def readLengthWith (w : Width) (error : String → Error) (unsupported : UInt8 → Nat → Nat → String)
    (input : Bytes) : Exec (Nat × Nat) := do
  let first ← Exec.okOr (error "missing length") input.head?
  if first &&& 0x80 = 0 then .ok (first.toNat, 1)
  else do
    let count := (first &&& 0x7f).toNat
    let needed ← add w 1 count
    if count = 0 ∨ count = 0x7f ∨ count > 4 ∨ input.length < needed then
      .err (error (unsupported first count (input.length - 1)))
    else do
      let lead ← index input 1
      if lead = 0 then .err (error "non-minimal DER length (leading zero)")
      else do
        let stop ← add w 1 count
        let octets ← slice input 1 stop
        let used ← add w 1 count
        -- The shift drops what it moves out of the word.
        .ok (octets.foldl (fun len b => (len <<< 8) % 2 ^ w.bits ||| b.toNat) 0, used)

/-- Four octets are not shifted out of the word. -/
theorem foldl_shift_word (bs : Bytes) {k acc : Nat} (hacc : acc < 256 ^ k)
    (hlen : k + bs.length ≤ 4) :
    bs.foldl (fun len b => (len <<< 8) % 2 ^ w.bits ||| b.toNat) acc =
      bs.foldl (fun len b => len <<< 8 ||| b.toNat) acc := by
  induction bs generalizing k acc with
  | nil => rfl
  | cons b bs ih =>
      rw [List.length_cons] at hlen
      have hpow : 256 ^ (k + 1) ≤ 256 ^ 4 := Nat.pow_le_pow_right (by omega) (by omega)
      have hshift : acc <<< 8 + b.toNat < 256 ^ (k + 1) := by
        have := b.toNat_lt
        rw [Nat.shiftLeft_eq, Nat.pow_succ]
        omega
      have hmod : (acc <<< 8) % 2 ^ w.bits = acc <<< 8 := by
        have := w.le_bits
        exact Nat.mod_eq_of_lt (by omega)
      rw [List.foldl_cons, List.foldl_cons, hmod]
      refine ih (k := k + 1) ?_ (by omega)
      rwa [← Nat.shiftLeft_add_eq_or_of_lt b.toNat_lt]

/-- Reading a length does not depend on the width. -/
theorem readLengthWith_eq (error : String → Error) (unsupported : UInt8 → Nat → Nat → String)
    (input : Bytes) :
    readLengthWith w error unsupported input = Der.readLengthWith error unsupported input := by
  rw [readLengthWith, Der.readLengthWith]
  congr 1
  funext first
  have hcount : add w 1 (first &&& 0x7f).toNat = .ok (1 + (first &&& 0x7f).toNat) := by
    have := (first &&& 0x7f).toNat_lt
    exact add_small (by omega)
  dsimp only
  split
  · rfl
  · rw [hcount, Exec.ok_bind]
    split
    · rfl
    · next hguard =>
        congr 1
        funext lead
        split
        · rfl
        · rw [Exec.ok_bind]
          cases hslice : slice input 1 (1 + (first &&& 0x7f).toNat) with
          | ok octets =>
              have hlen : octets.length ≤ 4 := by
                obtain ⟨-, rfl⟩ := slice_eq_ok.mp hslice
                rw [List.length_take]
                omega
              rw [Exec.ok_bind, Exec.ok_bind, Exec.ok_bind,
                foldl_shift_word octets (k := 0) (by decide) (by omega)]
          | err e => rfl
          | panic => rfl

/-- The input starts with an identifier and a length that exceeds 32 bits together with the octets
it is spelled in. -/
def DeclaresTooMuch (input : Bytes) : Prop :=
  ∃ (tag x : UInt8) (rest : Bytes),
    input = tag :: 0x84 :: 0xff :: 0xff :: 0xff :: x :: rest ∧ 0xfa ≤ x.toNat

/-- The four octets whose number exceeds 32 bits together with a header of six octets. -/
theorem beValue_four_iff {d e f g : UInt8} :
    2 ^ 32 ≤ 6 + beValue [d, e, f, g] ↔ d = 0xff ∧ e = 0xff ∧ f = 0xff ∧ 0xfa ≤ g.toNat := by
  have hd := d.toNat_lt
  have he := e.toNat_lt
  have hf := f.toNat_lt
  have hg := g.toNat_lt
  have hvalue : beValue [d, e, f, g] =
      ((d.toNat * 256 + e.toNat) * 256 + f.toNat) * 256 + g.toNat := by
    simp [beValue]
  rw [hvalue]
  constructor
  · intro hle
    refine ⟨?_, ?_, ?_, by omega⟩
    · exact UInt8.toNat_inj.mp (show d.toNat = 255 by omega)
    · exact UInt8.toNat_inj.mp (show e.toNat = 255 by omega)
    · exact UInt8.toNat_inj.mp (show f.toNat = 255 by omega)
  · rintro ⟨rfl, rfl, rfl, hx⟩
    show 2 ^ 32 ≤ 6 + (((255 * 256 + 255) * 256 + 255) * 256 + g.toNat)
    omega

theorem declaresTooMuch_iff {tag : UInt8} {n : Nat} {os rest : Bytes} (h : LengthOctets n os) :
    DeclaresTooMuch (tag :: (os ++ rest)) ↔ 2 ^ 32 ≤ 1 + os.length + n := by
  cases h with
  | @short b hb =>
      refine iff_of_false ?_ (by simp only [List.length_singleton]; omega)
      rintro ⟨tag', x, rest', h, -⟩
      simp only [List.cons_append, List.cons.injEq] at h
      rw [h.2.1] at hb
      exact absurd hb (by decide)
  | @long m d ds hm hds _ =>
      by_cases hlen : ds.length = 3
      · obtain ⟨e, f, g, rfl⟩ := List.length_eq_three.mp hlen
        obtain rfl : m = 0x84 := UInt8.toNat_inj.mp hm
        show _ ↔ 2 ^ 32 ≤ 6 + beValue [d, e, f, g]
        rw [beValue_four_iff]
        constructor
        · rintro ⟨tag', x, rest', h, hx⟩
          simp only [List.cons_append, List.nil_append, List.cons.injEq] at h
          obtain ⟨-, -, rfl, rfl, rfl, rfl, -⟩ := h
          exact ⟨rfl, rfl, rfl, hx⟩
        · rintro ⟨rfl, rfl, rfl, hx⟩
          exact ⟨tag, g, rest, rfl, hx⟩
      · -- Three octets or fewer hold a small number.
        have hvalue := beValue_lt (d :: ds)
        have hpow : 256 ^ (d :: ds).length ≤ 256 ^ 3 :=
          Nat.pow_le_pow_right (by omega) (by rw [List.length_cons]; omega)
        refine iff_of_false ?_ (by simp only [List.length_cons]; omega)
        rintro ⟨tag', x, rest', h, -⟩
        simp only [List.cons_append, List.cons.injEq] at h
        obtain ⟨-, rfl, -⟩ := h
        have : (0x84 : UInt8).toNat = 132 := rfl
        omega

end Usize
end EuiccCrypto
