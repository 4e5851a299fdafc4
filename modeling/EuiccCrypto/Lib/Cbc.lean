import Mathlib.Logic.Equiv.Basic

/-!
# Cipher block chaining

CBC over an arbitrary block type: `xor` is any operation that undoes itself on the right and
the cipher is any permutation of blocks. `decrypt_encrypt` is the round trip and
`decrypt_encrypt_of_iv` says what a wrong initial value does to it. The second half splits
strings of symbols into blocks of a fixed length and joins them again.
-/

namespace Cbc

variable {B : Type} (xor : B → B → B) (E : Equiv.Perm B)

/-! ### The mode -/

/-- Each block is combined with the previous ciphertext block (the first with `iv`) and then
enciphered. -/
def encrypt : B → List B → List B
  | _, [] => []
  | iv, p :: ps => E (xor p iv) :: encrypt (E (xor p iv)) ps

/-- The inverse walk: decipher, then remove the previous ciphertext block. -/
def decrypt : B → List B → List B
  | _, [] => []
  | iv, c :: cs => xor (E.symm c) iv :: decrypt c cs

@[simp] theorem length_encrypt (iv : B) (ps : List B) :
    (encrypt xor E iv ps).length = ps.length := by
  induction ps generalizing iv with
  | nil => rfl
  | cons p ps ih => simp [encrypt, ih]

theorem decrypt_encrypt (hx : ∀ a b, xor (xor a b) b = a) (iv : B) (ps : List B) :
    decrypt xor E iv (encrypt xor E iv ps) = ps := by
  induction ps generalizing iv with
  | nil => rfl
  | cons p ps ih => simp [encrypt, decrypt, hx, ih]

/-- Under another initial value only the first block comes out differently. -/
theorem decrypt_encrypt_of_iv (hx : ∀ a b, xor (xor a b) b = a) (iv iv' p : B) (ps : List B) :
    decrypt xor E iv' (encrypt xor E iv (p :: ps)) = xor (xor p iv) iv' :: ps := by
  simp [encrypt, decrypt, decrypt_encrypt xor E hx]

/-! ### Strings as blocks -/

section Blocks

variable {α : Type} {n : Nat}

/-- A string of exactly `n` symbols. -/
abbrev Block (n : Nat) (α : Type) := {b : List α // b.length = n}

/-- The blocks one after another. -/
def join (bs : List (Block n α)) : List α := bs.flatMap Subtype.val

/-- The first `k` blocks of `n` symbols, as far as there are any. -/
def splitAux (n : Nat) : Nat → List α → List (Block n α)
  | 0, _ => []
  | k + 1, l =>
      if h : n ≤ l.length then ⟨l.take n, List.length_take_of_le h⟩ :: splitAux n k (l.drop n)
      else []

/-- The blocks a string is made of (what is left over at the end is dropped). -/
def split (n : Nat) (l : List α) : List (Block n α) := splitAux n (l.length / n) l

@[simp] theorem join_nil : join ([] : List (Block n α)) = [] := rfl

@[simp] theorem join_cons (b : Block n α) (bs : List (Block n α)) :
    join (b :: bs) = b.val ++ join bs := rfl

@[simp] theorem length_join (bs : List (Block n α)) : (join bs).length = n * bs.length := by
  induction bs with
  | nil => rfl
  | cons b bs ih =>
      rw [join_cons, List.length_append, b.2, ih, List.length_cons, Nat.mul_succ, Nat.add_comm]

private theorem splitAux_join (bs : List (Block n α)) : splitAux n bs.length (join bs) = bs := by
  induction bs with
  | nil => rfl
  | cons b bs ih =>
      have hle : n ≤ (b.val ++ join bs).length := by rw [List.length_append, b.2]; omega
      have htake : (b.val ++ join bs).take n = b.val := List.take_left' b.2
      have hdrop : (b.val ++ join bs).drop n = join bs := List.drop_left' b.2
      rw [List.length_cons, join_cons, splitAux, dif_pos hle, hdrop, ih]
      congr 1
      exact Subtype.ext htake

theorem split_join (hn : 0 < n) (bs : List (Block n α)) : split n (join bs) = bs := by
  rw [split, length_join, Nat.mul_div_cancel_left _ hn, splitAux_join]

theorem join_inj (hn : 0 < n) {bs cs : List (Block n α)} (h : join bs = join cs) : bs = cs := by
  rw [← split_join hn bs, h, split_join hn]

private theorem join_splitAux : ∀ (k : Nat) (l : List α), l.length = n * k →
    join (splitAux n k l) = l
  | 0, l, h => (List.eq_nil_of_length_eq_zero (by simpa using h)).symm
  | k + 1, l, h => by
      have hle : n ≤ l.length := by rw [h, Nat.mul_succ]; omega
      have hrest : (l.drop n).length = n * k := by
        rw [List.length_drop, h, Nat.mul_succ, Nat.add_sub_cancel]
      rw [splitAux, dif_pos hle, join_cons, join_splitAux k _ hrest, List.take_append_drop]

theorem join_split {l : List α} (h : n ∣ l.length) : join (split n l) = l := by
  obtain ⟨k, hk⟩ := h
  rcases Nat.eq_zero_or_pos n with rfl | hn
  · exact join_splitAux _ l (by simp [hk])
  · exact join_splitAux _ l (by rw [hk, Nat.mul_div_cancel_left _ hn])

end Blocks

end Cbc
