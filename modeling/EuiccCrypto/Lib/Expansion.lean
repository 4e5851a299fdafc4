import Mathlib.Data.List.Infix

/-!
# Expanding block by block

A generator gives one block for each number. `blocks` puts the first blocks together, and `fill` is
the loop that appends blocks while fewer than `len` symbols are there. What the loop leaves agrees
with any number of blocks that is large enough on the first `len` symbols (`take_fill_eq`), so that
the number of blocks can be computed beforehand and a shorter output is a prefix of a longer one.
-/

namespace Expansion

variable {α : Type*} (block : Nat → List α)

/-- The first `n` blocks. -/
def blocks : Nat → List α
  | 0 => []
  | n + 1 => blocks n ++ block n

/-- Append blocks, from the one with number `n` on, while fewer than `len` symbols are there. -/
def fill (hne : ∀ n, block n ≠ []) (len n : Nat) (out : List α) : List α :=
  if out.length < len then fill hne len (n + 1) (out ++ block n) else out
termination_by len - out.length
decreasing_by
  have := List.length_pos_iff.mpr (hne n)
  rw [List.length_append]
  omega

variable {block}

theorem blocks_prefix {m n : Nat} (h : m ≤ n) : blocks block m <+: blocks block n := by
  induction n, h using Nat.le_induction with
  | base => exact List.prefix_rfl
  | succ n _ ih => exact ih.trans (List.prefix_append _ _)

theorem length_blocks {k : Nat} (hk : ∀ n, (block n).length = k) (n : Nat) :
    (blocks block n).length = n * k := by
  induction n with
  | zero => simp [blocks]
  | succ n ih => rw [blocks, List.length_append, ih, hk, Nat.succ_mul]

/-- The loop leaves some number of blocks, which is large enough. -/
theorem exists_fill_eq (hne : ∀ n, block n ≠ []) (len n : Nat) :
    ∃ m, fill block hne len n (blocks block n) = blocks block m ∧
      len ≤ (blocks block m).length := by
  generalize hout : blocks block n = out
  induction n, out using fill.induct block hne len with
  | case1 n out hlt ih =>
      rw [fill, if_pos hlt]
      exact ih (by rw [blocks, hout])
  | case2 n out hge =>
      rw [fill, if_neg hge]
      exact ⟨n, hout.symm, by rw [hout]; omega⟩

/-- Any two long enough outputs agree on the first `len` symbols. -/
theorem take_blocks_eq {len m n : Nat} (hm : len ≤ (blocks block m).length)
    (hn : len ≤ (blocks block n).length) :
    (blocks block m).take len = (blocks block n).take len := by
  rcases Nat.le_total m n with h | h
  · obtain ⟨t, ht⟩ : blocks block m <+: blocks block n := blocks_prefix h
    rw [← ht, List.take_append_of_le_length hm]
  · obtain ⟨t, ht⟩ : blocks block n <+: blocks block m := blocks_prefix h
    rw [← ht, List.take_append_of_le_length hn]

/-- The loop and the cut after it give what any large enough number of blocks gives. -/
theorem take_fill_eq (hne : ∀ n, block n ≠ []) {len m : Nat}
    (hm : len ≤ (blocks block m).length) :
    (fill block hne len 0 []).take len = (blocks block m).take len := by
  obtain ⟨k, hk, hlen⟩ := exists_fill_eq hne len 0
  rw [show ([] : List α) = blocks block 0 from rfl, hk]
  exact take_blocks_eq hlen hm

end Expansion
