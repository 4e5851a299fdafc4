import EuiccCrypto.Exec

/-!
# Constant-time comparison

The part of `kdf.rs` the other modules use: `constant_time_eq`, which is equality
(`constantTimeEq_iff`).
-/

namespace EuiccCrypto
namespace Kdf

open Octets

/-- `constant_time_eq`: compare without stopping at the first difference. -/
def constantTimeEq (a b : Bytes) : Bool :=
  if a.length ≠ b.length then false
  else (a.zip b).foldl (fun diff p => diff ||| (p.1 ^^^ p.2)) 0 == 0

/-- The accumulated difference is zero when it starts at zero and no octet differs. -/
theorem foldl_diff_eq_zero (ps : List (UInt8 × UInt8)) (d : UInt8) :
    ps.foldl (fun diff p => diff ||| (p.1 ^^^ p.2)) d = 0 ↔ d = 0 ∧ ∀ p ∈ ps, p.1 = p.2 := by
  induction ps generalizing d with
  | nil => simp
  | cons p ps ih =>
      rw [List.foldl_cons, ih, UInt8.or_eq_zero_iff, UInt8.xor_eq_zero_iff, List.forall_mem_cons,
        and_assoc]

theorem forall_mem_zip_eq : ∀ {a b : Bytes}, a.length = b.length →
    ((∀ p ∈ a.zip b, p.1 = p.2) ↔ a = b)
  | [], [], _ => by simp
  | x :: a, y :: b, h => by
      have ih := forall_mem_zip_eq (a := a) (b := b) (by simpa using h)
      rw [List.zip_cons_cons, List.forall_mem_cons, ih, List.cons.injEq]

theorem constantTimeEq_iff {a b : Bytes} : constantTimeEq a b = true ↔ a = b := by
  unfold constantTimeEq
  split
  · next h => simpa using fun hab : a = b => h (congrArg List.length hab)
  · next h =>
      rw [beq_iff_eq, foldl_diff_eq_zero, forall_mem_zip_eq (not_not.mp h)]
      simp

end Kdf
end EuiccCrypto
