import Mathlib.Data.Set.Basic
import Mathlib.Order.Lattice

/-!
# Selecting a candidate

A selection looks among the members of a set for one that is a candidate and is accepted. How far
it gets is a `Verdict`. The verdict depends on the set and the two predicates only
(`verdict_congr`), and grows with the set and with the candidates (`verdict_mono`).
-/

namespace Selection

/-- How far a selection gets. -/
inductive Verdict
  | noMatch
  | rejected
  | accepted
  deriving DecidableEq

/-- No candidate is less than candidates that are all rejected, and that is less than success. -/
def Verdict.rank : Verdict → Nat
  | .noMatch => 0
  | .rejected => 1
  | .accepted => 2

theorem Verdict.rank_injective : Function.Injective Verdict.rank := by
  intro v w h
  cases v <;> cases w <;> first | rfl | cases h

instance : LinearOrder Verdict := LinearOrder.lift' Verdict.rank Verdict.rank_injective

theorem Verdict.le_iff {v w : Verdict} : v ≤ w ↔ v.rank ≤ w.rank := Iff.rfl

variable {α : Type*}

open Classical in
/-- The verdict of a selection from `s`, where `Candidate` says what is looked at and `Accepts`
what is taken. -/
noncomputable def verdict (s : Set α) (Candidate Accepts : α → Prop) : Verdict :=
  if ∃ a ∈ s, Candidate a ∧ Accepts a then .accepted
  else if ∃ a ∈ s, Candidate a then .rejected
  else .noMatch

variable {s t : Set α} {Candidate Candidate' Accepts : α → Prop}

theorem accepted_le_verdict_iff :
    .accepted ≤ verdict s Candidate Accepts ↔ ∃ a ∈ s, Candidate a ∧ Accepts a := by
  rw [verdict]
  split
  · next h => exact iff_of_true (le_refl _) h
  · next h =>
      refine iff_of_false ?_ h
      split <;> simp [Verdict.le_iff, Verdict.rank]

theorem rejected_le_verdict_iff :
    .rejected ≤ verdict s Candidate Accepts ↔ ∃ a ∈ s, Candidate a := by
  rw [verdict]
  split
  · next h =>
      obtain ⟨a, ha, hcandidate, -⟩ := h
      exact iff_of_true (by simp [Verdict.le_iff, Verdict.rank]) ⟨a, ha, hcandidate⟩
  · split
    · next h => exact iff_of_true (le_refl _) h
    · next h => exact iff_of_false (by simp [Verdict.le_iff, Verdict.rank]) h

/-- A verdict is what it is at least. -/
theorem verdict_le_iff {v w : Verdict} :
    v ≤ w ↔ (.rejected ≤ v → .rejected ≤ w) ∧ (.accepted ≤ v → .accepted ≤ w) := by
  cases v <;> cases w <;> simp [Verdict.le_iff, Verdict.rank]

/-- More members and more candidates never lower the verdict. -/
theorem verdict_mono (hs : s ⊆ t) (h : ∀ a, Candidate a → Candidate' a) :
    verdict s Candidate Accepts ≤ verdict t Candidate' Accepts := by
  rw [verdict_le_iff, accepted_le_verdict_iff, rejected_le_verdict_iff, accepted_le_verdict_iff,
    rejected_le_verdict_iff]
  constructor
  · rintro ⟨a, ha, hcandidate⟩
    exact ⟨a, hs ha, h a hcandidate⟩
  · rintro ⟨a, ha, hcandidate, haccepts⟩
    exact ⟨a, hs ha, h a hcandidate, haccepts⟩

/-- Selections from the same members have the same verdict. -/
theorem verdict_congr (hst : ∀ a, a ∈ s ↔ a ∈ t) :
    verdict s Candidate Accepts = verdict t Candidate Accepts := by
  rw [Set.ext hst]

end Selection
