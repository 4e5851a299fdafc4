import Mathlib.Data.List.Basic

/-!
# Runs of calls on one state

A call finds a state, leaves another one and has an outcome. `run` performs calls one after
another and `succeeding` drops those that fail on the way. If no failing call leaves a trace, the
shorter run has the same successes and ends in the same state (`run_succeeding`).
-/

namespace Runs

variable {κ σ ω : Type} (call : κ → σ → ω × σ) (Fails : ω → Prop)

/-- The outcomes of the calls, and the state they end in. -/
def run : List κ → σ → List ω × σ
  | [], s => ([], s)
  | k :: ks, s => ((call k s).1 :: (run ks (call k s).2).1, (run ks (call k s).2).2)

/-- A call that fails leaves the state it found. -/
def NoTrace : Prop := ∀ k s, Fails (call k s).1 → (call k s).2 = s

/-- What holds of the outcome of every call holds of all outcomes of a run. -/
theorem forall_mem_run {P : ω → Prop} (h : ∀ k s, P (call k s).1) (ks : List κ) (s : σ) :
    ∀ o ∈ (run call ks s).1, P o := by
  induction ks generalizing s with
  | nil => simp [run]
  | cons k ks ih => exact List.forall_mem_cons.mpr ⟨h k s, ih _⟩

/-- An outcome of a run is the outcome of one of its calls. -/
theorem exists_of_mem_run {ks : List κ} {s : σ} {o : ω} (h : o ∈ (run call ks s).1) :
    ∃ k ∈ ks, ∃ s', (call k s').1 = o := by
  induction ks generalizing s with
  | nil => simp [run] at h
  | cons k ks ih =>
      rcases List.mem_cons.mp h with rfl | h
      · exact ⟨k, by simp, s, rfl⟩
      · obtain ⟨k', hk', hs'⟩ := ih h
        exact ⟨k', List.mem_cons_of_mem _ hk', hs'⟩

variable [DecidablePred Fails]

/-- The calls of a run that do not fail in it. -/
def succeeding : List κ → σ → List κ
  | [], _ => []
  | k :: ks, s =>
    if Fails (call k s).1 then succeeding ks (call k s).2 else k :: succeeding ks (call k s).2

/-- Without its failing calls a run succeeds in the same way and ends in the same state. -/
theorem run_succeeding (h : NoTrace call Fails) (ks : List κ) (s : σ) :
    run call (succeeding call Fails ks s) s =
      ((run call ks s).1.filter fun o => ¬ Fails o, (run call ks s).2) := by
  induction ks generalizing s with
  | nil => rfl
  | cons k ks ih =>
      by_cases hk : Fails (call k s).1
      · -- The state is still `s`, so both runs go on from there.
        have hs := h k s hk
        have hrest := ih s
        rw [← hs] at hrest
        rw [succeeding, if_pos hk, run, List.filter_cons_of_neg (by simpa using hk), hs]
        rwa [hs] at hrest
      · rw [succeeding, if_neg hk, run, run, ih, List.filter_cons_of_pos (by simpa using hk)]

end Runs
