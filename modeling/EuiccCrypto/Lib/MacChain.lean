import Mathlib.Data.List.Infix

/-!
# Chained authentication

Two parties start from one state and advance it with every message, `next s m`. What one of
them has handled is a list of messages; `log` pairs each with the state it was handled in,
which together are what a MAC is computed over, and `List.scanl next` lists the states.

`prefix_or_unseen_or_repeat` is the combinatorial half of every chaining argument: the
receiver's messages continue along the sender's, unless the receiver handled a message in a
state in which the sender never did, or the sender's states repeat.
-/

namespace MacChain

variable {σ μ : Type} (next : σ → μ → σ)

/-- The messages, each with the state it is handled in. -/
def log : σ → List μ → List (σ × μ)
  | _, [] => []
  | s, m :: ms => (s, m) :: log (next s m) ms

/-- An entry of the log is a message behind some prefix, in the state that prefix leads to. -/
theorem mem_log {s : σ} {ms : List μ} {e : σ × μ} :
    e ∈ log next s ms ↔ ∃ p t, ms = p ++ e.2 :: t ∧ e.1 = p.foldl next s := by
  induction ms generalizing s with
  | nil => simp [log]
  | cons m ms ih =>
      rw [log, List.mem_cons, ih]
      constructor
      · rintro (rfl | ⟨p, t, rfl, he⟩)
        · exact ⟨[], ms, rfl, rfl⟩
        · exact ⟨m :: p, t, rfl, he⟩
      · rintro ⟨p, t, hms, he⟩
        cases p with
        | nil =>
            obtain ⟨rfl, rfl⟩ := List.cons.inj hms
            exact .inl (Prod.ext he rfl)
        | cons m' p =>
            obtain ⟨rfl, rfl⟩ := List.cons.inj hms
            exact .inr ⟨p, t, rfl, he⟩

/-- The states the messages are handled in, and the one they end in. -/
theorem scanl_eq_log (s : σ) (ms : List μ) :
    List.scanl next s ms = (log next s ms).map Prod.fst ++ [ms.foldl next s] := by
  induction ms generalizing s with
  | nil => rfl
  | cons m ms ih => simp [log, List.scanl_cons, ih]

/-- Two lists agree as far as the first goes, or have a first place where it leaves the
second. -/
theorem prefix_or_diverge : ∀ sent accepted : List μ, accepted <+: sent ∨
    ∃ p a t, accepted = p ++ a :: t ∧ p <+: sent ∧ ¬ p ++ [a] <+: sent
  | _, [] => .inl List.nil_prefix
  | [], a :: t => .inr ⟨[], a, t, rfl, List.nil_prefix, by simp⟩
  | b :: sent, a :: accepted => by
      by_cases hab : a = b
      · subst hab
        rcases prefix_or_diverge sent accepted with h | ⟨p, c, t, rfl, hp, hc⟩
        · exact .inl (List.cons_prefix_cons.mpr ⟨rfl, h⟩)
        · refine .inr ⟨a :: p, c, t, rfl, List.cons_prefix_cons.mpr ⟨rfl, hp⟩, ?_⟩
          intro h
          exact hc (List.cons_prefix_cons.mp h).2
      · exact .inr ⟨[], a, accepted, rfl, List.nil_prefix, fun h => hab (by simpa using h)⟩

/-- The state after the first `p` of the sender's messages is one of the states listed. -/
theorem getElem?_scanl_length {s : σ} {p sent : List μ} (h : p <+: sent) :
    (List.scanl next s sent)[p.length]? = some (p.foldl next s) := by
  obtain ⟨t, rfl⟩ := h
  rw [List.getElem?_scanl, if_pos (by simp), List.take_left]

/-- The receiver's messages are the first of the sender's; or one of them was handled in a state
in which the sender did not handle it; or two of the sender's states are the same. -/
theorem prefix_or_unseen_or_repeat (s : σ) (sent accepted : List μ) :
    accepted <+: sent ∨ (∃ e ∈ log next s accepted, e ∉ log next s sent) ∨
      ∃ i j, i < j ∧ j ≤ sent.length ∧
        (List.scanl next s sent)[i]? = (List.scanl next s sent)[j]? := by
  rcases prefix_or_diverge sent accepted with h | ⟨p, a, t, rfl, hp, ha⟩
  · exact .inl h
  right
  have hacc : (p.foldl next s, a) ∈ log next s (p ++ a :: t) := (mem_log next).mpr ⟨p, t, rfl, rfl⟩
  by_cases hsent : (p.foldl next s, a) ∈ log next s sent
  · obtain ⟨q, u, rfl, hq⟩ := (mem_log next).mp hsent
    dsimp only at hq
    -- The sender handled `a` in this very state, but at another place.
    have hqp : q ++ [a] <+: q ++ a :: u := ⟨u, by simp⟩
    have hlen : p.length ≠ q.length := by
      intro hpq
      obtain rfl : p = q :=
        (List.prefix_of_prefix_length_le hp (List.prefix_append _ _) hpq.le).eq_of_length hpq
      exact ha hqp
    have hsame : (List.scanl next s (q ++ a :: u))[p.length]? =
        (List.scanl next s (q ++ a :: u))[q.length]? := by
      rw [getElem?_scanl_length next hp, getElem?_scanl_length next (List.prefix_append _ _),
        hq]
    rcases Nat.lt_or_gt_of_ne hlen with hlt | hgt
    · exact .inr ⟨p.length, q.length, hlt, by simp, hsame⟩
    · exact .inr ⟨q.length, p.length, hgt, hp.length_le, hsame.symm⟩
  · exact .inl ⟨_, hacc, hsent⟩

end MacChain
