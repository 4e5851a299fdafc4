import EuiccCrypto.Lib.MacChain

/-!
# Channels that behave like a queue

What can be seen of a one-way channel is a trace of events: a message is put in at one end, or one
is taken out at the other. The channel is a queue if its trace is a run of `Queue`; then nothing is
lost or duplicated (`Queue.conserves`).

`queue_or_unseen_or_repeat` is what chained authentication makes of a channel whose messages anybody
may change, drop or repeat: a queue, up to the first message taken out in a state in which it was
not put in before, or to a repeated state.
-/

namespace Channel

/-- What can be seen of a channel. -/
inductive Event (μ : Type)
  | put (m : μ)
  | take (m : μ)
  deriving DecidableEq

variable {μ : Type}

/-- The message that is put in. -/
def Event.put? : Event μ → Option μ
  | put m => some m
  | take _ => none

/-- The message that is taken out. -/
def Event.take? : Event μ → Option μ
  | put _ => none
  | take m => some m

/-- The messages put in, in order. -/
def puts (trace : List (Event μ)) : List μ := trace.filterMap Event.put?

/-- The messages taken out, in order. -/
def takes (trace : List (Event μ)) : List μ := trace.filterMap Event.take?

@[simp] theorem puts_append (t t' : List (Event μ)) : puts (t ++ t') = puts t ++ puts t' :=
  List.filterMap_append

@[simp] theorem takes_append (t t' : List (Event μ)) : takes (t ++ t') = takes t ++ takes t' :=
  List.filterMap_append

@[simp] theorem puts_singleton_put (m : μ) : puts [.put m] = [m] := rfl

@[simp] theorem puts_singleton_take (m : μ) : puts [.take m] = [] := rfl

@[simp] theorem takes_singleton_put (m : μ) : takes [.put m] = [] := rfl

@[simp] theorem takes_singleton_take (m : μ) : takes [.take m] = [m] := rfl

/-! ### The queue -/

/-- A queue, from what it holds at first to what it holds at last. -/
inductive Queue : List μ → List (Event μ) → List μ → Prop
  | nil (q : List μ) : Queue q [] q
  | put {q q' : List μ} {trace : List (Event μ)} (m : μ) :
      Queue q trace q' → Queue q (trace ++ [.put m]) (q' ++ [m])
  | take {q q' : List μ} {trace : List (Event μ)} {m : μ} :
      Queue q trace (m :: q') → Queue q (trace ++ [.take m]) q'

/-- Nothing is lost or duplicated in a queue. -/
theorem Queue.conserves {q q' : List μ} {trace : List (Event μ)} (h : Queue q trace q') :
    q ++ puts trace = takes trace ++ q' := by
  induction h with
  | nil => simp [puts, takes]
  | put m _ ih => rw [puts_append, takes_append, ← List.append_assoc, ih]; simp
  | take _ ih => rw [puts_append, takes_append]; simpa using ih

/-! ### Chained authentication -/

section Chained

variable {σ : Type} (next : σ → μ → σ) (s : σ)

/-- The states that are reached while the messages are handled repeat. -/
def Repeats (ms : List μ) : Prop :=
  ∃ i j, i < j ∧ j ≤ ms.length ∧ (List.scanl next s ms)[i]? = (List.scanl next s ms)[j]?

/-- A message is taken out in a state in which it was not put in before, while the channel was a
queue up to then. -/
def Unseen (trace : List (Event μ)) : Prop :=
  ∃ p m t, trace = p ++ .take m :: t ∧ (∃ q, Queue [] p q) ∧
    ((takes p).foldl next s, m) ∉ MacChain.log next s (puts p)

variable {next s}

theorem Repeats.append {ms : List μ} (h : Repeats next s ms) (ms' : List μ) :
    Repeats next s (ms ++ ms') := by
  obtain ⟨i, j, hij, hj, heq⟩ := h
  have hstate : ∀ k ≤ ms.length,
      (List.scanl next s (ms ++ ms'))[k]? = (List.scanl next s ms)[k]? := by
    intro k hk
    rw [List.getElem?_scanl, List.getElem?_scanl, if_pos hk, if_pos (by simp; omega),
      List.take_append_of_le_length hk]
  exact ⟨i, j, hij, by simp; omega, by rw [hstate i (by omega), hstate j hj, heq]⟩

theorem Unseen.append {trace : List (Event μ)} (h : Unseen next s trace) (t' : List (Event μ)) :
    Unseen next s (trace ++ t') := by
  obtain ⟨p, m, t, rfl, hp, hm⟩ := h
  exact ⟨p, m, t ++ t', by simp, hp, hm⟩

/-- The log of the first messages is the first part of the log. -/
theorem log_append (s : σ) (ms ms' : List μ) :
    MacChain.log next s (ms ++ ms') =
      MacChain.log next s ms ++ MacChain.log next (ms.foldl next s) ms' := by
  induction ms generalizing s with
  | nil => rfl
  | cons m ms ih => rw [List.cons_append, MacChain.log, MacChain.log, ih, List.foldl_cons]; rfl

variable (next s)

/-- Whatever is done to the messages on the way, the channel is a queue; or some message is taken
out in a state in which it was not put in before; or the states of the sender repeat. -/
theorem queue_or_unseen_or_repeat (trace : List (Event μ)) :
    (∃ q, Queue [] trace q) ∨ Unseen next s trace ∨ Repeats next s (puts trace) := by
  induction trace using List.reverseRecOn with
  | nil => exact .inl ⟨[], .nil []⟩
  | append_singleton trace e ih =>
      rcases ih with ⟨q, hq⟩ | hunseen | hrepeat
      · cases e with
        | put m => exact .inl ⟨_, hq.put m⟩
        | take m =>
            have hcons : puts trace = takes trace ++ q := by simpa using hq.conserves
            rcases MacChain.prefix_or_unseen_or_repeat next s (puts trace) (takes trace ++ [m]) with
              h | ⟨e, he, hsent⟩ | hrepeat
            · rw [hcons, List.prefix_append_right_inj] at h
              obtain ⟨q', rfl⟩ := h
              exact .inl ⟨q', hq.take⟩
            · -- The messages taken out before were all put in, so it is the last one.
              refine .inr (.inl ⟨trace, m, [], rfl, ⟨q, hq⟩, ?_⟩)
              rw [log_append, List.mem_append] at he
              rcases he with he | he
              · rw [hcons, log_append] at hsent
                exact absurd (List.mem_append_left _ he) hsent
              · obtain rfl : e = ((takes trace).foldl next s, m) := by simpa [MacChain.log] using he
                exact hsent
            · refine .inr (.inr ?_)
              rw [puts_append, puts_singleton_take, List.append_nil]
              exact hrepeat
      · exact .inr (.inl (hunseen.append _))
      · exact .inr (.inr (by rw [puts_append]; exact hrepeat.append _))

end Chained

end Channel
