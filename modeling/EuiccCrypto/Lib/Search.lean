import Mathlib.Data.List.Infix
import Mathlib.Data.Nat.Find

/-!
# Searching a string from left to right

A search looks at one suffix of a string after the other and lets `turn` decide: go on with the
next suffix, or stop with an answer. It gives up when no more than `window` symbols are left.

`SettlesAt s i r` says that the search through `s` stops at offset `i` with `r`. For a search
through a string of which only a front part `t` is known, `Settled turn t` says that it stops
inside `t` with an answer that no continuation of `t` changes. `determined_iff_settled` says
that this is the only way the result can be independent of the continuation, for a `turn` that
is `Free` on every suffix it is not fixed on. `settled_iff_exists` turns that into a statement about
what stands in `t`, once it is known which strings decide the search and which leave it free.
-/

namespace Search

variable {σ α : Type}

/-- What a look at a suffix leads to. -/
inductive Turn (α : Type)
  | next
  | done (r : Option α)
  deriving DecidableEq

/-- The search. -/
def scan (window : Nat) (turn : List σ → Turn α) : List σ → Option α
  | [] => none
  | b :: s =>
    if window < (b :: s).length then
      match turn (b :: s) with
      | .next => scan window turn s
      | .done r => r
    else none

variable {window : Nat} {turn : List σ → Turn α}

theorem scan_of_length_le {s : List σ} (h : s.length ≤ window) : scan window turn s = none := by
  cases s with
  | nil => rfl
  | cons b s => rw [scan, if_neg (by omega)]

theorem scan_of_done {s : List σ} {r : Option α} (hlen : window < s.length)
    (h : turn s = .done r) : scan window turn s = r := by
  cases s with
  | nil => simp at hlen
  | cons b s => rw [scan, if_pos hlen, h]

theorem scan_cons_of_next {b : σ} {s : List σ} (h : turn (b :: s) = .next) :
    scan window turn (b :: s) = scan window turn s := by
  rw [scan]
  split
  · rw [h]
  · next hlen => exact (scan_of_length_le (by simp only [List.length_cons] at hlen; omega)).symm

/-- A prefix at whose places the search goes on can be left out. -/
theorem scan_append_of_next {pre s : List σ}
    (h : ∀ j < pre.length, turn (pre.drop j ++ s) = .next) :
    scan window turn (pre ++ s) = scan window turn s := by
  induction pre with
  | nil => rfl
  | cons b pre ih =>
      have h0 : turn (b :: (pre ++ s)) = .next := h 0 (by simp)
      rw [List.cons_append, scan_cons_of_next h0]
      exact ih fun j hj => h (j + 1) (by simp; omega)

theorem drop_take_append_drop {s : List σ} {i j : Nat} (h : j ≤ i) :
    (s.take i).drop j ++ s.drop i = s.drop j := by
  rw [List.drop_take, ← Nat.add_sub_of_le h, Nat.add_sub_cancel_left, ← List.drop_drop,
    List.take_append_drop]

/-! ### Where a search stops -/

/-- The search through `s` stops at offset `i`, with `r`. -/
structure SettlesAt (window : Nat) (turn : List σ → Turn α) (s : List σ) (i : Nat)
    (r : Option α) : Prop where
  earlier : ∀ j < i, turn (s.drop j) = .next
  done : turn (s.drop i) = .done r
  room : window < (s.drop i).length

theorem SettlesAt.scan_eq {s : List σ} {i : Nat} {r : Option α}
    (h : SettlesAt window turn s i r) : scan window turn s = r := by
  have hi : i ≤ s.length := by
    have := h.room
    rw [List.length_drop] at this
    omega
  have hearlier : ∀ j < (s.take i).length, turn ((s.take i).drop j ++ s.drop i) = .next := by
    intro j hj
    rw [List.length_take_of_le hi] at hj
    rw [drop_take_append_drop hj.le]
    exact h.earlier j hj
  rw [← List.take_append_drop i s, scan_append_of_next hearlier]
  exact scan_of_done h.room h.done

theorem exists_settlesAt {s : List σ} {a : α} (h : scan window turn s = some a) :
    ∃ i, SettlesAt window turn s i (some a) := by
  induction s with
  | nil => cases h
  | cons b s ih =>
      by_cases hlen : window < (b :: s).length
      · -- The turn taken here decides whether the search stops at once or in what follows.
        rw [scan, if_pos hlen] at h
        cases hturn : turn (b :: s) with
        | next =>
            rw [hturn] at h
            obtain ⟨i, hi⟩ := ih h
            refine ⟨i + 1, ⟨?_, hi.done, hi.room⟩⟩
            intro j hj
            cases j with
            | zero => exact hturn
            | succ j => exact hi.earlier j (by omega)
        | done r =>
            rw [hturn] at h
            exact ⟨0, ⟨fun j hj => absurd hj (Nat.not_lt_zero j), by rw [List.drop_zero, hturn, ← h],
              hlen⟩⟩
      · rw [scan_of_length_le (by omega)] at h
        cases h

/-- A search finds what it has stopped somewhere with. -/
theorem scan_eq_some_iff {s : List σ} {a : α} :
    scan window turn s = some a ↔ ∃ i, SettlesAt window turn s i (some a) := by
  constructor
  · exact exists_settlesAt
  · rintro ⟨i, hi⟩
    exact hi.scan_eq

/-- What holds of the tails of `s` down to those that start at `i` holds at all offsets before
`i`. Going through the tails is faster than dropping again for each offset. -/
theorem forall_lt_drop {P : List σ → Prop} {s : List σ} {i : Nat}
    (h : ∀ t ∈ s.tails, P t ∨ t.length + i ≤ s.length) : ∀ j < i, P (s.drop j) := by
  intro j hj
  rcases h _ ((List.mem_tails _ _).mpr (List.drop_suffix j s)) with h | h
  · exact h
  · rw [List.length_drop] at h
    omega

theorem SettlesAt.unique {s : List σ} {i i' : Nat} {r r' : Option α}
    (h : SettlesAt window turn s i r) (h' : SettlesAt window turn s i' r') : i = i' ∧ r = r' := by
  have hi : i = i' := by
    rcases Nat.lt_trichotomy i i' with hlt | heq | hgt
    · have := h'.earlier i hlt
      rw [h.done] at this
      cases this
    · exact heq
    · have := h.earlier i' hgt
      rw [h'.done] at this
      cases this
  subst hi
  have := h.done.symm.trans h'.done
  cases this
  exact ⟨rfl, rfl⟩

/-! ### Searches that a front part decides

Only `t` is known of a string `t ++ r`. What the search does at the start of `t` may be the same for
every `r`, that it goes on (`Skipped`) or that it stops with one answer (`Decided`), or it may be
open to `r` (`Free`, `Open`). -/

/-- At the start of `t` the search goes on, whatever follows `t`. -/
def Skipped (turn : List σ → Turn α) (t : List σ) : Prop := ∀ r, turn (t ++ r) = .next

/-- At the start of `t` the search stops, with an answer that does not depend on what follows
`t`. -/
def Decided (turn : List σ → Turn α) (t : List σ) : Prop := ∃ res, ∀ r, turn (t ++ r) = .done res

/-- At the start of `t` the search stops with one thing or with another, depending on what
follows `t`. -/
def Free (turn : List σ → Turn α) (t : List σ) : Prop :=
  ∃ r r' a a', a ≠ a' ∧ turn (t ++ r) = .done (some a) ∧ turn (t ++ r') = .done (some a')

/-- At the start of `t` the search can be made to stop with every answer in `A`, by what follows
`t`. -/
def Open (turn : List σ → Turn α) (A : α → Prop) (t : List σ) : Prop :=
  ∀ a, A a → ∃ r, turn (t ++ r) = .done (some a)

/-- The first place of `t` at which the search need not go on decides it, inside `t`. -/
def Settled (turn : List σ → Turn α) (t : List σ) : Prop :=
  ∃ pre u, t = pre ++ u ∧ (∀ j < pre.length, Skipped turn (pre.drop j ++ u)) ∧ Decided turn u

/-- The result of the search does not depend on what follows `t`. -/
def Determined (window : Nat) (turn : List σ → Turn α) (t : List σ) : Prop :=
  ∃ res, ∀ r, scan window turn (t ++ r) = res

/-- An answer `turn` gives on a suffix that is too short to be looked at is the answer of a
search that gives up. -/
def Bounded (window : Nat) (turn : List σ → Turn α) : Prop :=
  ∀ s r, turn s = .done r → s.length ≤ window → r = none

/-- Behind places that are skipped, a stop is the result of the search. -/
theorem scan_append_of_done (hb : Bounded window turn) {pre u r : List σ} {res : Option α}
    (hskip : ∀ j < pre.length, Skipped turn (pre.drop j ++ u)) (h : turn (u ++ r) = .done res) :
    scan window turn (pre ++ u ++ r) = res := by
  rw [List.append_assoc, scan_append_of_next fun j hj => by
    rw [← List.append_assoc]; exact hskip j hj r]
  by_cases hlen : window < (u ++ r).length
  · exact scan_of_done hlen h
  · rw [hb _ _ h (by omega), scan_of_length_le (by omega)]

theorem Decided.not_skipped {t : List σ} (h : Decided turn t) : ¬ Skipped turn t := by
  obtain ⟨res, hres⟩ := h
  intro hskip
  cases (hskip []).symm.trans (hres [])

theorem Free.not_skipped {t : List σ} (h : Free turn t) : ¬ Skipped turn t := by
  obtain ⟨r, -, a, -, -, hr, -⟩ := h
  intro hskip
  cases (hskip r).symm.trans hr

theorem Decided.not_free {t : List σ} (h : Decided turn t) : ¬ Free turn t := by
  obtain ⟨res, hres⟩ := h
  rintro ⟨r, r', a, a', hne, hr, hr'⟩
  have hsome : some a = some a' :=
    (Turn.done.inj (hr.symm.trans (hres r))).trans (Turn.done.inj (hr'.symm.trans (hres r'))).symm
  exact hne (Option.some.inj hsome)

theorem Open.free {A : α → Prop} {t : List σ} {a a' : α} (h : Open turn A t) (ha : A a)
    (ha' : A a') (hne : a ≠ a') : Free turn t := by
  obtain ⟨r, hr⟩ := h a ha
  obtain ⟨r', hr'⟩ := h a' ha'
  exact ⟨r, r', a, a', hne, hr, hr'⟩

theorem Settled.determined (hb : Bounded window turn) {t : List σ} (h : Settled turn t) :
    Determined window turn t := by
  obtain ⟨pre, u, rfl, hskip, res, hdone⟩ := h
  exact ⟨res, fun r => scan_append_of_done hb hskip (hdone r)⟩

/-- What is settled, said of the strings themselves: if `Stops` decides the search and what `Ends`
leaves it free, and it is skipped everywhere else, then it is settled exactly when a place that
`Stops` comes, and none that `Ends` comes before it. -/
theorem settled_iff_exists {Stops Ends : List σ → Prop} (hstops : ∀ u, Stops u → Decided turn u)
    (hends : ∀ u, Ends u → Free turn u)
    (hskip : ∀ u, Stops u ∨ Ends u ∨ Skipped turn u) {t : List σ} :
    Settled turn t ↔ ∃ k, Stops (t.drop k) ∧ ∀ j < k, ¬ Ends (t.drop j) := by
  constructor
  · rintro ⟨pre, u, rfl, hpre, hu⟩
    refine ⟨pre.length, ?_, ?_⟩
    · rw [List.drop_left]
      rcases hskip u with h | h | h
      · exact h
      · exact absurd (hends u h) hu.not_free
      · exact absurd h hu.not_skipped
    · intro j hj h
      rw [List.drop_append_of_le_length hj.le] at h
      exact (hends _ h).not_skipped (hpre j hj)
  · rintro ⟨k, hk, hbefore⟩
    classical
    -- The first place that stops the search settles it.
    have hex : ∃ k, Stops (t.drop k) := ⟨k, hk⟩
    obtain ⟨first, hfirst, hmin, hle⟩ : ∃ i, Stops (t.drop i) ∧ (∀ j < i, ¬ Stops (t.drop j)) ∧
        i ≤ k :=
      ⟨Nat.find hex, Nat.find_spec hex, fun j hj => Nat.find_min hex hj, Nat.find_min' hex hk⟩
    refine ⟨t.take first, t.drop first, (List.take_append_drop first t).symm, ?_,
      hstops _ hfirst⟩
    intro j hj
    have hj : j < first := by
      rw [List.length_take] at hj
      omega
    rw [drop_take_append_drop hj.le]
    rcases hskip (t.drop j) with h | h | h
    · exact absurd h (hmin j hj)
    · exact absurd h (hbefore j (by omega))
    · exact h

/-- Every string is skipped throughout, or has a first place at which the search need not go
on. -/
theorem skipped_or_first (turn : List σ → Turn α) (t : List σ) :
    (∀ j < t.length, Skipped turn (t.drop j)) ∨
      ∃ pre u, t = pre ++ u ∧ u ≠ [] ∧ (∀ j < pre.length, Skipped turn (pre.drop j ++ u)) ∧
        ¬ Skipped turn u := by
  induction t with
  | nil => exact .inl fun j hj => absurd hj (Nat.not_lt_zero j)
  | cons b t ih =>
      by_cases hb : Skipped turn (b :: t)
      · rcases ih with hall | ⟨pre, u, rfl, hne, hskip, hu⟩
        · left
          intro j hj
          cases j with
          | zero => exact hb
          | succ j => exact hall j (by simpa using hj)
        · refine .inr ⟨b :: pre, u, rfl, hne, ?_, hu⟩
          intro j hj
          cases j with
          | zero => exact hb
          | succ j => exact hskip j (by simpa using hj)
      · exact .inr ⟨[], b :: t, rfl, by simp, fun j hj => absurd hj (Nat.not_lt_zero j), hb⟩

/-- The result of a search is independent of what follows `t` exactly when `t` settles it, if
`turn` is skipped, decided or free on every string, and finds something in some string. -/
theorem determined_iff_settled (hb : Bounded window turn)
    (hturn : ∀ u, u ≠ [] → Skipped turn u ∨ Decided turn u ∨ Free turn u)
    (hfind : ∃ s a, scan window turn s = some a) {t : List σ} :
    Determined window turn t ↔ Settled turn t := by
  refine ⟨?_, fun h => h.determined hb⟩
  rintro ⟨res, hres⟩
  rcases skipped_or_first turn t with hall | ⟨pre, u, rfl, hne, hskip, hu⟩
  · -- Nothing in `t` stops the search, so it finds whatever follows.
    have hrest : ∀ r, scan window turn (t ++ r) = scan window turn r := fun r =>
      scan_append_of_next fun j hj => hall j hj r
    obtain ⟨s, a, hs⟩ := hfind
    have hnone := (hrest []).symm.trans (hres [])
    have hsome := (hrest s).symm.trans (hres s)
    rw [hs, ← hnone] at hsome
    cases hsome
  · rcases hturn u hne with h | h | ⟨r, r', a, a', hne', hr, hr'⟩
    · exact absurd h hu
    · exact ⟨pre, u, rfl, hskip, h⟩
    · -- Two continuations stop the search at `u` with different answers.
      have h1 := (hres r).symm.trans (scan_append_of_done hb hskip hr)
      have h2 := (hres r').symm.trans (scan_append_of_done hb hskip hr')
      exact absurd (Option.some.inj (h1.symm.trans h2)) hne'

/-! ### Searching for a pattern

A search for a pattern goes on wherever the pattern does not stand, so that only what comes behind
it is left to look at. -/

section Pattern

variable [DecidableEq σ] {pat : List σ} {after : List σ → Turn α}

/-- The turn of a search for `pat`, which looks at what comes after each occurrence. -/
def atPattern (pat : List σ) (after : List σ → Turn α) (s : List σ) : Turn α :=
  if ¬ pat <+: s then .next else after (s.drop pat.length)

theorem atPattern_eq_next {s : List σ} (h : ¬ pat <+: s) : atPattern pat after s = .next :=
  if_pos h

theorem atPattern_append (t : List σ) : atPattern pat after (pat ++ t) = after t := by
  rw [atPattern, if_neg (not_not.mpr (List.prefix_append pat t)), List.drop_left]

theorem atPattern_eq_done {s : List σ} {r : Option α} (h : atPattern pat after s = .done r) :
    ∃ t, s = pat ++ t ∧ after t = .done r := by
  by_cases hp : pat <+: s
  · obtain ⟨t, rfl⟩ := hp
    exact ⟨t, rfl, by rwa [atPattern_append] at h⟩
  · rw [atPattern_eq_next hp] at h
    cases h

theorem bounded_atPattern (h0 : after [] = .done none) :
    Bounded pat.length (atPattern pat after) := by
  intro s r h hlen
  obtain ⟨t, rfl, ht⟩ := atPattern_eq_done h
  obtain rfl : t = [] := List.eq_nil_of_length_eq_zero (by rw [List.length_append] at hlen; omega)
  rw [h0] at ht
  cases ht
  rfl

/-- Where the pattern can no longer be found, the search goes on. -/
theorem skipped_or_prefix (pat : List σ) (after : List σ → Turn α) (u : List σ) :
    Skipped (atPattern pat after) u ∨ u <+: pat ∨ ∃ t, u = pat ++ t := by
  by_cases hp : pat <+: u
  · obtain ⟨t, rfl⟩ := hp
    exact .inr (.inr ⟨t, rfl⟩)
  · by_cases hu : u <+: pat
    · exact .inr (.inl hu)
    · left
      intro r
      apply atPattern_eq_next
      intro h
      rcases List.prefix_or_prefix_of_prefix h (List.prefix_append u r) with h | h
      · exact hp h
      · exact hu h

end Pattern

end Search
