import Mathlib.Algebra.BigOperators.Intervals

/-! # Rounds with a pause between them

A thing is tried in rounds. A round takes its time or hangs for ever, and when it has ended another one follows it
after a pause, or none does.

* **`Rounds.Begins`**, **`Rounds.Ends`** — the times at which the rounds begin and end, when nothing cuts them short.
* **`Rounds.begins_sum`** — these times in numbers.
* **`Rounds.begins_or_stops`** — a round begins, or an earlier one hangs or is the last;
  **`Rounds.exists_latest`** — the latest round of those that begin before a time. -/

namespace PayloadGate

/-- **Rounds with a pause between them**: how long each takes, `none` when it hangs, and whether another one follows. -/
structure Rounds where
  /-- The time a round takes. There is none when it hangs. -/
  span : Nat → Option Nat
  /-- Another round follows. -/
  goesOn : Nat → Prop
  /-- The pause. -/
  pause : Nat

namespace Rounds

variable {r : Rounds} {j k t s : Nat} {spans : Nat → Nat}

/-- **When a round begins**: the first one at `0`, and any other a pause behind the end of the one before. -/
inductive Begins (r : Rounds) : Nat → Nat → Prop where
  /-- The first one. -/
  | first : r.Begins 0 0
  /-- The next one. -/
  | next {k t s : Nat} (h : r.Begins k t) (hspan : r.span k = some s) (hon : r.goesOn k) :
      r.Begins (k + 1) (t + s + r.pause)

/-- **When a round ends**: by its `span` behind its begin; one that hangs does not. -/
def Ends (r : Rounds) (k t : Nat) : Prop := ∃ u s, r.Begins k u ∧ r.span k = some s ∧ t = u + s

/-- The end of a round that has begun at `t` and does not hang: `t + s`. -/
theorem Begins.ends (h : r.Begins k t) (hspan : r.span k = some s) : r.Ends k (t + s) := ⟨t, s, h, hspan, rfl⟩

/-! ## The order of the rounds -/

/-- The earlier rounds `j < k` have ended by a pause before `t`, and another one followed. -/
theorem Begins.of_lt (h : r.Begins k t) (hj : j < k) : r.goesOn j ∧ ∃ u, r.Ends j u ∧ u + r.pause ≤ t := by
  induction h with
  | first => exact absurd hj (Nat.not_lt_zero j)
  | @next k t s h hspan hon ih =>
    rcases Nat.lt_or_eq_of_le (Nat.le_of_lt_succ hj) with hlt | rfl
    · obtain ⟨hgo, u, hu, hle⟩ := ih hlt
      exact ⟨hgo, u, hu, by omega⟩
    · exact ⟨hon, t + s, h.ends hspan, Nat.le_refl _⟩

/-- **The earlier rounds have begun earlier**: each `j ≤ k` at some `u ≤ t`. -/
theorem Begins.exists_of_le (h : r.Begins k t) (hj : j ≤ k) : ∃ u ≤ t, r.Begins j u := by
  rcases Nat.lt_or_eq_of_le hj with hlt | rfl
  · obtain ⟨-, _, ⟨u, s, hu, -, rfl⟩, hle⟩ := h.of_lt hlt
    exact ⟨u, by omega, hu⟩
  · exact ⟨t, Nat.le_refl t, h⟩

/-- No round begins behind one that is the last: `k ≤ j`. -/
theorem Begins.le_of_not_goesOn (h : r.Begins k t) (hlast : ¬ r.goesOn j) : k ≤ j := by
  by_contra hlt
  exact hlast (h.of_lt (Nat.lt_of_not_le hlt)).1

/-- No round begins behind one that hangs: `k ≤ j`. -/
theorem Begins.le_of_hangs (h : r.Begins k t) (hhangs : r.span j = none) : k ≤ j := by
  by_contra hlt
  obtain ⟨-, _, ⟨u, s, -, hspan, -⟩, -⟩ := h.of_lt (Nat.lt_of_not_le hlt)
  exact Option.some_ne_none s (hspan.symm.trans hhangs)

/-! ## The times in numbers -/

/-- **When a round begins**: when all earlier ones have taken their time, with a pause behind each of them,
`∑ j < k, spans j + k * r.pause`. -/
theorem begins_sum (hspan : ∀ j < k, r.span j = some (spans j)) (hon : ∀ j < k, r.goesOn j) :
    r.Begins k (∑ j ∈ Finset.range k, spans j + k * r.pause) := by
  induction k with
  | zero => simpa using Begins.first
  | succ k ih =>
    have hk := ih (fun j hj => hspan j (Nat.lt_succ_of_lt hj)) fun j hj => hon j (Nat.lt_succ_of_lt hj)
    have hnext := hk.next (hspan k k.lt_succ_self) (hon k k.lt_succ_self)
    rwa [Nat.add_right_comm _ _ (spans k), ← Finset.sum_range_succ, Nat.add_assoc _ _ r.pause,
      ← Nat.succ_mul] at hnext

/-- **When a round ends**: when it and all earlier ones have taken their time, with a pause between any two of them,
`∑ j ≤ k, spans j + k * r.pause`. -/
theorem ends_sum (hspan : ∀ j ≤ k, r.span j = some (spans j)) (hon : ∀ j < k, r.goesOn j) :
    r.Ends k (∑ j ∈ Finset.range (k + 1), spans j + k * r.pause) := by
  have hends := (begins_sum (fun j hj => hspan j hj.le) hon).ends (hspan k (Nat.le_refl k))
  rwa [Nat.add_right_comm, ← Finset.sum_range_succ] at hends

/-! ## How far the rounds come -/

/-- **Each round begins, unless an earlier one hangs or is the last.** By induction on its number `m`. -/
theorem begins_or_stops (r : Rounds) (m : Nat) :
    (∃ t, r.Begins m t) ∨ (∃ k < m, ∃ t, r.Begins k t ∧ r.span k = none) ∨ ∃ k < m, ∃ t, r.Ends k t ∧ ¬ r.goesOn k := by
  induction m with
  | zero => exact .inl ⟨0, .first⟩
  | succ m ih =>
    rcases ih with ⟨t, hm⟩ | ⟨k, hk, hhangs⟩ | ⟨k, hk, hstops⟩
    · cases hspan : r.span m with
      | none => exact .inr (.inl ⟨m, m.lt_succ_self, t, hm, hspan⟩)
      | some s =>
        by_cases hon : r.goesOn m
        · exact .inl ⟨_, hm.next hspan hon⟩
        · exact .inr (.inr ⟨m, m.lt_succ_self, t + s, hm.ends hspan, hon⟩)
    · exact .inr (.inl ⟨k, Nat.lt_succ_of_lt hk, hhangs⟩)
    · exact .inr (.inr ⟨k, Nat.lt_succ_of_lt hk, hstops⟩)

/-- **There is a latest round** `k` of those that begin before the time `c`, when none has a number greater than `m`. -/
theorem exists_latest (r : Rounds) {m c : Nat} (hbound : ∀ k t, r.Begins k t → k ≤ m) (hc : 0 < c) :
    ∃ k t, r.Begins k t ∧ t < c ∧ ∀ u, r.Begins (k + 1) u → c ≤ u := by
  classical
  let P (k : Nat) : Prop := ∃ t, r.Begins k t ∧ t < c
  -- `c` is behind the first round, so one of the numbers up to `m` has the property
  obtain ⟨t, hk, ht⟩ : P (Nat.findGreatest P m) := Nat.findGreatest_spec (Nat.zero_le m) ⟨0, .first, hc⟩
  refine ⟨_, t, hk, ht, fun u hu => ?_⟩
  by_contra hlt
  have := Nat.le_findGreatest (P := P) (hbound _ u hu) ⟨u, hu, Nat.lt_of_not_le hlt⟩
  omega

/-- The rounds that begin before `c` are those up to the latest of them, `k`. -/
theorem Begins.lt_succ_iff {c : Nat} (h : r.Begins k t) (ht : t < c) (hnext : ∀ u, r.Begins (k + 1) u → c ≤ u) :
    j < k + 1 ↔ ∃ u < c, r.Begins j u := by
  constructor
  · intro hj
    obtain ⟨u, hu, hbegins⟩ := h.exists_of_le (Nat.le_of_lt_succ hj)
    exact ⟨u, Nat.lt_of_le_of_lt hu ht, hbegins⟩
  · rintro ⟨u, hu, hbegins⟩
    -- a round behind the latest would begin at `c` or later
    by_contra hlt
    obtain ⟨v, hv, hlater⟩ := hbegins.exists_of_le (Nat.le_of_not_lt hlt)
    have := hnext v hlater
    omega

end Rounds

end PayloadGate
