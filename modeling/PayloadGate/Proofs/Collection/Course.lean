import PayloadGate.Proofs.Collection.Ledger
import PayloadGate.Proofs.System.Course
import Mathlib.Algebra.Ring.Nat

/-! # A collection comes to its end

The attempts of a collection are left open, and so is how long they get on. As long as something other than their
progress happens from time to time, the collection comes to its end.

* **`Collection.weight`** — the steps that the workers have ahead; **`Collection.weight_lt_of_step`** lets it fall.
* **`Collection.exists_ready`** — as long as a worker has not finished, one can go on. -/

namespace PayloadGate

/-! ## The steps ahead -/

/-- The steps that a worker has ahead, at most: an attempt and a pause for each of the `spare` failures that may follow,
and what it is at now. -/
def Worker.weight {α : Type} (w : Worker α) : Nat :=
  match w.stage with
  | .queued | .pausing => 2 * w.spare + 3
  | .attempting _ => 2 * w.spare + 2
  | .finished => 0

/-- A worker that has not finished has a step ahead: `0 < w.weight`. -/
theorem Worker.weight_pos {α : Type} {w : Worker α} (h : w.isFinished = false) : 0 < w.weight := by
  rw [Worker.isFinished] at h
  rw [Worker.weight]
  cases hs : w.stage with
  | finished =>
    rw [hs] at h
    exact absurd h (by simp)
  | _ => exact Nat.succ_pos _

namespace Collection

variable {α : Type} {c c' : Collection α} {e : Event α} {i : Nat} {w w' : Worker α}

/-- Whether an event is only the progress of an attempt, `advance`, or the signal. -/
def Event.isIdle : Event α → Bool
  | .advance _ _ | .cancel => true
  | _ => false

/-- **The steps that the workers have ahead**, at most: the sum of their weights. -/
def weight (c : Collection α) : Nat := (c.workers.map Worker.weight).sum

/-- The weight when `w` is replaced by `w'`: equal sums, without a subtraction. -/
theorem sum_weight_set {ws : List (Worker α)} (h : ws[i]? = some w) (w' : Worker α) :
    ((ws.set i w').map Worker.weight).sum + w.weight = (ws.map Worker.weight).sum + w'.weight := by
  induction ws generalizing i with
  | nil => exact absurd h (by simp)
  | cons v ws ih =>
    cases i with
    | zero =>
      obtain rfl : v = w := Option.some.inj h
      simp only [List.set_cons_zero, List.map_cons, List.sum_cons]
      omega
    | succ i =>
      have := ih (i := i) h
      simp only [List.set_cons_succ, List.map_cons, List.sum_cons]
      omega

/-- A worker `w'` that has less ahead than `w` makes the weight of the collection fall. -/
theorem weight_put_lt (h : c.workers[i]? = some w) (hlt : w'.weight < w.weight) :
    (c.put i w').weight < c.weight := by
  have := sum_weight_set h w'
  simp only [weight, put]
  omega

/-- A worker that finishes makes the weight fall, because it had a step ahead. -/
theorem weight_finish_lt (h : c.workers[i]? = some w) (hlive : w.isFinished = false)
    (answer : Outcome) : (c.finish i w answer).weight < c.weight :=
  show (c.put i { w with stage := .finished }).weight < c.weight from weight_put_lt h (Worker.weight_pos hlive)

/-- **Each step lets the weight fall**, those of `isIdle` apart. One case for each constructor of `Moves`. -/
theorem weight_lt_of_step (h : c.step e = some c') (he : e.isIdle = false) :
    c'.weight < c.weight := by
  cases moves_of_step h with
  | cancel => exact absurd he (by simp [Event.isIdle])
  | advanced hw hs => exact absurd he (by simp [Event.isIdle])
  | begun hw hs => exact weight_put_lt hw (by simp [Worker.weight, hs])
  | answered hw hs => exact weight_finish_lt hw (by rw [Worker.isFinished, hs]) _
  | failed hw hs hj =>
    refine weight_put_lt hw ?_
    -- one failure less may follow
    rw [Worker.weight, Worker.weight, hs]
    have := RetryPolicy.eq_of_judge_eq_again hj
    dsimp only
    omega
  | resumed hw hs => exact weight_put_lt hw (by simp [Worker.weight, hs])
  | noticed hw hc ha => exact weight_finish_lt hw (not_isFinished_of_isActive ha) _

/-- The progress of attempts and the signal keep the weight. -/
theorem weight_eq_of_isIdle (h : c.step e = some c') (he : e.isIdle = true) :
    c'.weight = c.weight := by
  cases moves_of_step h with
  | cancel => rfl
  | @advanced i w old attempt hw hs =>
    have := sum_weight_set hw { w with stage := .attempting attempt }
    have hsame : ({ w with stage := .attempting attempt } : Worker α).weight = w.weight := by
      rw [Worker.weight, Worker.weight, hs]
    simp only [weight, put]
    omega
  | _ => exact absurd he (by simp [Event.isIdle])

/-- The progress of attempts and the signal finish no worker. -/
theorem all_isFinished_of_isIdle (h : c.step e = some c') (he : e.isIdle = true) :
    c'.workers.all Worker.isFinished = c.workers.all Worker.isFinished := by
  cases moves_of_step h with
  | cancel => rfl
  | @advanced i w old attempt hw hs =>
    -- there is a worker that has not finished before and after
    have hold : c.workers.all Worker.isFinished = false :=
      List.all_eq_false.2 ⟨w, List.mem_of_getElem? hw, by simp [Worker.isFinished, hs]⟩
    rw [hold, List.all_eq_false]
    exact ⟨_, List.mem_of_getElem? (get_set_self hw _), by simp [Worker.isFinished]⟩
  | _ => exact absurd he (by simp [Event.isIdle])

/-- The number of permits stays what it was at the start. -/
theorem permits_of_step (h : c.step e = some c') : c'.permits = c.permits := by
  cases moves_of_step h <;> rfl

/-- The signal cannot be taken back: `cancelled` stays true. -/
theorem cancelled_of_step (h : c.step e = some c') (hc : c.cancelled = true) :
    c'.cancelled = true := by
  cases moves_of_step h with
  | cancel => rfl
  | _ => exact hc

/-- **As long as a worker has not finished, one can go on**: one is at work, or one is `queued` and there is a permit
for it, `c.active < c.permits`. -/
theorem exists_ready (hpermits : 1 ≤ c.permits) (hall : c.workers.all Worker.isFinished = false) :
    (∃ (i : Nat) (w : Worker α), c.workers[i]? = some w ∧ w.isActive = true)
      ∨ ∃ (i : Nat) (w : Worker α), c.workers[i]? = some w ∧ w.stage = .queued ∧ c.active < c.permits := by
  by_cases hactive : c.active = 0
  · right
    obtain ⟨w, hw, hlive⟩ := List.all_eq_false.1 hall
    obtain ⟨i, hi⟩ := List.getElem?_of_mem hw
    have hidle : w.isActive = false := by
      rw [active, List.countP_eq_zero] at hactive
      exact Bool.eq_false_iff.2 (hactive w hw)
    refine ⟨i, w, hi, ?_, by omega⟩
    -- a worker that has not finished and is not at work waits
    cases hs : w.stage with
    | queued => rfl
    | attempting attempt => exact absurd hidle (by simp [Worker.isActive, hs])
    | pausing => exact absurd hidle (by simp [Worker.isActive, hs])
    | finished => exact absurd hlive (by simp [Worker.isFinished, hs])
  · left
    obtain ⟨w, hw, ha⟩ := List.countP_pos_iff.1 (Nat.pos_of_ne_zero hactive)
    obtain ⟨i, hi⟩ := List.getElem?_of_mem hw
    exact ⟨i, w, hi, ha⟩

end Collection

end PayloadGate
