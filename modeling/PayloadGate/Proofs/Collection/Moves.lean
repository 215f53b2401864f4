import PayloadGate.Collection

/-! # What can happen to a collection

What a step of a collection keeps is read off one list, which holds all that can happen.

* **`RetryPolicy.judge_cases`** — what follows an attempt.
* **`Collection.Moves`**, **`Collection.step_eq_some_iff`** — the steps of a collection. -/

namespace PayloadGate

variable {α : Type}

/-! ## Attempts -/

namespace RetryPolicy

variable {job : String} {spare more : Nat} {o : Outcome}

/-- **What follows an attempt** with the outcome `o`: it is the answer itself, or it counts as a failure `f`. -/
theorem judge_cases (job : String) (spare : Nat) (o : Outcome) :
    judge job spare o = .answer o ∨ ∃ f, judge job spare o = afterFailure spare f := by
  cases o with
  | ok runs =>
    cases runs with
    | nil => exact .inr ⟨_, judge_ok_nil job spare⟩
    | cons r rs => exact .inl (judge_ok_cons job spare r rs)
  | error f =>
    by_cases hf : f.isRetryable = true
    · exact .inr ⟨f, by rw [judge, if_pos hf]⟩
    · exact .inl (judge_error_of_not_isRetryable job spare (Bool.eq_false_iff.2 hf))

/-- **Another attempt uses up one of the failures that may follow**: `spare = more + 1`. -/
theorem eq_of_judge_eq_again (h : judge job spare o = .again more) : spare = more + 1 := by
  rcases judge_cases job spare o with ho | ⟨f, hf⟩
  · exact absurd (ho.symm.trans h) (by simp)
  · rw [hf] at h
    cases spare with
    | zero => exact absurd h (by simp [afterFailure])
    | succ n => rw [← AfterAttempt.again.inj h]

/-- **Runs are the answer only to an attempt that has found them**: `o = .ok runs`. -/
theorem eq_ok_of_judge {runs : List JobRun} (h : judge job spare o = .answer (.ok runs)) : o = .ok runs := by
  rcases judge_cases job spare o with ho | ⟨f, hf⟩
  · exact AfterAttempt.answer.inj (ho.symm.trans h)
  · rw [hf] at h
    cases spare with
    | zero => exact absurd (AfterAttempt.answer.inj h) (by simp)
    | succ n => exact absurd h (by simp [afterFailure])

end RetryPolicy

namespace Collection

variable {c c' : Collection α} {e : Event α}

/-! ## The steps -/

/-- **The steps of a collection.** `Moves c e c'` has one constructor for each kind of event and each thing that may
come of it. -/
inductive Moves (c : Collection α) : Event α → Collection α → Prop where
  /-- The signal is given. -/
  | cancel : Moves c .cancel { c with cancelled := true }
  /-- A worker gets a permit. -/
  | begun {i : Nat} {w : Worker α} {attempt : α} (hw : c.workers[i]? = some w)
      (hs : w.stage = .queued) (hpermit : c.active < c.permits) :
      Moves c (.begin i attempt)
        (c.put i { w with attempts := w.attempts + 1, stage := .attempting attempt })
  /-- The attempt of a worker gets on. -/
  | advanced {i : Nat} {w : Worker α} {old attempt : α} (hw : c.workers[i]? = some w)
      (hs : w.stage = .attempting old) :
      Moves c (.advance i attempt) (c.put i { w with stage := .attempting attempt })
  /-- The attempt of a worker is its last one. -/
  | answered {i : Nat} {w : Worker α} {attempt : α} {o answer : Outcome}
      (hw : c.workers[i]? = some w) (hs : w.stage = .attempting attempt)
      (hj : RetryPolicy.judge w.job w.spare o = .answer answer) :
      Moves c (.outcome i o) (c.finish i w answer)
  /-- The attempt of a worker has failed, and there will be another one. -/
  | failed {i : Nat} {w : Worker α} {attempt : α} {o : Outcome} {spare : Nat}
      (hw : c.workers[i]? = some w) (hs : w.stage = .attempting attempt)
      (hj : RetryPolicy.judge w.job w.spare o = .again spare) :
      Moves c (.outcome i o) (c.put i { w with spare := spare, stage := .pausing })
  /-- A worker begins its next attempt. -/
  | resumed {i : Nat} {w : Worker α} {attempt : α} (hw : c.workers[i]? = some w)
      (hs : w.stage = .pausing) :
      Moves c (.resume i attempt)
        (c.put i { w with attempts := w.attempts + 1, stage := .attempting attempt })
  /-- A worker notices the signal. -/
  | noticed {i : Nat} {w : Worker α} (hw : c.workers[i]? = some w) (hc : c.cancelled = true)
      (ha : w.isActive = true) :
      Moves c (.notice i) (c.finish i w (.error (RetryPolicy.cancellation w.job)))

/-- Each step of the list is a step of the collection: `Moves c e c'` gives `c.step e = some c'`. -/
theorem step_of_moves (h : Moves c e c') : c.step e = some c' := by
  unfold Collection.step
  cases h with
  | cancel => rfl
  | begun hw hs hpermit => simp only [hw, hs, hpermit, Option.bind_eq_bind, Option.bind_some, if_true]
  | advanced hw hs => simp only [hw, hs, Option.bind_eq_bind, Option.bind_some]
  | answered hw hs hj => simp only [hw, hs, hj, Option.bind_eq_bind, Option.bind_some]
  | failed hw hs hj => simp only [hw, hs, hj, Option.bind_eq_bind, Option.bind_some]
  | resumed hw hs => simp only [hw, hs, Option.bind_eq_bind, Option.bind_some]
  | noticed hw hc ha =>
    simp only [hw, hc, ha, Bool.and_self, Option.bind_eq_bind, Option.bind_some, if_true]

/-- **Each step of a collection is one of the list**: `c.step e = some c'` gives `Moves c e c'`. -/
theorem moves_of_step (h : c.step e = some c') : Moves c e c' := by
  unfold Collection.step at h
  cases e with
  | cancel =>
    -- the signal may be given at any time
    obtain rfl := Option.some.inj h
    exact .cancel
  | begin i attempt =>
    obtain ⟨w, hw, h⟩ := Option.bind_eq_some_iff.1 h
    cases hs : w.stage with
    | queued =>
      simp only [hs] at h
      by_cases hpermit : c.active < c.permits
      · rw [if_pos hpermit] at h
        obtain rfl := Option.some.inj h
        exact .begun hw hs hpermit
      · rw [if_neg hpermit] at h
        exact absurd h (by simp)
    | _ =>
      simp only [hs] at h
      exact absurd h (by simp)
  | advance i attempt =>
    obtain ⟨w, hw, h⟩ := Option.bind_eq_some_iff.1 h
    cases hs : w.stage with
    | attempting old =>
      simp only [hs] at h
      obtain rfl := Option.some.inj h
      exact .advanced hw hs
    | _ =>
      simp only [hs] at h
      exact absurd h (by simp)
  | outcome i o =>
    obtain ⟨w, hw, h⟩ := Option.bind_eq_some_iff.1 h
    cases hs : w.stage with
    | attempting attempt =>
      cases hj : RetryPolicy.judge w.job w.spare o with
      | answer answer =>
        simp only [hs, hj] at h
        obtain rfl := Option.some.inj h
        exact .answered hw hs hj
      | again spare =>
        simp only [hs, hj] at h
        obtain rfl := Option.some.inj h
        exact .failed hw hs hj
    | _ =>
      simp only [hs] at h
      exact absurd h (by simp)
  | resume i attempt =>
    obtain ⟨w, hw, h⟩ := Option.bind_eq_some_iff.1 h
    cases hs : w.stage with
    | pausing =>
      simp only [hs] at h
      obtain rfl := Option.some.inj h
      exact .resumed hw hs
    | _ =>
      simp only [hs] at h
      exact absurd h (by simp)
  | notice i =>
    obtain ⟨w, hw, h⟩ := Option.bind_eq_some_iff.1 h
    by_cases hc : (c.cancelled && w.isActive) = true
    · simp only [hc, if_true] at h
      obtain rfl := Option.some.inj h
      rw [Bool.and_eq_true] at hc
      exact .noticed hw hc.1 hc.2
    · simp only [Bool.eq_false_iff.2 hc] at h
      exact absurd h (by simp)

/-- **These are all the steps of a collection**: `c.step e = some c' ↔ Moves c e c'`. -/
theorem step_eq_some_iff : c.step e = some c' ↔ Moves c e c' := ⟨moves_of_step, step_of_moves⟩

end Collection

end PayloadGate
