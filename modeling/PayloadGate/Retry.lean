import PayloadGate.Search

/-! # Trying again

A search that fails, or finds nothing, is tried again after a pause, until too many attempts have failed.

* **`RetryPolicy`** — how often and after what pause; **`RetryPolicy.judge`** — what follows an attempt.
* **`RetryPolicy.play`** — the whole course of the attempts for one job, with the times at which they end. -/

namespace PayloadGate

/-- **How a search is tried again**: how many failures may follow the first attempt, and the pause between two
attempts. -/
structure RetryPolicy where
  /-- The number of failures after which it still is. -/
  maxFailures : Nat
  /-- The pause before, in milliseconds. -/
  interval : Nat
  deriving DecidableEq

/-- What follows an attempt: an `answer`, or another attempt with so many failures that may still follow. -/
inductive AfterAttempt where
  /-- There will be no further attempt. -/
  | answer (outcome : Outcome)
  /-- After a pause comes another attempt, and then as many failures as told may follow. -/
  | again (spare : Nat)

namespace RetryPolicy

/-- What follows a failure, when `spare` more may still follow: another attempt, or the failure itself when there is
none left. -/
def afterFailure (spare : Nat) (f : Failure) : AfterAttempt :=
  match spare with
  | 0 => .answer (.error f)
  | more + 1 => .again more

/-- **What follows an attempt.** Runs are an answer, and so are a fatal failure and a cancellation, those that are not
`isRetryable`. Any other failure counts, and so does an attempt that found nothing, as `.noRunsYet job`. -/
def judge (job : String) (spare : Nat) : Outcome → AfterAttempt
  | .ok [] => afterFailure spare (.noRunsYet job)
  | .ok runs => .answer (.ok runs)
  | .error f => if f.isRetryable then afterFailure spare f else .answer (.error f)

/-- Runs are an answer, `.ok (r :: rs)`, whatever may still follow. -/
@[simp] theorem judge_ok_cons (job : String) (spare : Nat) (r : JobRun) (rs : List JobRun) :
    judge job spare (.ok (r :: rs)) = .answer (.ok (r :: rs)) := rfl

/-- An attempt that found nothing, `.ok []`, counts as the failure `.noRunsYet job`. -/
@[simp] theorem judge_ok_nil (job : String) (spare : Nat) :
    judge job spare (.ok []) = afterFailure spare (.noRunsYet job) := rfl

/-- A failure that is not `isRetryable` is an answer. -/
theorem judge_error_of_not_isRetryable (job : String) (spare : Nat) {f : Failure}
    (h : f.isRetryable = false) : judge job spare (.error f) = .answer (.error f) := by
  simp [judge, h]

/-- The failure of attempts that were cancelled. -/
def cancellation (job : String) : Failure := .cancelled ("search for job " ++ job ++ " cancelled")

/-- An attempt with the time it takes, in milliseconds; one that hangs takes forever. -/
structure TimedAttempt where
  /-- The time. -/
  duration : Option Nat
  /-- What comes out. -/
  outcome : Outcome

/-- How the attempts ended: with which outcome, how many there were, and when. -/
structure Played where
  /-- What came out. -/
  outcome : Outcome
  /-- The number of attempts that were begun. -/
  attempts : Nat
  /-- The time at the end. -/
  clock : Nat

/-- Whether the signal comes before the `ending` of something that is under way; what hangs has no ending, and any
signal comes before it. -/
def interrupts (cancelAt : Option Nat) (ending : Option Nat) : Bool :=
  match cancelAt, ending with
  | none, _ => false
  | some _, none => true
  | some c, some t => decide (c < t)

/-- The attempts from the one with the given `number` on, begun at the time `clock`, when `spare` failures may follow.
The recursion is on `spare`. -/
def playFrom (p : RetryPolicy) (job : String) (attempts : Nat → TimedAttempt)
    (cancelAt : Option Nat) (spare number clock : Nat) : Option Played :=
  let ending := (attempts number).duration.map (clock + ·)
  -- the signal comes during the attempt
  if interrupts cancelAt ending then
    some ⟨.error (cancellation job), number + 1, max clock (cancelAt.getD clock)⟩
  else match ending with
    -- the attempt hangs, and no signal ends it
    | none => none
    | some clock =>
      match judge job spare (attempts number).outcome, spare with
      | .answer outcome, _ => some ⟨outcome, number + 1, clock⟩
      -- unreachable: the last attempt is answered
      | .again _, 0 => none
      | .again _, more + 1 =>
        -- the signal comes during the pause
        if interrupts cancelAt (some (clock + p.interval)) then
          some ⟨.error (cancellation job), number + 1, max clock (cancelAt.getD clock)⟩
        else playFrom p job attempts cancelAt more (number + 1) (clock + p.interval)

/-- **The course of the attempts for one job**, when the signal is given at the time `cancelAt`. Without a signal, an
attempt that hangs has no end, and the result is `none`. -/
def play (p : RetryPolicy) (job : String) (attempts : Nat → TimedAttempt) (cancelAt : Option Nat) :
    Option Played :=
  playFrom p job attempts cancelAt p.maxFailures 0 0

end RetryPolicy

end PayloadGate
