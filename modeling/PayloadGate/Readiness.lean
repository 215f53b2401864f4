import PayloadGate.Search

/-! # Waiting for runs

* **`waitUntil`** — the wait for the time from which on the lists of runs can be complete.
* **`judgePoll`** — whether the runs found so far are enough: they are when all are finished, or when it is too late to
  wait for the others.
* **`coursePolls`** — the whole course of polls, with the time at its end. -/

namespace PayloadGate

open Time (Instant)

/-- The failure of a wait for the time `ready` that was cancelled. -/
def waitCancellation (ready : Instant) : Failure :=
  .cancelled ("wait until " ++ ready.spokenStamp ++ " cancelled")

/-- **The wait for the time `ready`**, begun at `now`, when the signal is given after some milliseconds: it is cancelled
when the signal comes first. -/
def waitUntil (ready now : Instant) (cancelAfter : Option Nat) : Except Failure Unit :=
  match cancelAfter with
  | none => .ok ()
  | some ms => if Time.milliseconds ms < ready.since now then .error (waitCancellation ready) else .ok ()

/-- What follows a poll: a failure, runs that are taken, or another poll. -/
inductive AfterPoll where
  /-- A failure. -/
  | fail (f : Failure)
  /-- The runs are taken as they are, the finished ones apart from the others. -/
  | take (finished unfinished : List JobRun)
  /-- After a pause comes another poll. -/
  | again

/-- **What follows a poll that found `runs`**, when the clock shows `now`: they are taken, the finished ones apart from
the others, when all are finished or `stop < now`. -/
def judgeRuns (stop now : Instant) (runs : List JobRun) (isFinished : JobRun → Bool := JobRun.isFinished) : AfterPoll :=
  if runs.isEmpty then .fail .noRelatedJobs
  else
    let (finished, unfinished) := runs.partition isFinished
    -- once the time to wait is over, unfinished runs are taken, too
    if unfinished.isEmpty || decide (stop < now) then .take finished unfinished else .again

/-- **What follows a poll** with the `outcome`: its failure, or what `judgeRuns` makes of its runs. -/
def judgePoll (stop now : Instant) (outcome : Outcome) (isFinished : JobRun → Bool := JobRun.isFinished) : AfterPoll :=
  match outcome with
  | .error f => .fail f
  | .ok runs => judgeRuns stop now runs isFinished

/-- No runs are the failure `.noRelatedJobs`. -/
@[simp] theorem judgeRuns_nil (stop now : Instant) (isFinished : JobRun → Bool) :
    judgeRuns stop now [] isFinished = .fail .noRelatedJobs := rfl

/-- **Runs that are all finished, or that come too late** (`stop < now`), are taken. -/
theorem judgeRuns_of_done {stop now : Instant} {runs : List JobRun} {isFinished : JobRun → Bool} (hruns : runs ≠ [])
    (h : runs.filter (!isFinished ·) = [] ∨ stop < now) :
    judgeRuns stop now runs isFinished = .take (runs.filter isFinished) (runs.filter (!isFinished ·)) := by
  have hnot : runs.filter (not ∘ isFinished) = runs.filter (!isFinished ·) := rfl
  rw [judgeRuns, if_neg (by simpa using hruns), List.partition_eq_filter_filter, hnot]
  rcases h with h | h
  · rw [h]
    rfl
  · simp only [h, decide_true, Bool.or_true, if_true]

/-- **Runs that are not all finished are polled again** while there is time, `¬ stop < now`. -/
theorem judgeRuns_of_running {stop now : Instant} {runs : List JobRun} {isFinished : JobRun → Bool}
    (hrunning : runs.filter (!isFinished ·) ≠ []) (hearly : ¬ stop < now) :
    judgeRuns stop now runs isFinished = .again := by
  have hruns : runs ≠ [] := by
    rintro rfl
    exact hrunning rfl
  have hunfinished : (runs.filter (not ∘ isFinished)).isEmpty = false := List.isEmpty_eq_false_iff.2 hrunning
  rw [judgeRuns, if_neg (by simpa using hruns), List.partition_eq_filter_filter]
  simp only [hunfinished, hearly, decide_false, Bool.or_self, Bool.false_eq_true, if_false]

/-- The failure of a pause between polls that was cancelled. -/
def pollCancellation : Failure := .cancelled "waiting for job runs cancelled"

/-! ## The course of polls -/

/-- A poll with the time it takes, in milliseconds. One that hangs ends only with the signal. -/
structure TimedPoll where
  /-- The time. -/
  duration : Option Nat
  /-- What comes out; of a poll that hangs, what it answers to the signal. -/
  outcome : Outcome

/-- **When a poll ends** that is begun at the time `clock`: after its time, and when it hangs with the signal. -/
def TimedPoll.ending? (poll : TimedPoll) (cancelAt : Option Nat) (clock : Nat) : Option Nat :=
  match poll.duration with
  | some span => some (clock + span)
  | none => cancelAt.map (max clock)

/-- How the polls ended. -/
structure PlayedPolls where
  /-- The runs, the finished ones apart from the others. -/
  outcome : Except Failure (List JobRun × List JobRun)
  /-- The number of polls. -/
  polls : Nat
  /-- The time at the end. -/
  clock : Nat

/-- **The course of the polls** from the one with the given number on, begun at the given time, when the signal is given
at a time. Behind each poll the clock is read. There is no answer when more than `most` polls are needed, or when one
hangs and no signal is given. -/
def coursePolls (isFinished : JobRun → Bool) (stop : Instant) (readings : Nat → Instant) (interval : Nat)
    (polls : Nat → TimedPoll) (cancelAt : Option Nat) : Nat → Nat → Nat → Option PlayedPolls
  | 0, _, _ => none
  | most + 1, number, clock =>
    match (polls number).ending? cancelAt clock with
    -- the poll hangs, and no signal ends it
    | none => none
    | some clock =>
      match judgePoll stop (readings number) (polls number).outcome isFinished with
      | .fail f => some ⟨.error f, number + 1, clock⟩
      | .take finished unfinished => some ⟨.ok (finished, unfinished), number + 1, clock⟩
      | .again =>
        -- the signal comes during the pause
        match cancelAt.filter (· < clock + interval) with
        | some c => some ⟨.error pollCancellation, number + 1, max clock c⟩
        | none => coursePolls isFinished stop readings interval polls cancelAt most (number + 1) (clock + interval)

end PayloadGate
