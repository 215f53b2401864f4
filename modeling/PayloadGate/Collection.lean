import PayloadGate.Retry

/-! # Searching many jobs at the same time

A **`Collection`** has one worker for each job. A worker waits for one of a limited number of permits, then makes
attempts until one is an answer, and gives the permit back. What an attempt is made of is left open: its type is a
parameter.

* **`Collection.step`** — what each event does; the events may come in any order in which they are possible.
* **`Collection.outcome?`** — the outcome when all workers have finished. -/

namespace PayloadGate

/-- Where a worker stands: in the queue, `attempting`, in a pause before the next attempt, or at its end. -/
inductive WorkerStage (α : Type) where
  /-- It waits for a permit. -/
  | queued
  /-- It makes an attempt. -/
  | attempting (attempt : α)
  /-- It pauses between attempts. -/
  | pausing
  /-- It has finished. -/
  | finished

/-- **A worker.** -/
structure Worker (α : Type) where
  /-- Its job. -/
  job : String
  /-- How many failures may still follow. -/
  spare : Nat
  /-- The number of attempts it has begun. -/
  attempts : Nat
  /-- Where it stands. -/
  stage : WorkerStage α

namespace Worker

variable {α : Type}

/-- A worker before its first attempt: `queued`, with all failures of the `policy` still to its credit. -/
def queued (policy : RetryPolicy) (job : String) : Worker α := ⟨job, policy.maxFailures, 0, .queued⟩

/-- Whether a worker holds a permit: during its attempts and its pauses. -/
def isActive (w : Worker α) : Bool := match w.stage with
  | .attempting _ | .pausing => true
  | _ => false

/-- Whether a worker has finished. -/
def isFinished (w : Worker α) : Bool := match w.stage with
  | .finished => true
  | _ => false

/-- Whether a worker waits for a permit. -/
def isQueued (w : Worker α) : Bool := match w.stage with
  | .queued => true
  | _ => false

end Worker

/-- **A collection.** -/
structure Collection (α : Type) where
  /-- How many workers may be at work at the same time. -/
  permits : Nat
  /-- The workers, in the order of their jobs. -/
  workers : List (Worker α)
  /-- The outcomes, in the order in which the workers finished. -/
  results : List (String × Outcome)
  /-- Whether the cancellation signal has been given. -/
  cancelled : Bool

namespace Collection

variable {α : Type}

/-- **What can happen to a collection**; workers are named by their place. -/
inductive Event (α : Type) where
  /-- A worker gets a permit and begins its first attempt. -/
  | begin (i : Nat) (attempt : α)
  /-- The attempt of a worker gets on. -/
  | advance (i : Nat) (attempt : α)
  /-- The attempt of a worker has ended. -/
  | outcome (i : Nat) (outcome : Outcome)
  /-- The pause of a worker is over, and it begins its next attempt. -/
  | resume (i : Nat) (attempt : α)
  /-- A worker notices the signal. -/
  | notice (i : Nat)
  /-- The signal is given. -/
  | cancel

/-- **The collection before its first event**: a queued worker for each job, in order, and `max 1 limit` permits, so
that there is always at least one. -/
def start (limit : Nat) (policy : RetryPolicy) (jobs : List String) : Collection α :=
  ⟨max 1 limit, jobs.map (Worker.queued policy), [], false⟩

/-- The number of permits that are held. -/
def active (c : Collection α) : Nat := c.workers.countP Worker.isActive

/-- The collection with `w` in place `i`. -/
def put (c : Collection α) (i : Nat) (w : Worker α) : Collection α :=
  { c with workers := c.workers.set i w }

/-- The collection in which the worker of place `i` has finished with `outcome`, which is put behind the other
results. -/
def finish (c : Collection α) (i : Nat) (w : Worker α) (outcome : Outcome) : Collection α :=
  { c.put i { w with stage := .finished } with results := c.results ++ [(w.job, outcome)] }

/-- **What an event does to a collection**: `some` of the collection after it when the event is possible, and `none`
when it is not. -/
def step (c : Collection α) : Event α → Option (Collection α)
  | .cancel => some { c with cancelled := true }
  | .begin i attempt => do
    let w ← c.workers[i]?
    match w.stage with
    | .queued =>
      if c.active < c.permits then
        some (c.put i { w with attempts := w.attempts + 1, stage := .attempting attempt })
      else none
    | _ => none
  | .advance i attempt => do
    let w ← c.workers[i]?
    match w.stage with
    | .attempting _ => some (c.put i { w with stage := .attempting attempt })
    | _ => none
  | .outcome i outcome => do
    let w ← c.workers[i]?
    match w.stage with
    | .attempting _ =>
      -- the last attempt that may fail is answered with its failure
      match RetryPolicy.judge w.job w.spare outcome with
      | .answer outcome => some (c.finish i w outcome)
      -- the permit is kept during the pause
      | .again spare => some (c.put i { w with spare := spare, stage := .pausing })
    | _ => none
  | .resume i attempt => do
    let w ← c.workers[i]?
    match w.stage with
    | .pausing => some (c.put i { w with attempts := w.attempts + 1, stage := .attempting attempt })
    | _ => none
  | .notice i => do
    let w ← c.workers[i]?
    -- a worker that waits for a permit notices the signal when it has one
    if c.cancelled && w.isActive then some (c.finish i w (.error (RetryPolicy.cancellation w.job)))
    else none

/-! ## The outcome -/

/-- The runs of an outcome: `runs` for `.ok runs`, and none for a failure. -/
def runsOf : Outcome → List JobRun
  | .ok runs => runs
  | .error _ => []

/-- The failure of an outcome, when `Failure.isFatal`. -/
def fatal? : Outcome → Option Failure
  | .ok _ => none
  | .error f => if f.isFatal then some f else none

/-- **The outcome of a list of results**: the first fatal failure, or else the runs of all results, one after the other.
Failures that are not fatal only leave out their job. -/
def join (results : List (String × Outcome)) : Outcome :=
  match results.findSome? fun r => fatal? r.2 with
  | some f => .error f
  | none => .ok (results.flatMap fun r => runsOf r.2)

/-- Without results there are no runs. -/
@[simp] theorem join_nil : join [] = .ok [] := rfl

/-- At the start nobody holds a permit: `active = 0`. -/
@[simp] theorem active_start (limit : Nat) (policy : RetryPolicy) (jobs : List String) :
    (start (α := α) limit policy jobs).active = 0 := by
  simp [active, start, List.countP_map, Function.comp_def, Worker.queued, Worker.isActive]

/-- There is always at least one permit, whatever the `limit`. -/
theorem one_le_permits_start (limit : Nat) (policy : RetryPolicy) (jobs : List String) :
    1 ≤ (start (α := α) limit policy jobs).permits := Nat.le_max_left 1 limit

/-- **The outcome when all workers have finished**, and `none` before: after the signal it is a failure, whatever they
found, and else what the results `join` to. -/
def outcome? (c : Collection α) : Option Outcome :=
  if c.workers.all Worker.isFinished then
    some (if c.cancelled then .error (.cancelled "job run collection cancelled") else join c.results)
  else none

end Collection

end PayloadGate
