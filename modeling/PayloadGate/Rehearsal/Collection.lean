import PayloadGate.Collection
import PayloadGate.Rehearsal.Timeline

/-! # A collection in virtual time

* **`WorkerMove`** — what a worker of a collection does at its turn; **`workerMove`**.
* **`collection?`** — the outcome of a collection whose attempts take known times and have known outcomes. -/

namespace PayloadGate.Rehearsal

/-- **What a worker does at its turn.** -/
inductive WorkerMove (α : Type) where
  /-- It gets a permit. -/
  | begin
  /-- Its attempt gets on. -/
  | attempt (a : α)
  /-- It begins its pause. -/
  | pause
  /-- It begins its next attempt. -/
  | resume
  /-- It notices the signal. -/
  | notice
  /-- It has to wait. -/
  | wait

/-- **The move of a worker** at place `i`. `calling` tells whether it has begun its pause before. -/
def workerMove {α : Type} (policy : RetryPolicy) (calling : Bool) (c : Collection α) (i : Nat) : WorkerMove α :=
  match c.workers[i]? with
  | none => .wait
  | some w =>
    match w.stage with
    | .queued => if c.active < c.permits then .begin else .wait
    | .attempting a => if c.cancelled then .notice else .attempt a
    | .pausing =>
      if c.cancelled then .notice
      else if calling || policy.interval = 0 then .resume
      else .pause
    | .finished => .wait

/-- The place of the first worker that waits for a permit and has not been woken. -/
def firstQueued? {α : Type} (isWaiting : Nat → Bool) (c : Collection α) : Option Nat :=
  (List.range c.workers.length).find? fun i => (c.workers[i]?).any Worker.isQueued && isWaiting i

/-! ## Known attempts -/

/-- The agents of a collection. -/
inductive CollectionAgent where
  /-- A worker. -/
  | worker (i : Nat)
  /-- Gives the cancellation signal. -/
  | signal
  deriving DecidableEq

/-- A collection under way, of which an attempt is known by its number. -/
structure CollectionState where
  /-- The collection. -/
  collection : Collection Nat
  /-- The workers that have begun to wait for something that takes its time. -/
  calling : List Nat

/-- A worker goes on with the collection after an event; when it has finished, a worker that waits for its permit is
woken. -/
def proceed (i : Nat) (t : Timeline CollectionAgent) (s : CollectionState) (e : Collection.Event Nat) :
    Timeline CollectionAgent × CollectionState :=
  match s.collection.step e with
  | none => (t, s)
  | some c =>
    let done := (c.workers[i]?).any Worker.isFinished
    let t := if done then t else t.again (.worker i)
    -- the permit goes to the first worker that waits for one
    let t := match firstQueued? (fun j => t.isWaiting (.worker j)) c with
      | some j => if done then t.wake (.worker j) else t
      | none => t
    (t, ⟨c, s.calling.filter (· ≠ i)⟩)

/-- A turn of an agent. -/
def collectionTurn (policy : RetryPolicy) (attempts : Nat → Nat → RetryPolicy.TimedAttempt)
    (agent : CollectionAgent) (t : Timeline CollectionAgent) (s : CollectionState) :
    Timeline CollectionAgent × CollectionState :=
  match agent with
  | .signal =>
    ((List.range s.collection.workers.length).foldl
        (fun t i => if (s.collection.workers[i]?).any Worker.isActive then t.rouse (.worker i) else t) t,
      { s with collection := { s.collection with cancelled := true } })
  | .worker i =>
    let calling := i ∈ s.calling
    match workerMove policy calling s.collection i with
    | .begin => proceed i t s (.begin i 0)
    | .attempt number =>
      match (attempts i number).duration with
      -- an attempt that hangs waits for the signal alone
      | none => (t, s)
      | some span =>
        if calling || span = 0 then proceed i t s (.outcome i (attempts i number).outcome)
        else (t.sleep agent span, { s with calling := i :: s.calling })
    | .pause => (t.sleep agent policy.interval, { s with calling := i :: s.calling })
    | .resume =>
      proceed i t s (.resume i (((s.collection.workers[i]?).map (·.attempts)).getD 0))
    | .notice => proceed i t s (.notice i)
    | .wait => (t, s)

/-- The timeline at the start, when the signal is given at a time. -/
def collectionTimeline (cancelAt : Option Nat) (workers : Nat) : Timeline CollectionAgent :=
  let t : Timeline CollectionAgent := ⟨0, (List.range workers).map .worker, []⟩
  t.alarm .signal cancelAt

/-- A collection that was played to its end. -/
structure PlayedCollection where
  /-- The outcome. -/
  outcome : Outcome
  /-- The number of attempts of each worker. -/
  attempts : List Nat
  /-- The time at the end. -/
  clock : Nat

/-- **The outcome of a collection** of `jobs`, with the attempts of each job by its place; `none` when it has not ended
within `turns` turns. -/
def collection? (turns limit : Nat) (policy : RetryPolicy) (jobs : List String)
    (attempts : Nat → Nat → RetryPolicy.TimedAttempt) (cancelAt : Option Nat) : Option PlayedCollection :=
  ((collectionTimeline cancelAt jobs.length).run? .signal (collectionTurn policy attempts)
    (·.collection.outcome?) turns ⟨.start limit policy jobs, []⟩).map fun r =>
      ⟨r.1, r.2.2.collection.workers.map (·.attempts), r.2.1⟩

end PayloadGate.Rehearsal
