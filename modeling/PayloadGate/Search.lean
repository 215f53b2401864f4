import PayloadGate.Run.Resolver
import PayloadGate.Walk.Walker

/-! # Searching the runs of a job

A **`Search`** finds the runs of one job that belong to a payload. A walker finds run ids and puts them into a
queue of bounded length; a reader takes them out, resolves each run and keeps those that carry the mark of the
payload, until it meets a run that was created after the end of the window. Walker and reader go on independently of
each other: **`Search.step`** says what each event does, and the events may come in any order in which they are
possible.

* **`SearchPlan`** — what is searched for; **`SearchPlan.windowStart`**, **`SearchPlan.windowEnd`**.
* **`Search.Event`** — what can happen, with the answers of the store.
* **`Search.result?`** — the outcome of a search that has ended. -/

namespace PayloadGate

open Time (Instant Span)
open Walk (Walker)

/-- The outcome of a search: `.ok runs` with the runs that were found, in the order of the walk, or `.error f`. -/
abbrev Outcome := Except Failure (List JobRun)

/-- How far the creation of a run may lie `before` and `after` the start estimate of its payload. -/
structure SearchWindow where
  /-- The time before it. -/
  before : Span
  /-- The time after it. -/
  after : Span
  deriving DecidableEq

/-- **What is searched for.** -/
structure SearchPlan where
  /-- The job. -/
  job : String
  /-- The directory that holds its runs. -/
  root : String
  /-- The mark of the payload. -/
  matcher : RunMatcher
  /-- The estimated start of the payload. -/
  estimate : Instant
  /-- The window around it. -/
  window : SearchWindow
  /-- Where runs can be looked at. -/
  links : Links
  deriving DecidableEq

namespace SearchPlan

/-- The start of the window, `estimate − window.before`. -/
def windowStart (p : SearchPlan) : Instant := p.estimate.minus p.window.before

/-- The end of the window, `estimate + window.after`. -/
def windowEnd (p : SearchPlan) : Instant := p.estimate.plus p.window.after

/-- The limits on the age of objects, seen from the instant `now`: too old is what is older than `windowStart`, that is
older than `now − windowStart`; the other limit is `0`, so nothing is too young that has been created: runs that are not
finished have to be found as well. -/
def bands (p : SearchPlan) (now : Instant) : Walk.AgeBands := ⟨now.since p.windowStart, 0⟩

/-- The walk of a search that begins at `now`: below `root`, with the `bands` seen from `now`. -/
def route (p : SearchPlan) (now : Instant) : Walk.Route := ⟨p.root, p.bands now, now⟩

/-- The run `id` of the job that is searched. -/
def place (p : SearchPlan) (id : String) : RunPlace := ⟨p.root, p.job, id, p.links⟩

/-- The failure of a search that was cancelled, with the name of its job. -/
def cancellation (p : SearchPlan) : Failure := .cancelled ("search for job " ++ p.job ++ " cancelled")

end SearchPlan

/-- The number of ids that the queue holds at most. -/
def queueLimit : Nat := 100

/-- A walker and a reader at work. -/
structure Scan where
  /-- The walker. -/
  walker : Walker
  /-- The ids between the two, the next one first. -/
  queue : List String
  /-- The run that the reader is resolving; without one it waits for an id. -/
  resolving : Option Resolver
  /-- The runs that have been found, in the order of their ids. -/
  found : List JobRun

/-- Where a search stands: it waits for the seed, has its walker and its reader at work, or has `ended` with an
outcome. -/
inductive SearchStage where
  /-- The catalog is asked for the last run before the window. -/
  | seeding
  /-- The runs are gone through. -/
  | scanning (scan : Scan)
  /-- It has ended. -/
  | ended (outcome : Outcome)

/-- **A search.** -/
structure Search where
  /-- What is searched for. -/
  plan : SearchPlan
  /-- Whether the cancellation signal has been given. -/
  cancelled : Bool
  /-- Where it stands. -/
  stage : SearchStage

namespace Search

/-- **What can happen to a search.** -/
inductive Event where
  /-- The catalog has answered, and the clock was read. -/
  | seed (reply : Except Failure (Option String)) (now : Instant)
  /-- The store has answered the walker. -/
  | walkerPage (reply : Except Failure ObjectPage)
  /-- The walker puts an id into the queue, which has room. -/
  | walkerSend
  /-- The walker notices the signal. -/
  | walkerQuit
  /-- The reader takes an id, or finds that there will be no more. -/
  | readerTake
  /-- The store has answered the reader for a page. -/
  | readerPage (reply : Except Failure ObjectPage)
  /-- The store has answered the reader for a descriptor. -/
  | readerObject (reply : Except Failure (List UInt8))
  /-- The reader notices the signal. -/
  | readerQuit
  /-- The signal is given. -/
  | cancel

/-- Whether an event is the signal `cancel`. -/
def Event.isCancel : Event → Bool
  | cancel => true
  | _ => false

/-- **A search before its first event**: not cancelled, and waiting for the catalog to answer with the seed. -/
def start (plan : SearchPlan) : Search := ⟨plan, false, .seeding⟩

/-- The search at its end, with its `outcome`; nothing happens to it any more but the signal. -/
def finish (s : Search) (outcome : Outcome) : Search := { s with stage := .ended outcome }

/-- The outcome when the reader needs no more ids: the signal comes first, then a failure that the walker has met, and
the runs only when there is neither. What `walker.failure?` is by then depends on how far the walker has got, which may
be ahead of the reader. -/
def conclusion (s : Search) (scan : Scan) : Outcome :=
  if s.cancelled then .error s.plan.cancellation
  else match scan.walker.failure? with
    | some f => .error f
    | none => .ok scan.found

/-- The search after a resolved `run`: one that was created behind `windowEnd` ends the search, and of the others those
are kept that have the mark, or all when the plan has none. -/
def keep (s : Search) (scan : Scan) (run : JobRun) : Search :=
  -- a run behind the window ends the search, whether it matches or not
  if s.plan.windowEnd < run.descriptor.created then s.finish (s.conclusion scan)
  else if s.plan.matcher.accepts run.descriptor then
    { s with stage := .scanning { scan with resolving := none, found := scan.found ++ [run] } }
  else { s with stage := .scanning { scan with resolving := none } }

/-- The search after the reader has got on with a run: it goes on with `r`, passes over a run that does not resolve to
one, `keep`s one that does, or ends with the reader's failure. -/
def resolved (s : Search) (scan : Scan) (r : Resolver) : Search :=
  match r.stage with
  -- a run that cannot be resolved ends the search
  | .ended (.error f) => s.finish (.error f)
  | .ended (.ok none) => { s with stage := .scanning { scan with resolving := none } }
  | .ended (.ok (some run)) => s.keep scan run
  | _ => { s with stage := .scanning { scan with resolving := some r } }

/-- **What an event does to a search**: `some` of the search after it when `e` is possible, and `none` when it is
not. -/
def step (s : Search) (e : Event) : Option Search :=
  match e, s.stage with
  | .cancel, _ => some { s with cancelled := true }
  | .seed reply now, .seeding =>
    match reply with
    | .error f => some (s.finish (.error f))
    | .ok seed =>
      some { s with stage := .scanning ⟨.start (s.plan.route now) seed, [], none, []⟩ }
  | .walkerPage reply, .scanning scan =>
    match scan.walker.stage with
    | .listing _ => some { s with stage := .scanning { scan with walker := scan.walker.receive reply } }
    | _ => none
  | .walkerSend, .scanning scan =>
    match scan.walker.stage with
    | .offering id _ =>
      -- a full queue holds the walker up
      if scan.queue.length < queueLimit then
        some { s with
          stage := .scanning
            { scan with queue := scan.queue ++ [id], walker := scan.walker.accepted } }
      else none
    | _ => none
  | .walkerQuit, .scanning scan =>
    if s.cancelled && !scan.walker.hasEnded then
      some { s with stage := .scanning { scan with walker := scan.walker.quit } }
    else none
  | .readerTake, .scanning scan =>
    match scan.resolving, scan.queue with
    | some _, _ => none
    | none, id :: rest => some (s.resolved { scan with queue := rest } (.start (s.plan.place id)))
    -- the queue is closed once the walker has ended
    | none, [] => if scan.walker.hasEnded then some (s.finish (s.conclusion scan)) else none
  | .readerPage reply, .scanning scan =>
    match scan.resolving with
    | some r =>
      match r.stage with
      | .listing _ _ => some (s.resolved scan (r.receivePage reply))
      | _ => none
    | none => none
  | .readerObject reply, .scanning scan =>
    match scan.resolving with
    | some r =>
      match r.stage with
      | .reading _ _ => some (s.resolved scan (r.receiveObject reply))
      | _ => none
    | none => none
  | .readerQuit, .scanning scan =>
    -- the signal is noticed between two runs, never within one
    if s.cancelled && scan.resolving.isNone then some (s.finish (s.conclusion scan)) else none
  | _, _ => none

/-- **The outcome of a search that has ended**, and `none` as long as it has not. -/
def result? (s : Search) : Option Outcome :=
  match s.stage with
  | .ended outcome => some outcome
  | _ => none

end Search

end PayloadGate
