import PayloadGate.Collection
import PayloadGate.Gate.Checker
import PayloadGate.Gate.Selector
import PayloadGate.Junit.Writer
import PayloadGate.Readiness
import PayloadGate.Run.Results

/-! # The analysis of a payload

An **`Analysis`** makes its output directory, waits until the runs of the payload can be complete, collects them over
all jobs, polls until they are finished or time is up, loads their results, checks them and writes one report.
**`Analysis.step`** says what each event does; the events may come in any order in which they are possible, and the
cancellation signal may come at any time.

* **`Options`** — what is analyzed, and with what patience.
* **`Analysis.Event`** — what can happen, with the answers of catalog, store and file system. -/

namespace PayloadGate

open Decimal (Binary64)
open Time (Instant Span)

/-- **What is analyzed, and with what patience**: the runs of the payload that `selector` tells, which are sought in the
`window` around its start `estimate`. -/
structure Options where
  /-- The payload. -/
  selector : PayloadSelector
  /-- The directory that holds the output directories. -/
  workingDir : String
  /-- The estimated start of the payload. -/
  estimate : Instant
  /-- The time after which the analysis is cancelled, in seconds. -/
  timeout : Nat
  /-- The time after the start before the lists of runs can be complete. -/
  grace : Span
  /-- The part of the timeout that is kept for checking and reporting, in seconds. -/
  margin : Nat
  /-- The pause between polls, in milliseconds. -/
  poll : Nat
  /-- The window around the start. -/
  window : SearchWindow
  /-- How many jobs are searched at the same time. -/
  maxJobs : Nat
  /-- How a search is tried again. -/
  retry : RetryPolicy
  deriving DecidableEq

/-- `name` below `directory`. An absolute name stands for itself. -/
def joinPath (directory name : String) : String :=
  if "/".toList.isPrefixOf name.toList then name
  else if directory = "" || Text.endsWith directory "/" then directory ++ name
  else directory ++ "/" ++ name

/-- The name of the report. -/
def reportName : String := "junit-test-case-analysis.xml"

/-- The largest number of seconds in a span. -/
def longestSpan : Nat := 9223372036854775

namespace Options

/-- The output directory. -/
def outputDir (o : Options) : String := joinPath o.workingDir o.selector.matchId

/-- **The place of the report**: `reportName` below `o.outputDir`. -/
def reportPath (o : Options) : String := joinPath o.outputDir reportName

/-- The time `o.estimate + o.grace`, from which on the lists of runs can be complete. -/
def readyAt (o : Options) : Instant := o.estimate.plus o.grace

/-- **The time at which to stop waiting for unfinished runs**: `o.estimate` and, behind it, the seconds
`o.timeout - o.margin`. More than `longestSpan` seconds are an invalid input. -/
def stopAt (o : Options) : Except Failure Instant :=
  if o.timeout - o.margin ≤ longestSpan then
    .ok (o.estimate.plus (Time.seconds ((o.timeout - o.margin : Nat) : Int)))
  else .error (.invalidInput "Invalid timeout: longer than any span")

/-- The search for the runs of `job`, when `o.selector` gives a directory that holds them. -/
def searchPlan? (o : Options) (links : Links) (job : Job) : Option SearchPlan :=
  (o.selector.root? job.name).map fun root =>
    ⟨job.name, root, o.selector.matcher, o.estimate, o.window, links⟩

end Options

/-- Where an analysis stands. -/
inductive AnalysisStage where
  /-- The output directory is made. -/
  | preparing
  /-- It waits for the lists of runs to be complete. -/
  | readying (stop : Instant)
  /-- The catalog is asked for the jobs. -/
  | polling (stop : Instant)
  /-- The jobs are searched, each by its own plan. -/
  | collecting (stop : Instant) (plans : List SearchPlan) (collection : Collection Search)
  /-- It pauses between polls. -/
  | pausing (stop : Instant)
  /-- The results of the runs are loaded. -/
  | loading (runs : List JobRun)
  /-- The report is written. -/
  | writing (report : Junit.Suite)
  /-- It has ended: with the place of the report, or without passing the gate. -/
  | ended (result : Except Failure String)

/-- **An analysis** of `options`, which stands at `stage` and has `judged` runs with their forests. The `report` is what
its output directory holds. -/
structure Analysis where
  /-- What is analyzed. -/
  options : Options
  /-- Where runs can be looked at. -/
  links : Links
  /-- The gates. -/
  checkers : List Checker
  /-- Whether the cancellation signal has been given. -/
  cancelled : Bool
  /-- The runs whose results were loaded. -/
  judged : List JudgedRun
  /-- How many seconds each checker took, by its place. -/
  took : Nat → Binary64
  /-- One line for each failed case of the report. -/
  log : List String
  /-- The report in the output directory. -/
  report : Option String
  /-- Where it stands. -/
  stage : AnalysisStage

namespace Analysis

/-- **What can happen to an analysis**; workers are named by their place `i`. -/
inductive Event where
  /-- The file system has answered for the output directory. -/
  | prepared (reply : Except Failure Unit)
  /-- The time has come from which on the lists of runs can be complete. -/
  | ready
  /-- The catalog has answered with the jobs to search. -/
  | jobs (reply : Except Failure (List Job))
  /-- A worker gets a permit and begins its first search. -/
  | launch (i : Nat)
  /-- Something other than the signal happens to the search of a worker. -/
  | search (i : Nat) (e : Search.Event)
  /-- A worker takes the outcome of its search. -/
  | settle (i : Nat)
  /-- The pause of a worker is over, and it begins its next search. -/
  | resume (i : Nat)
  /-- A worker notices the signal. -/
  | notice (i : Nat)
  /-- All workers have finished, and the clock was read. -/
  | joined (now : Instant)
  /-- The pause between polls is over. -/
  | again
  /-- The signal is noticed in a wait or a pause. -/
  | stop
  /-- The store has answered for the result files of the runs, one call after the other, and each checker took its
  seconds. -/
  | loaded (answers : Answers) (took : Nat → Binary64)
  /-- The file system has answered for the report. -/
  | written (reply : Except Failure Unit)
  /-- The signal is given. -/
  | cancel

/-- **An analysis before its first event**, which may find an `earlier` report in its output directory. -/
def start (options : Options) (links : Links) (checkers : List Checker) (earlier : Option String) :
    Analysis :=
  ⟨options, links, checkers, false, [], fun _ => .zero, [], earlier, .preparing⟩

/-- The analysis `a` at another `stage`. -/
def goTo (a : Analysis) (stage : AnalysisStage) : Analysis := { a with stage := stage }

/-- The analysis `a` at its end, with a `result`. -/
def finish (a : Analysis) (result : Except Failure String) : Analysis := a.goTo (.ended result)

/-- The analysis `a` after an event that made `c` of its collection; `none` when the event was not possible. -/
def collect (a : Analysis) (stop : Instant) (plans : List SearchPlan) (c : Option (Collection Search)) :
    Option Analysis :=
  c.map fun c => a.goTo (.collecting stop plans c)

/-- The search that the `i`-th worker is making. -/
def searchOf? (c : Collection Search) (i : Nat) : Option Search := do
  match (← c.workers[i]?).stage with
  | .attempting s => some s
  | _ => none

/-- A search by `plan`. It has the signal when the analysis `a` has it. -/
def newSearch (a : Analysis) (plan : SearchPlan) : Search := { Search.start plan with cancelled := a.cancelled }

/-- The runs with results that could be loaded: `run` with its `forest`, where the two stand in one place. A run with a
result file that could not be loaded is left out. -/
def judgedRuns : List JobRun → List (Except Failure (List Junit.Suite)) → List JudgedRun
  | run :: runs, .ok forest :: forests => ⟨run, forest⟩ :: judgedRuns runs forests
  | _ :: runs, .error _ :: forests => judgedRuns runs forests
  | _, _ => []

/-- **The runs that are judged** when the store answers for their result files by `answers`, from the first call on. -/
def judgedBy (answers : Answers) (runs : List JobRun) : List JudgedRun :=
  judgedRuns runs (loadAll answers.read runs 0).1

/-- The analysis after a poll that was judged: it fails, loads `finished ++ unfinished`, or pauses. -/
def afterPoll (a : Analysis) (stop : Instant) : AfterPoll → Analysis
  | .fail f => a.finish (.error f)
  | .take finished unfinished => a.goTo (.loading (finished ++ unfinished))
  | .again => a.goTo (.pausing stop)

/-- The analysis after its `runs` were loaded: they are checked by all of `a.checkers`, the `i`-th in `took i`
seconds. -/
def afterLoading (a : Analysis) (took : Nat → Binary64) (runs : List JudgedRun) : Analysis :=
  let top := PayloadGate.report a.checkers took runs
  { a with judged := runs, took := took, log := Junit.failureLines ["root"] top, stage := .writing top }

/-- A worker that is making a search gives it the signal. -/
def cancelWorker (w : Worker Search) : Worker Search :=
  match w.stage with
  | .attempting s => { w with stage := .attempting { s with cancelled := true } }
  | _ => w

/-- The analysis after the signal, which reaches all searches of its collection. -/
def afterSignal (a : Analysis) : Analysis :=
  match a.stage with
  | .collecting stop plans c =>
    { a with
      cancelled := true
      stage := .collecting stop plans { c with cancelled := true, workers := c.workers.map cancelWorker } }
  | _ => { a with cancelled := true }

/-- **What the event `e` does to an analysis**, and `none` when it is not possible at `a.stage`. -/
def step (a : Analysis) (e : Event) : Option Analysis :=
  match e, a.stage with
  | .cancel, _ => some a.afterSignal
  | .prepared reply, .preparing =>
    match reply >>= fun _ => a.options.stopAt with
    | .error f => some (a.finish (.error f))
    | .ok stop => some (a.goTo (.readying stop))
  | .ready, .readying stop => some (a.goTo (.polling stop))
  | .stop, .readying _ =>
    if a.cancelled then some (a.finish (.error (waitCancellation a.options.readyAt))) else none
  | .stop, .pausing _ => if a.cancelled then some (a.finish (.error pollCancellation)) else none
  | .again, .pausing stop => some (a.goTo (.polling stop))
  | .jobs reply, .polling stop =>
    match reply with
    | .error f => some (a.finish (.error f))
    | .ok jobs =>
      -- a job without a directory is not searched
      let plans := jobs.filterMap (a.options.searchPlan? a.links)
      let c := Collection.start a.options.maxJobs a.options.retry (plans.map (·.job))
      some (a.goTo (.collecting stop plans { c with cancelled := a.cancelled }))
  | .launch i, .collecting stop plans c => do
    let plan ← plans[i]?
    a.collect stop plans (c.step (.begin i (a.newSearch plan)))
  | .search i e, .collecting stop plans c => do
    -- the signal comes to a search from the analysis only
    if e.isCancel then none
    let s ← (← searchOf? c i).step e
    a.collect stop plans (c.step (.advance i s))
  | .settle i, .collecting stop plans c => do
    let outcome ← (← searchOf? c i).result?
    a.collect stop plans (c.step (.outcome i outcome))
  | .resume i, .collecting stop plans c => do
    let plan ← plans[i]?
    a.collect stop plans (c.step (.resume i (a.newSearch plan)))
  | .notice i, .collecting stop plans c => a.collect stop plans (c.step (.notice i))
  | .joined now, .collecting stop _ c => c.outcome?.map fun o => a.afterPoll stop (judgePoll stop now o)
  | .loaded answers took, .loading runs => some (a.afterLoading took (judgedBy answers runs))
  | .written reply, .writing top =>
    match reply with
    | .error f => some (a.finish (.error f))
    | .ok _ =>
      -- the report is there even when the gate is not passed
      let a := { a with report := some top.document }
      some (a.finish (if 0 < top.failures then .error .checkerFailed else .ok a.options.reportPath))
  | _, _ => none

/-- **The result of an analysis that has ended**, and `none` before. -/
def result? (a : Analysis) : Option (Except Failure String) :=
  match a.stage with
  | .ended result => some result
  | _ => none

end Analysis

end PayloadGate
