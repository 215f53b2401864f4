import PayloadGate.Analysis
import PayloadGate.Rehearsal.Collection
import PayloadGate.Rehearsal.Search

/-! # An analysis in virtual time

* **`Surroundings`** — what an analysis meets: store, catalog, clock and file system.
* **`analysis?`** — an analysis that has ended, with its result, its log and its report. -/

namespace PayloadGate.Rehearsal

/-- **What an analysis meets.** -/
structure Surroundings where
  /-- What its searches meet. -/
  world : World
  /-- The catalog's answer with the jobs to search. -/
  jobs : Except Failure (List Job)
  /-- The file system's answer for the output directory. -/
  directory : Except Failure Unit
  /-- The file system's answer for the report. -/
  reportFile : Except Failure Unit

/-- The agents of an analysis. -/
inductive AnalysisAgent where
  /-- Goes from one part of the analysis to the next. -/
  | main
  /-- Searches the runs of a job. -/
  | worker (i : Nat)
  /-- Finds ids for a worker. -/
  | walker (i : Nat)
  /-- Gives the cancellation signal. -/
  | signal
  deriving DecidableEq

/-- An analysis under way. -/
structure AnalysisState where
  /-- The analysis. -/
  analysis : Analysis
  /-- The calls to the store. -/
  visit : Visit
  /-- The agents that have begun something that takes its time. -/
  calling : List AnalysisAgent

/-- Agents in virtual time, with their analysis. -/
abbrev AnalysisScene := Timeline AnalysisAgent × AnalysisState

/-- The agents after an agent has done something that takes no time. -/
def actAt (i : AnalysisAgent) (t : Timeline AnalysisAgent) (s : AnalysisState) (v : Visit)
    (e : Analysis.Event) : Option AnalysisScene :=
  (s.analysis.step e).map fun a => (t.again i, ⟨a, v, s.calling.filter (· ≠ i)⟩)

/-- The agents after agent `i` has begun something that takes its `span`. -/
def sleepAt (i : AnalysisAgent) (span : Nat) (t : Timeline AnalysisAgent) (s : AnalysisState) :
    AnalysisScene :=
  (t.sleep i span, { s with calling := i :: s.calling })

/-! ## Workers and walkers -/

/-- The collection of an analysis that is collecting. -/
def collectionOf? (a : Analysis) : Option (Collection Search) :=
  match a.stage with
  | .collecting _ _ c => some c
  | _ => none

/-- Whether a worker has finished. -/
def workerFinished (c : Collection Search) (i : Nat) : Bool := (c.workers[i]?).any Worker.isFinished

/-- The agents after worker `i` has perhaps finished, by `workerFinished`: another one gets its permit, and the last one
wakes the main agent. -/
def afterWorker (i : Nat) (scene : AnalysisScene) : AnalysisScene :=
  let (t, s) := scene
  match collectionOf? s.analysis with
  | none => scene
  | some c =>
    if workerFinished c i then
      let t := (t.dismiss (.walker i)).dismiss (.worker i)
      -- the permit goes to the first worker that waits for one
      let t := match firstQueued? (fun j => t.isWaiting (.worker j)) c with
        | some j => t.wake (.worker j)
        | none => t
      (if c.workers.all Worker.isFinished then t.wake .main else t, s)
    else scene

/-- A turn of a worker. -/
def workerTurn (around : Surroundings) (i : Nat) (t : Timeline AnalysisAgent) (s : AnalysisState)
    (c : Collection Search) : AnalysisScene :=
  let me := AnalysisAgent.worker i
  let v := { s.visit with clock := t.clock }
  let act (e : Analysis.Event) (v : Visit) : AnalysisScene :=
    ((actAt me t s v e).map (afterWorker i)).getD (t, s)
  let retry := s.analysis.options.retry
  match workerMove retry (me ∈ s.calling) c i with
  | .begin => act (.launch i) v
  | .pause => sleepAt me retry.interval t s
  | .resume => act (.resume i) v
  | .notice => act (.notice i) v
  | .wait => (t, s)
  | .attempt search =>
    if search.result?.isSome then
      let (t, s) := act (.settle i) v
      -- with the search its walker comes to rest
      (t.dismiss (.walker i), { s with calling := s.calling.filter (· ≠ .walker i) })
    else match readerMove around.world (me ∈ s.calling) v search with
      | .wait => (t, s)
      | .call => sleepAt me around.world.store.latency t s
      | .act e v =>
        let (t, s) := act (.search i e) v
        -- a taken id makes room in the queue
        (if concernsWalker e then t.wake (.walker i) else t, s)

/-- A turn of a walker. -/
def walkerTurn (around : Surroundings) (i : Nat) (t : Timeline AnalysisAgent) (s : AnalysisState)
    (c : Collection Search) : AnalysisScene :=
  let me := AnalysisAgent.walker i
  match Analysis.searchOf? c i with
  | none => (t, s)
  | some search =>
    match walkerMove around.world (me ∈ s.calling) { s.visit with clock := t.clock } search with
    | .wait => (t, s)
    | .call => sleepAt me around.world.store.latency t s
    | .act e v =>
      match actAt me t s v (.search i e), search.step e with
      | some (t, s), some after => (if concernsReader e after then t.wake (.worker i) else t, s)
      | _, _ => (t, s)

/-! ## The main agent -/

/-- The milliseconds until an instant, rounded up. -/
def millisecondsUntil (later now : Time.Instant) : Nat := ((later.since now + 999999) / 1000000).toNat

/-- A turn of the main agent. -/
def mainTurn (around : Surroundings) (t : Timeline AnalysisAgent) (s : AnalysisState) : AnalysisScene :=
  let a := s.analysis
  let v := { s.visit with clock := t.clock }
  let act (e : Analysis.Event) (v : Visit) : AnalysisScene := (actAt .main t s v e).getD (t, s)
  /- A pause, after which something happens unless the signal is noticed. -/
  let pause (span : Nat) (e : Analysis.Event) : AnalysisScene :=
    if span = 0 then act e v
    else if a.cancelled then act .stop v
    else if .main ∈ s.calling then act e v
    else sleepAt .main span t s
  match a.stage with
  | .preparing => act (.prepared around.directory) v
  | .readying _ => pause (millisecondsUntil a.options.readyAt around.world.now) .ready
  | .pausing _ =>
    if a.cancelled then act .stop v else pause a.options.poll .again
  | .polling _ =>
    let (t, s) := act (.jobs around.jobs) v
    let workers := ((collectionOf? s.analysis).map (·.workers.length)).getD 0
    -- each worker gets a turn to ask for its permit
    ((List.range workers).foldl (fun t i => t.wake (.worker i)) t, s)
  | .collecting _ _ c => if c.outcome?.isSome then act (.joined around.world.now) v else (t, s)
  | .loading runs =>
    -- checking takes no virtual time
    act (.loaded (around.world.store.answersFrom v) fun _ => .zero) (loadAll around.world.store.askObject runs v).2
  | .writing _ => act (.written around.reportFile) v
  | .ended _ => (t, s)

/-- The turn of the agent that gives the signal, `afterSignal`: it reaches the main agent in its waits and pauses, and
every worker that is at work. -/
def signalTurn (t : Timeline AnalysisAgent) (s : AnalysisState) : AnalysisScene :=
  let a := s.analysis.afterSignal
  -- a worker without a permit does not listen to the signal
  let t := match a.stage with
    | .readying _ | .pausing _ => t.rouse .main
    | .collecting _ _ c =>
      (List.range c.workers.length).foldl
        (fun t i => if (c.workers[i]?).any Worker.isActive then t.rouse (.worker i) else t) t
    | _ => t
  (t, { s with analysis := a, calling := [] })

/-- A turn of an agent. -/
def analysisTurn (around : Surroundings) (i : AnalysisAgent) (t : Timeline AnalysisAgent)
    (s : AnalysisState) : AnalysisScene :=
  match i with
  | .main => mainTurn around t s
  | .signal => signalTurn t s
  | .worker i =>
    match collectionOf? s.analysis with
    | some c => workerTurn around i t s c
    | none => (t, s)
  | .walker i =>
    match collectionOf? s.analysis with
    | some c => walkerTurn around i t s c
    | none => (t, s)

/-- The time at which the signal is given: from outside, or by the timeout. -/
def signalTime (cancelAt : Option Nat) (timeout : Nat) : Nat :=
  match cancelAt with
  | some c => min c (timeout * 1000)
  | none => timeout * 1000

/-- **An analysis that has ended**, from `a` on, with the signal at `cancelAt` or by the timeout; `none` when it has not
ended within `turns` turns. -/
def analysis? (turns : Nat) (around : Surroundings) (cancelAt : Option Nat) (a : Analysis) : Option Analysis :=
  (((Timeline.start AnalysisAgent.main).alarm .signal (some (signalTime cancelAt a.options.timeout))).run?
    .signal (analysisTurn around) (·.analysis.result?) turns ⟨a, .start, []⟩).map (·.2.2.analysis)

end PayloadGate.Rehearsal
