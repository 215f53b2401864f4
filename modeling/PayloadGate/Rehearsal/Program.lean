import PayloadGate.Program.Course
import PayloadGate.Rehearsal.Analysis
import PayloadGate.Rehearsal.Directory

/-! # A run of the program in virtual time

* **`ProgramWorld`** — what a run of the program meets.
* **`program?`** — how the run goes, and its analysis if it comes to one. -/

namespace PayloadGate.Rehearsal

/-- **What a run of the program meets.** -/
structure ProgramWorld where
  /-- What it connects to. -/
  services : Services
  /-- What the clock on the wall shows. -/
  now : Time.Instant
  /-- When the user interrupts it, in milliseconds. -/
  interruptAt : Option Nat

/-- Whether an interruption comes before the timeout. -/
def isInterrupted (interruptAt : Option Nat) (a : Analysis) : Bool :=
  a.cancelled && interruptAt.any fun t => decide (t ≤ a.options.timeout * 1000)

/-- The analysis of a configuration, before its first event, and what it meets. -/
def prepare (w : ProgramWorld) (c : Config) : Except Failure (Surroundings × Analysis) := do
  let (bucket, warehouse) ← w.services.connect c
  let s := c.settings
  let options ← s.options
  let jobs := warehouse.listJobs.map (selectJobs s.filter s.prefixes)
  let world : World := ⟨bucket.toStore, warehouse.latestBefore, w.now⟩
  .ok (⟨world, jobs, directoryReply options.outputDir, .ok ()⟩,
    .start options (s.links bucket.name) s.checkers none)

/-- **How a run of the program goes**, by the variables it finds, and its analysis if it comes to one: a refused
configuration ends it before anything is connected to. -/
def program? (turns : Nat) (w : ProgramWorld) (vars : Variables) : Option (Course × Option Analysis) :=
  match Config.load vars w.now with
  | .error fault => some (.refused fault, none)
  | .ok c =>
    match prepare w c with
    | .error f => some (.ran c false (.error f), none)
    | .ok (around, a) => do
      let a ← analysis? turns around w.interruptAt a
      let result ← a.result?
      some (.ran c (isInterrupted w.interruptAt a) result, some a)

end PayloadGate.Rehearsal
