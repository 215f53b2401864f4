import PayloadGate.Failure
import PayloadGate.Job
import PayloadGate.Time.Instant

/-! # The warehouse of jobs and their runs

A **`Warehouse`** is a table of jobs and a table of runs.

* **`Warehouse.listJobs`** — all jobs in the order of their names.
* **`Warehouse.latestBefore`** — the last run of a job that started before an instant. -/

namespace PayloadGate

open Time (Instant)

/-- A row of the table of runs. -/
structure RunRow where
  /-- The run id. -/
  runId : String
  /-- The name of the job. -/
  job : String
  /-- When the run started. -/
  start : Instant
  deriving DecidableEq

/-- The two tables. -/
structure WarehouseTables where
  /-- The jobs. -/
  jobs : List Job
  /-- The runs. -/
  runs : List RunRow
  deriving DecidableEq

/-- **A warehouse**: its tables, or why they cannot be asked. -/
abbrev Warehouse := Except String WarehouseTables

/-- Of two runs the one that started later; of two that started at the same time the first. -/
def laterRun (best : Option RunRow) (r : RunRow) : Option RunRow :=
  match best with
  | some b => if b.start < r.start then some r else best
  | none => some r

namespace WarehouseTables

/-- All jobs in the order of their names; `mergeSort` is stable. -/
def orderedJobs (t : WarehouseTables) : List Job := t.jobs.mergeSort fun a b => decide (a.name ≤ b.name)

/-- The last run of a job that started before an instant: `laterRun` over the rows of the job. -/
def latestBefore (t : WarehouseTables) (job : String) (before : Instant) : Option RunRow :=
  (t.runs.filter fun r => r.job = job ∧ r.start < before).foldl laterRun none

end WarehouseTables

namespace Warehouse

/-- **All jobs in the order of their names.** -/
def listJobs : Warehouse → Except Failure (List Job)
  | .ok t => .ok t.orderedJobs
  | .error reason => .error (.database ("Failed to list jobs: " ++ reason))

/-- **The last run of a job that started before an instant**, by its id; `none` when there is no such run. -/
def latestBefore (w : Warehouse) (job : String) (before : Instant) : Except Failure (Option String) :=
  match w with
  | .ok t => .ok ((t.latestBefore job before).map (·.runId))
  | .error reason => .error (.database ("Failed to get last job run of " ++ job ++ ": " ++ reason))

end Warehouse

end PayloadGate
