/-! # Failures of an analysis

* **`Failure`** — the causes for which a search, a collection or a whole analysis ends without
  its answer, each with what it is about.
* **`Failure.message`** — the wording shown to a user.
* **`Failure.isSoft`**, **`Failure.isFatal`**, **`Failure.isRetryable`** — how the callers treat a
  cause: a soft one is a verdict on the payload, a fatal one ends the whole analysis, a retryable
  one is tried again. -/

namespace PayloadGate

/-- **A cause of failure**, with the text that says what it is about. -/
inductive Failure where
  /-- The job warehouse could not be reached or queried. -/
  | database (detail : String)
  /-- The object storage could not be listed or read. -/
  | storage (detail : String)
  /-- A named thing does not exist. -/
  | notFound (what : String)
  /-- Data given to the analysis is malformed. -/
  | invalidInput (detail : String)
  /-- A run directory is named by something that is not a run id. -/
  | invalidRunId (id : String)
  /-- The output directory or the report could not be written. -/
  | fileSystem (detail : String)
  /-- A result file could not be read, or a report could not be rendered. -/
  | serialization (detail : String)
  /-- The cancellation signal was given while this was under way. -/
  | cancelled (activity : String)
  /-- A job has no runs of the payload yet. -/
  | noRunsYet (job : String)
  /-- No job run belongs to the payload. -/
  | noRelatedJobs
  /-- At least one test did not reach its required number of passes. -/
  | checkerFailed
  deriving DecidableEq, Repr

namespace Failure

/-- **The wording of a failure**: what kind it is, and what it is about. -/
def message : Failure → String
  | database detail => "Database error: " ++ detail
  | storage detail => "Storage error: " ++ detail
  | notFound what => what ++ " not found"
  | invalidInput detail => "Invalid input: " ++ detail
  | invalidRunId id => "Invalid job run ID '" ++ id ++ "': expected a base-10 integer"
  | fileSystem detail => "File system error: " ++ detail
  | serialization detail => "Serialization error: " ++ detail
  | cancelled activity => "Operation cancelled: " ++ activity
  | noRunsYet job => "no job runs found yet for " ++ job
  | noRelatedJobs => "no related job runs found for the payload"
  | checkerFailed => "test case checkers reported failures"

/-- **Soft failures** report on the payload, `noRelatedJobs` and `checkerFailed`; the analysis itself worked. -/
def isSoft : Failure → Bool
  | noRelatedJobs | checkerFailed => true
  | _ => false

/-- **Fatal failures**, `invalidRunId`, break an assumption on which every search rests. -/
def isFatal : Failure → Bool
  | invalidRunId _ => true
  | _ => false

/-- **Retryable failures** may be gone at the next attempt: all but `invalidRunId` and `cancelled`. -/
def isRetryable : Failure → Bool
  | invalidRunId _ | cancelled _ => false
  | _ => true

/-- A retryable failure is not fatal. -/
theorem isFatal_eq_false_of_isRetryable {f : Failure} (h : f.isRetryable = true) :
    f.isFatal = false := by
  cases f <;> simp_all [isRetryable, isFatal]

end Failure

end PayloadGate
