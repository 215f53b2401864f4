import PayloadGate.Job
import PayloadGate.Run.JobRun

/-! # Payloads

A **`PayloadSelector`** names the payload to analyze: its release tag, or the invocation that asked for it together with
the storage directories of its jobs. From it follow the mark of its runs and the places where they are stored. -/

namespace PayloadGate

/-- **The payload to analyze**: a release payload by its `tag`, or a pull request payload by the `id` of the invocation
that asked for it, with `prefixes` that say where its runs are. -/
inductive PayloadSelector where
  /-- A release payload; the runs of a job are below `logs/`. -/
  | tag (tag : String)
  /-- The payload of a pull request; the runs of a job are below the directory that belongs to it. -/
  | invocation (id : String) (prefixes : List JobPrefix)
  deriving DecidableEq

namespace PayloadSelector

/-- The tag or the invocation. -/
def matchId : PayloadSelector → String
  | tag t => t
  | invocation id _ => id

/-- **The mark of its runs**, by which they are told from others. -/
def matcher : PayloadSelector → RunMatcher
  | tag t => .payloadTag t
  | invocation id _ => .invocation id

/-- **The directory that holds the runs of a `job`.** For a pull request it is that of the first prefix that belongs to
the job, and a job without one has none. -/
def root? (selector : PayloadSelector) (job : String) : Option String :=
  match selector with
  | tag _ => some ("logs/" ++ job)
  | invocation _ prefixes => (prefixes.find? (·.jobName == job)).map (·.directory)

end PayloadSelector

end PayloadGate
