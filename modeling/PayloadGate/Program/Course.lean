import PayloadGate.Catalog.Warehouse
import PayloadGate.Program.Log
import PayloadGate.Settings.Config
import PayloadGate.Settings.EnvFile
import PayloadGate.Store.Remote

/-! # What the program says and how it ends

* **`Course`** — how a run of the program went: its configuration was refused, or its analysis had a result.
* **`Course.lines`** — the log of a run.
* **`Course.exitCode`** — the exit code. A soft failure is a verdict on the payload and not one of the program.
* **`Services`** — what the program connects to; **`Services.connect`** does it. -/

namespace PayloadGate

/-- **How a run of the program went**: refused for its configuration, or run to a result. -/
inductive Course where
  /-- The configuration was refused. -/
  | refused (fault : ConfigFault)
  /-- The analysis had a result: the place of the report, or why there is none that passes. -/
  | ran (config : Config) (interrupted : Bool) (result : Except Failure String)

namespace Course

/-- The lines about a configuration that was refused. -/
def refusal (fault : ConfigFault) : List LogLine :=
  ["Failed to load configuration: " ++ fault.message,
    "",
    "Please check your environment variables:",
    "  - RUST_ENV must be set to 'development' or 'production'",
    "  - Exactly one of JRA_PAYLOAD_TAG and JRA_PAYLOAD_INVOCATION_ID must be set",
    "  - JRA_PAYLOAD_INVOCATION_ID requires JRA_EXPLICIT_GCS_PREFIXES",
    "  - In production, DATABASE_URL and S3 credentials must be set"].map (⟨.error, ·⟩)

/-- A line of a banner. -/
def rule : String := String.ofList (List.replicate 40 '=')

/-- The lines before an analysis. -/
def banner (c : Config) : List LogLine :=
  [rule,
    "  Job Run Analyzer",
    "  Environment: " ++ c.environment.name,
    "  Payload: " ++ c.settings.matchId,
    rule].map (⟨.info, ·⟩)
  ++ if c.environment = .development then
      [⟨.warn, "Running in DEVELOPMENT mode - do not use in production!"⟩]
    else []

/-- The line about an interruption. -/
def interruption : LogLine := ⟨.warn, "Interrupted, cancelling analysis"⟩

/-- The line about a result: `isSoft` failures are warnings, all others errors. -/
def closing : Except Failure String → LogLine
  | .ok path => ⟨.info, "All test cases passed, report at " ++ path⟩
  | .error f => if f.isSoft then ⟨.warn, f.message⟩ else ⟨.error, "Analysis failed: " ++ f.message⟩

/-- **The log of a run.** -/
def lines : Course → List LogLine
  | refused fault => refusal fault
  | ran config interrupted result =>
    banner config ++ (if interrupted then [interruption] else []) ++ [closing result]

/-- The lines that are shown. -/
def shown (c : Course) (f : LogFilter) : List LogLine := c.lines.filter f.shows

/-- **The exit code of a run**: `0` for a report and for soft failures, `1` for a refused configuration and all other
failures. -/
def exitCode : Course → Nat
  | refused _ => 1
  | ran _ _ (.ok _) => 0
  | ran _ _ (.error f) => if f.isSoft then 0 else 1

end Course

/-- The variable that says which lines are shown. -/
def logVariable : String := "RUST_LOG"

/-- The filter that variables state. -/
def LogFilter.ofVariables (vars : Variables) : LogFilter := .ofText ((vars logVariable).getD "")

/-- **What the program connects to.** -/
structure Services where
  /-- The bucket of a storage. -/
  bucket : StorageConfig → RemoteBucket
  /-- The warehouse of an address, when there is one. -/
  warehouse : String → Except String Warehouse

/-- A warehouse, when it could be connected to. -/
def Warehouse.opened : Except String Warehouse → Except Failure Warehouse
  | .ok w => .ok w
  | .error reason => .error (.database ("Failed to connect to database: " ++ reason))

/-- **The connections of a configuration**: first to the storage, then to the warehouse; the first failure ends it. -/
def Services.connect (s : Services) (c : Config) : Except Failure (RemoteBucket × Warehouse) := do
  let bucket := s.bucket c.storage
  bucket.check
  let warehouse ← Warehouse.opened (s.warehouse c.databaseUrl)
  .ok (bucket, warehouse)

end PayloadGate
