import PayloadGate.Junit.Verdict
import PayloadGate.Run.JobRun
import PayloadGate.Yaml.Scalar

/-! # Evidence for a verdict on a payload

* **`RunReference`** — a job run and where it can be looked at.
* **`Evidence`** — for one test the runs in which it passed, failed, or was not found, with a summary.
* **`Evidence.record`**, **`Evidence.summarize`**, **`Evidence.yaml`**. -/

namespace PayloadGate

open Junit (TestId Verdict)

/-- **A job run and where it can be looked at.** -/
structure RunReference where
  /-- The run. -/
  runId : String
  /-- Its page in the job viewer. -/
  humanUrl : String
  /-- Its directory in the artifact browser. -/
  artifactUrl : String
  deriving DecidableEq

/-- The reference to a run. -/
def JobRun.reference (run : JobRun) : RunReference := ⟨run.runId, run.humanUrl, run.artifactUrl⟩

/-- **What the runs of a payload say of one test.** -/
structure Evidence where
  /-- Name of the test. -/
  testName : String
  /-- Its suites as one text. -/
  suiteName : String
  /-- One line of counts. -/
  summary : String
  /-- Runs in which it passed. -/
  passes : List RunReference
  /-- Runs in which it failed. -/
  failures : List RunReference
  /-- Runs in which it was not found. -/
  skips : List RunReference
  deriving DecidableEq

namespace Evidence

/-- The evidence for the test `t` before any run. -/
def start (t : TestId) : Evidence := ⟨t.name, t.joinedSuites, "", [], [], []⟩

/-- **The evidence with one run more**, at the end of the list of its verdict `v`. -/
def record (run : JobRun) (v : Verdict) (e : Evidence) : Evidence :=
  match v with
  | .passed => { e with passes := e.passes ++ [run.reference] }
  | .failed => { e with failures := e.failures ++ [run.reference] }
  | .skipped => { e with skips := e.skips ++ [run.reference] }

/-- A pass changes nothing but the list of passes. -/
@[simp] theorem record_passed (run : JobRun) (e : Evidence) :
    e.record run .passed = { e with passes := e.passes ++ [run.reference] } := rfl

/-- A failure changes nothing but the list of failures. -/
@[simp] theorem record_failed (run : JobRun) (e : Evidence) :
    e.record run .failed = { e with failures := e.failures ++ [run.reference] } := rfl

/-- A skip changes nothing but the list of skips. -/
@[simp] theorem record_skipped (run : JobRun) (e : Evidence) :
    e.record run .skipped = { e with skips := e.skips ++ [run.reference] } := rfl

/-- **The evidence with its line of counts**: `total` runs, and the lengths of the three lists. -/
def summarize (total : Nat) (e : Evidence) : Evidence :=
  { e with summary := "Total job runs: " ++ Decimal.text total
      ++ ", passes: " ++ Decimal.text e.passes.length
      ++ ", failures: " ++ Decimal.text e.failures.length
      ++ ", skips " ++ Decimal.text e.skips.length }

/-! ## YAML -/

/-- A member of the outer mapping, `name: value`. -/
def member (name value : String) : List Char := name.toList ++ ": ".toList ++ Yaml.scalar 2 value

/-- An item of a list of references, with the names that the fields have in the document. -/
def referenceItem (r : RunReference) : List Char :=
  "- jobrunid: ".toList ++ Yaml.scalar 4 r.runId
    ++ "  humanurl: ".toList ++ Yaml.scalar 4 r.humanUrl
    ++ "  gcsartifacturl: ".toList ++ Yaml.scalar 4 r.artifactUrl

/-- A list of references as the member `name`; an empty list stands on one line. -/
def referenceList (name : String) (rs : List RunReference) : List Char :=
  if rs.isEmpty then name.toList ++ ": []\n".toList
  else name.toList ++ ":\n".toList ++ rs.flatMap referenceItem

/-- **The evidence as a YAML document**, with its members in the order of its fields. -/
def yaml (e : Evidence) : String :=
  String.ofList (member "name" e.testName ++ member "testsuitename" e.suiteName
    ++ member "summary" e.summary ++ referenceList "passes" e.passes
    ++ referenceList "failures" e.failures ++ referenceList "skips" e.skips)

end Evidence

end PayloadGate
