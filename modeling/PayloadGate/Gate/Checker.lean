import PayloadGate.Gate.Evidence

/-! # The gate on one test

* **`JudgedRun`** — a run with its `forest`.
* **`Checker`** — a `test` with the number of passes that the payload needs, `required`.
* **`Checker.evidence`**, **`Checker.check`** — the evidence of a list of runs, and the synthetic suite that
  reports on it.
* **`report checkers took runs`** — the suite that holds `c.check (took i) runs` for the `i`-th checker `c`. -/

namespace PayloadGate

open Junit
open Decimal (Binary64)

/-- **A run with its results**: `forest` holds the suites of all its result files, in their order. -/
structure JudgedRun where
  /-- The run. -/
  run : JobRun
  /-- Its suites. -/
  forest : List Suite

/-- **The gate on a test**: `test` must have passed in at least `required` of the runs. -/
structure Checker where
  /-- The test. -/
  test : TestId
  /-- Says in the name of the report for which jobs it was made; may be empty. -/
  suffix : String
  /-- The number of runs in which the test must have passed. -/
  required : Nat

/-- The name of the suite that holds the report of a checker. -/
def minimumPassesSuite : String := "minimum-required-passes-checker"

/-- The facets that are known, as they stand behind the name of a report; those that are empty are left out. -/
def facetSuffix (platform network infrastructure : String) : String :=
  let part (name value : String) : List String := if value = "" then [] else [name ++ ":" ++ value]
  " ".intercalate
    (part "platform" platform ++ part "network" network ++ part "infrastructure" infrastructure)

namespace Checker

/-- The name of the synthetic test. -/
def syntheticName (c : Checker) : String :=
  "test '" ++ c.test.name ++ "' has required number of successful passes across payload jobs"
    ++ if c.suffix = "" then "" else " for " ++ c.suffix

/-- The verdict of the run `r` on the test: that of its first tree that decides. -/
def verdictOn (c : Checker) (r : JudgedRun) : Verdict := verdictOfForest c.test r.forest

/-- **The evidence of a list of runs**: each is recorded with its `verdictOn`, and then they are counted. -/
def evidence (c : Checker) (runs : List JudgedRun) : Evidence :=
  (runs.foldl (fun (e : Evidence) (r : JudgedRun) => e.record r.run (c.verdictOn r))
    (Evidence.start c.test)).summarize runs.length

/-- The failure of the synthetic test, when there are too few `passes`: less than `c.required`. -/
def failure? (c : Checker) (passes : Nat) : Option FailureNote :=
  if passes < c.required then
    some ⟨"required minimum successful count " ++ Decimal.text c.required ++ ", got "
      ++ Decimal.text passes, ""⟩
  else none

/-- **The synthetic test case** for the evidence `e`. It prints `e.yaml`, and states that checking `took` that many
seconds. -/
def syntheticCase (c : Checker) (took : Binary64) (e : Evidence) : TestCase :=
  { TestCase.named c.syntheticName with
    duration := took, failure := c.failure? e.passes.length, systemOut := e.yaml }

/-- **The synthetic suite**: the synthetic test for `c.evidence runs`, below the suites `c.test.suites`, with its counts
brought up to date. -/
def check (c : Checker) (took : Binary64) (runs : List JudgedRun) : Suite :=
  ((Suite.named minimumPassesSuite).modifyAt c.test.suites
    (Suite.addCase (c.syntheticCase took (c.evidence runs)))).recount

end Checker

/-- The name of the suite at the top of a report. -/
def crossJobsSuite : String := "payload-cross-jobs"

/-- **The report of an analysis**: one synthetic suite per checker, in their order. The `i`-th of them `took i`
seconds. -/
def report (checkers : List Checker) (took : Nat → Binary64) (runs : List JudgedRun) : Suite :=
  ({ Suite.named crossJobsSuite with children := checkers.mapIdx fun i c => c.check (took i) runs } : Suite).recount

end PayloadGate
