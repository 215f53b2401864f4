import PayloadGate.Gate.Checker
import PayloadGate.Proofs.Junit.Counts
import Mathlib.Algebra.Ring.Nat

/-! # What a report says

* **`Checker.passCount`**, **`Checker.passes_evidence`** — the runs in which the test of a checker passed.
* **`Checker.evidence_eq`** — the evidence puts every run in the list of its verdict.
* **`Checker.allCases_check`** — the suite of a checker holds one case, which fails when there are too few passes.
* **`children_report`**, **`recount_report`** — the report of an analysis holds the suites of its checkers, with
  counts that are up to date.
* **`failures_report`** — it counts the checkers that have too few passes. -/

namespace PayloadGate

open Decimal (Binary64)
open Junit (Suite TestCase)

namespace Checker

variable {c : Checker} {runs : List JudgedRun}

/-! ## One checker -/

/-- Whether the test passed in the run `r`. -/
def passedIn (c : Checker) (r : JudgedRun) : Bool := c.verdictOn r == .passed

/-- **The number of runs in which the test passed**, among `runs`. -/
def passCount (c : Checker) (runs : List JudgedRun) : Nat := runs.countP c.passedIn

/-- Whether there are too few passes: less than `c.required`. -/
def isShort (c : Checker) (runs : List JudgedRun) : Bool := decide (c.passCount runs < c.required)

/-- **The runs with the verdict `v`**, as references and in their order. -/
def bucket (c : Checker) (v : Junit.Verdict) (runs : List JudgedRun) : List RunReference :=
  (runs.filter fun r => c.verdictOn r == v).map (·.run.reference)

/-- The evidence `e`, when `runs` are recorded in it one by one. -/
theorem foldl_record (c : Checker) (runs : List JudgedRun) (e : Evidence) :
    runs.foldl (fun (e : Evidence) (r : JudgedRun) => e.record r.run (c.verdictOn r)) e
      = { e with
          passes := e.passes ++ c.bucket .passed runs
          failures := e.failures ++ c.bucket .failed runs
          skips := e.skips ++ c.bucket .skipped runs } := by
  induction runs generalizing e with
  | nil => simp [bucket]
  | cons r runs ih =>
    rw [List.foldl_cons, ih]
    cases hv : c.verdictOn r <;> simp [bucket, hv]

/-- **The evidence puts every run in the list of its verdict**: the three lists are `c.bucket .passed runs`,
`c.bucket .failed runs` and `c.bucket .skipped runs`. -/
theorem evidence_eq (c : Checker) (runs : List JudgedRun) :
    c.evidence runs = ({ Evidence.start c.test with
      passes := c.bucket .passed runs
      failures := c.bucket .failed runs
      skips := c.bucket .skipped runs } : Evidence).summarize runs.length := by
  rw [evidence, foldl_record]
  rfl

/-- **The passes of the evidence are the runs in which the test passed**, in their order. -/
theorem passes_evidence (c : Checker) (runs : List JudgedRun) :
    (c.evidence runs).passes = (runs.filter c.passedIn).map (·.run.reference) := by
  rw [evidence_eq]
  rfl

/-- `(c.evidence runs).passes.length = c.passCount runs`: the gate is decided by the passes that the evidence tells. -/
theorem length_passes_evidence (c : Checker) (runs : List JudgedRun) :
    (c.evidence runs).passes.length = c.passCount runs := by
  rw [passes_evidence, List.length_map, passCount, List.countP_eq_length_filter]

/-- **The suite of a checker holds its one case**: `(c.check took runs).allCases` is the synthetic case for
`c.evidence runs` alone. -/
theorem allCases_check (c : Checker) (took : Binary64) (runs : List JudgedRun) :
    (c.check took runs).allCases = [c.syntheticCase took (c.evidence runs)] := by
  rw [check, Suite.allCases_recount]
  exact Suite.allCases_chain minimumPassesSuite c.test.suites _

/-- **It fails when there are too few passes**, `c.isShort runs`, however long it took. -/
theorem caseFailed_syntheticCase (c : Checker) (took : Binary64) (runs : List JudgedRun) :
    Suite.caseFailed (c.syntheticCase took (c.evidence runs)) = c.isShort runs := by
  rw [Suite.caseFailed, syntheticCase, failure?, length_passes_evidence, isShort]
  by_cases h : c.passCount runs < c.required
  · simp [h]
  · simp [h]

/-- The suite of a checker has counts that are up to date: to `recount` it changes nothing. -/
theorem recount_check (c : Checker) (took : Binary64) (runs : List JudgedRun) :
    (c.check took runs).recount = c.check took runs :=
  Suite.recount_recount _

end Checker

/-! ## The report -/

variable (checkers : List Checker) (took : Nat → Binary64) (runs : List JudgedRun)

/-- The name of a report is `crossJobsSuite`. -/
theorem name_report : (report checkers took runs).name = crossJobsSuite := Suite.name_recount _

/-- A report has no cases of its own. -/
theorem cases_report : (report checkers took runs).cases = [] := Suite.cases_recount _

/-- **A report holds the suites of its checkers**, in their order: the `i`-th child is `c.check (took i) runs` for the
`i`-th checker `c`. -/
theorem children_report :
    (report checkers took runs).children = checkers.mapIdx fun i c => c.check (took i) runs := by
  rw [report, Suite.children_recount, List.mapIdx_eq_zipIdx_map, List.map_map]
  exact List.map_congr_left fun x _ => x.1.recount_check (took x.2) runs

/-- **A report has counts that are up to date.** -/
theorem recount_report : (report checkers took runs).recount = report checkers took runs := Suite.recount_recount _

/-- **The cases of a report are the synthetic ones**, one for each checker. -/
theorem allCases_report :
    (report checkers took runs).allCases = checkers.mapIdx fun i c => c.syntheticCase (took i) (c.evidence runs) := by
  rw [Suite.allCases_eq, cases_report, children_report, List.nil_append]
  -- the places of the checkers behind the first one are counted from it
  induction checkers generalizing took with
  | nil => rfl
  | cons c checkers ih =>
    rw [List.mapIdx_cons, Suite.allCasesOf, c.allCases_check, ih fun i => took (i + 1), List.mapIdx_cons,
      List.singleton_append]

/-- The cases of a report that fail are those of the checkers with too few passes: as many as `isShort` holds of. -/
theorem countP_caseFailed_report :
    (report checkers took runs).allCases.countP Suite.caseFailed = checkers.countP fun c => c.isShort runs := by
  have hshort : Suite.caseFailed ∘ (fun x : Checker × Nat => x.1.syntheticCase (took x.2) (x.1.evidence runs))
      = (fun c => c.isShort runs) ∘ Prod.fst := by
    funext x
    exact x.1.caseFailed_syntheticCase (took x.2) runs
  rw [allCases_report, List.mapIdx_eq_zipIdx_map, List.countP_map, hshort, ← List.countP_map, List.zipIdx_map_fst]

/-- **A report counts the checkers with too few passes**, in the width of the counts. -/
theorem failures_report :
    (report checkers took runs).failures = (checkers.countP fun c => c.isShort runs).toUInt32 := by
  rw [← countP_caseFailed_report checkers took, ← recount_report, (Suite.counts_recount _).2.2, recount_report]
  rfl

/-- **It counts no failure when their number is a multiple of `2 ^ 32`**, which a count does not hold. -/
theorem failures_report_eq_zero_iff :
    (report checkers took runs).failures = 0 ↔ 2 ^ 32 ∣ checkers.countP fun c => c.isShort runs := by
  rw [failures_report, ← UInt32.toNat_inj, Nat.dvd_iff_mod_eq_zero]
  exact Iff.rfl

/-- **A failure that it counts is one of a checker with too few passes**: `c.isShort runs` for one of the `checkers`. -/
theorem exists_isShort_of_failures (h : 0 < (report checkers took runs).failures) :
    ∃ c ∈ checkers, c.isShort runs = true := by
  have hpos : 0 < checkers.countP fun c => c.isShort runs := by
    refine Nat.pos_of_ne_zero fun hzero => ?_
    rw [failures_report, hzero] at h
    exact absurd h (by decide)
  exact List.countP_pos_iff.1 hpos

/-- **Without a failure each checker has its passes**, `c.required ≤ c.passCount runs`, as long as there are not more
`checkers` than the width of the counts allows. -/
theorem required_le_of_failures (h : (report checkers took runs).failures = 0) (hlength : checkers.length < 2 ^ 32)
    {c : Checker} (hc : c ∈ checkers) : c.required ≤ c.passCount runs := by
  have hdvd := (failures_report_eq_zero_iff checkers took runs).1 h
  have hzero := Nat.eq_zero_of_dvd_of_lt hdvd (Nat.lt_of_le_of_lt List.countP_le_length hlength)
  have hnot := List.countP_eq_zero.1 hzero c hc
  rw [Checker.isShort, decide_eq_true_eq] at hnot
  exact Nat.not_lt.1 hnot

end PayloadGate
