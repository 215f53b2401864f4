import PayloadGate.Proofs.Gate.Report
import PayloadGate.Proofs.Junit.Deciding

/-! # The suite of a checker and its address

A checker reports in suites named like those of its test, below one of its own. A test with these names is found in
the report as any other is found in the results of a run.

* **`Checker.address`**, **`Addressed`**, **`addressed_check`** — the suite of a checker is found where it says. -/

namespace PayloadGate

open Decimal (Binary64)
open Junit (Suite TestCase TestId Verdict Trail verdict verdict_eq_ofFirst)

namespace Checker

/-- **The test that the report of the checker `c` is about**: below its own suite, the suites `c.test.suites`, and the
synthetic name. -/
def address (c : Checker) : TestId := ⟨minimumPassesSuite :: c.test.suites, c.syntheticName⟩

/-- The suite of a checker is a chain of suites with its one case at the end, counted. -/
theorem check_eq_recount_chain (c : Checker) (took : Binary64) (runs : List JudgedRun) :
    c.check took runs
      = (Suite.chain minimumPassesSuite c.test.suites (c.syntheticCase took (c.evidence runs))).recount := rfl

/-- The case of a checker is not skipped. -/
theorem caseSkipped_syntheticCase (c : Checker) (took : Binary64) (e : Evidence) :
    Suite.caseSkipped (c.syntheticCase took e) = false := by
  rw [Suite.caseSkipped, Bool.and_eq_false_iff]
  exact .inr rfl

end Checker

/-- **The suite of a checker is found where it says**, at `c.address`. -/
structure Addressed (c : Checker) (took : Binary64) (runs : List JudgedRun) : Prop where
  /-- At its address it fails when there are too few passes, and passes otherwise. -/
  verdict_eq : verdict c.address (c.check took runs) = if c.passCount runs < c.required then .failed else .passed
  /-- It holds one case, which has the synthetic name. -/
  single : ∃ synthetic, (c.check took runs).allCases = [synthetic] ∧ synthetic.name = c.syntheticName
  /-- Its suites are those on the way to the case, one in the other. -/
  names_eq : (c.check took runs).trails.map (·.names) = c.test.suites.inits.map (minimumPassesSuite :: ·)
  /-- Each of them counts one test, which is not skipped, and fails when there are too few passes. -/
  counts : ∀ x ∈ (c.check took runs).trails, x.suite.tests = 1 ∧ x.suite.skipped = 0
    ∧ x.suite.failures = if c.passCount runs < c.required then 1 else 0

/-- **The suite of a checker is found where it says**, for every path `c.test.suites` and all `runs`. -/
theorem addressed_check (c : Checker) (took : Binary64) (runs : List JudgedRun) : Addressed c took runs := by
  set synthetic := c.syntheticCase took (c.evidence runs) with hsynthetic
  have hfailed : Suite.caseFailed synthetic = decide (c.passCount runs < c.required) :=
    c.caseFailed_syntheticCase took runs
  have hskipped : Suite.caseSkipped synthetic = false := c.caseSkipped_syntheticCase took _
  refine ⟨?_, ⟨synthetic, c.allCases_check took runs, rfl⟩, ?_, fun x hx => ?_⟩
  · -- at the end of the chain stands the synthetic case and no other
    have hcases : c.address.casesIn (c.check took runs) = [synthetic] := by
      rw [c.check_eq_recount_chain, TestId.casesIn_recount]
      exact TestId.casesIn_chain minimumPassesSuite c.test.suites synthetic
    rw [verdict_eq_ofFirst, hcases, Verdict.ofFirst, ← Suite.caseFailed, hfailed]
    simp only [decide_eq_true_eq]
  · have hnames : (fun x : Trail => x.names) ∘ Trail.recount = (·.names) := rfl
    rw [c.check_eq_recount_chain, Suite.trails_recount, List.map_map, hnames, Suite.names_trails_chain]
  · -- every suite of the chain holds the same cases, so all have the counts of `synthetic` alone
    rw [c.check_eq_recount_chain, Suite.trails_recount] at hx
    obtain ⟨y, hy, rfl⟩ := List.mem_map.1 hx
    obtain ⟨htests, hskips, hfailures⟩ := Suite.counts_recount y.suite
    rw [Suite.allCases_of_mem_chain hy] at htests hskips hfailures
    refine ⟨htests, ?_, ?_⟩
    · rw [Trail.recount, hskips, Suite.countOf, List.countP_singleton, ← hsynthetic, hskipped]
      rfl
    · rw [Trail.recount, hfailures, Suite.countOf, List.countP_singleton, ← hsynthetic, hfailed]
      by_cases h : c.passCount runs < c.required <;> simp [h]

end PayloadGate
