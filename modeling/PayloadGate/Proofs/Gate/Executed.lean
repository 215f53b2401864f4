import PayloadGate.Proofs.Gate.Report
import PayloadGate.Proofs.Junit.Deciding

/-! # Tests that were not executed

A case can carry a mark that its test was not executed. The counts of a tree heed the mark, unless there is a failure,
too; the verdict does not, so that a case without a failure is a pass, whether its test was executed or not.

* **`Junit.Counted`**, **`Junit.counted_of_decides`** — what a verdict and the counts make of the case that decides.
* **`Checker.executedIn`**, **`Checker.unexecutedIn`** — runs whose test passed, and runs whose test was not executed.
* **`Checker.passCount_eq`** — the passes of a gate are the runs of both kinds.
* **`AgreesWithCounts`**, **`verdict_agreesWithCounts`** — how far verdicts and counts agree.
* **`exists_passed_unexecuted`** — a gate that is passed by a test that was not executed. -/

namespace PayloadGate

open Junit (Suite TestCase TestId Verdict verdict verdict_eq_ofFirst verdictOfForest_eq_ofFirst)
open Junit.Suite (caseFailed caseSkipped countOf)

/-! ## Verdicts and counts -/

namespace Junit

variable {t : TestId} {s : Suite} {x : TestCase}

/-- A case passes when it tells of no failure. -/
theorem Verdict.ofFirst_cons (x : TestCase) (xs : List TestCase) :
    Verdict.ofFirst (x :: xs) = if caseFailed x = true then .failed else .passed := rfl

/-- `caseSkipped x` excludes `caseFailed x`: a case is counted for one of the two at most. -/
theorem caseFailed_of_caseSkipped (h : caseSkipped x = true) : caseFailed x = false := by
  rw [Suite.caseSkipped, Bool.and_eq_true] at h
  rw [Suite.caseFailed, ← Option.not_isNone, h.1]
  rfl

/-- **A case `x` in its place among others** adds one to their number when `p x`. -/
theorem countOf_place (p : TestCase → Bool) (before after : List TestCase) (x : TestCase) :
    countOf p (before ++ x :: after) = countOf p before + (if p x = true then 1 else 0) + countOf p after := by
  have hx : countOf p [x] = if p x = true then 1 else 0 := by
    rw [countOf, List.countP_singleton]
    split_ifs <;> rfl
  rw [← List.singleton_append, Suite.countOf_append, Suite.countOf_append, hx, UInt32.add_assoc]

/-- **What the verdict of the tree `s` and its counts make of the case `x` that decides** on the test `t`. -/
structure Counted (t : TestId) (s : Suite) (x : TestCase) : Prop where
  /-- The case has the name of the test. -/
  name_eq : x.name = t.name
  /-- The verdict is a failure exactly when the case counts as failed. -/
  failed_iff : verdict t s = .failed ↔ caseFailed x = true
  /-- It is a pass whenever the case does not count as failed. -/
  passed_iff : verdict t s = .passed ↔ caseFailed x = false
  /-- In its place in the tree, the case adds to the number of failures when the verdict is a failure, and to the number
  of skipped tests when the verdict is a pass and the test was not executed. -/
  counts : ∃ before after, s.allCases = before ++ x :: after
    ∧ s.recount.failures
      = countOf caseFailed before + (if verdict t s = .failed then 1 else 0) + countOf caseFailed after
    ∧ s.recount.skipped
      = countOf caseSkipped before + (if verdict t s = .passed ∧ x.skipped.isSome = true then 1 else 0)
        + countOf caseSkipped after
  /-- A pass counts neither as failed nor as skipped, exactly when the case does not count as skipped. -/
  agree_iff : (verdict t s = .passed → caseFailed x = false ∧ caseSkipped x = false) ↔ caseSkipped x = false

/-- The verdict of a tree is told by the first of `t.casesIn s`. -/
theorem verdict_of_decides (h : (t.casesIn s).head? = some x) :
    verdict t s = if caseFailed x = true then .failed else .passed := by
  obtain ⟨xs, hxs⟩ := List.head?_eq_some_iff.1 h
  rw [verdict_eq_ofFirst, hxs, Verdict.ofFirst_cons]

/-- **What the verdict and the counts make of the case that decides**: they agree on failures, and on passes unless the
case counts as skipped. -/
theorem counted_of_decides (h : (t.casesIn s).head? = some x) : Counted t s x := by
  obtain ⟨hmem, hname⟩ := TestId.mem_of_mem_casesIn (List.mem_of_mem_head? h)
  -- `x` has a place among the cases, and with its verdict changed one summand of `countOf` changes
  obtain ⟨before, after, hplace⟩ := List.append_of_mem hmem
  have hverdict := verdict_of_decides h
  have hfailed : verdict t s = .failed ↔ caseFailed x = true := by
    rw [hverdict]
    by_cases hx : caseFailed x = true <;> simp [hx]
  have hpassed : verdict t s = .passed ↔ caseFailed x = false := by
    rw [hverdict]
    by_cases hx : caseFailed x = true <;> simp [hx]
  have hskipped : (verdict t s = .passed ∧ x.skipped.isSome = true) ↔ caseSkipped x = true := by
    rw [hpassed, Suite.caseSkipped, Bool.and_eq_true, Suite.caseFailed]
    simp
  obtain ⟨-, hskips, hfailures⟩ := Suite.counts_recount s
  refine ⟨hname, hfailed, hpassed, ⟨before, after, hplace, ?_, ?_⟩, ?_⟩
  · rw [hfailures, hplace, countOf_place]
    simp only [hfailed]
  · rw [hskips, hplace, countOf_place]
    simp only [hskipped]
  · rw [hpassed]
    -- a case with a skip marker is no failed one, so the marker alone can part `.passed` from not skipped
    constructor
    · intro hagree
      by_contra hskip
      have hx : caseFailed x = false := caseFailed_of_caseSkipped (by simpa using hskip)
      exact hskip (hagree hx).2
    · intro hskip hx
      exact ⟨hx, hskip⟩

end Junit

/-! ## Runs -/

namespace Checker

variable {c : Checker} {r : JudgedRun}

/-- **The case that decides** on the test in the run `r`: the first one of all its trees. -/
def decidingCase? (c : Checker) (r : JudgedRun) : Option TestCase := (r.forest.flatMap c.test.casesIn).head?

/-- **The test was executed in the run `r` and passed**: the case that decides neither fails nor is skipped. -/
def executedIn (c : Checker) (r : JudgedRun) : Bool :=
  (c.decidingCase? r).any fun x => !caseFailed x && !caseSkipped x

/-- **The test was not executed in the run `r`**: the case that decides says so, and tells of no failure. -/
def unexecutedIn (c : Checker) (r : JudgedRun) : Bool := (c.decidingCase? r).any caseSkipped

/-- **A run is a pass** when the case `x` that decides tells of no failure. -/
theorem passedIn_iff : c.passedIn r = true ↔ ∃ x, c.decidingCase? r = some x ∧ caseFailed x = false := by
  rw [passedIn, beq_iff_eq, verdictOn, verdictOfForest_eq_ofFirst, decidingCase?]
  cases r.forest.flatMap c.test.casesIn with
  | nil => simp [Verdict.ofFirst]
  | cons x xs =>
    rw [Junit.Verdict.ofFirst_cons]
    by_cases hx : caseFailed x = true <;> simp [hx]

/-- A run is a pass when its test was executed and passed, and when it was not executed, but not for both reasons. -/
theorem passedIn_eq (c : Checker) (r : JudgedRun) :
    c.passedIn r = (c.executedIn r || c.unexecutedIn r) ∧ (c.executedIn r && c.unexecutedIn r) = false := by
  cases h : c.decidingCase? r with
  | none =>
    have hpassed : c.passedIn r = false := by
      rw [Bool.eq_false_iff, Ne, passedIn_iff, h]
      simp
    simp [hpassed, executedIn, unexecutedIn, h]
  | some x =>
    have hpassed : c.passedIn r = !caseFailed x := by
      rw [Bool.eq_iff_iff, passedIn_iff, h]
      simp
    rw [hpassed, executedIn, unexecutedIn, h, Option.any_some, Option.any_some]
    cases hskip : caseSkipped x with
    | false => simp
    -- beside a failure the mark does not count
    | true => simp [Junit.caseFailed_of_caseSkipped hskip]

/-- **The passes of a gate** are the runs whose test was executed and passed, and those whose test was not executed:
`c.passCount runs` is the sum of the two numbers. -/
theorem passCount_eq (c : Checker) (runs : List JudgedRun) :
    c.passCount runs = runs.countP c.executedIn + runs.countP c.unexecutedIn := by
  induction runs with
  | nil => rfl
  | cons r runs ih =>
    obtain ⟨hor, hand⟩ := c.passedIn_eq r
    have hrun : (if c.passedIn r = true then 1 else 0)
        = (if c.executedIn r = true then 1 else 0) + (if c.unexecutedIn r = true then 1 else 0) := by
      rw [hor]
      cases hexecuted : c.executedIn r with
      | false => simp
      | true =>
        rw [hexecuted, Bool.true_and] at hand
        simp [hand]
    rw [passCount] at ih ⊢
    rw [List.countP_cons, List.countP_cons, List.countP_cons, ih, hrun]
    omega

end Checker

/-! ## Marks -/

/-- **How far verdicts and counts agree** on the tree `s`, and what the gate `c` makes of it. -/
structure AgreesWithCounts (t : TestId) (s : Suite) (c : Checker) (runs : List JudgedRun) : Prop where
  /-- The verdict is decided when some case decides. -/
  decided_iff : (verdict t s).isDecided = true ↔ ∃ x, (t.casesIn s).head? = some x
  /-- What the verdict and the counts make of that case. -/
  counted : ∀ x, (t.casesIn s).head? = some x → Junit.Counted t s x
  /-- The passes of a gate are those that were executed, exactly when each run has a deciding case that does not count
  as skipped, or none. -/
  executed_iff : (∀ r ∈ runs, c.passedIn r = true → c.executedIn r = true) ↔ ∀ r ∈ runs, c.unexecutedIn r = false
  /-- In any case they are the runs that were executed and passed, and those that were not executed. -/
  passCount_eq : c.passCount runs = runs.countP c.executedIn + runs.countP c.unexecutedIn

/-- **How far verdicts and counts agree**, for all tests `t`, trees `s`, gates `c` and `runs`: on failures always, on
passes unless the case that decides says that the test was not executed. -/
theorem verdict_agreesWithCounts (t : TestId) (s : Suite) (c : Checker) (runs : List JudgedRun) :
    AgreesWithCounts t s c runs := by
  refine ⟨?_, fun x => Junit.counted_of_decides, forall₂_congr fun r _ => ?_, c.passCount_eq runs⟩
  · rw [verdict_eq_ofFirst, Verdict.isDecided_ofFirst]
    cases t.casesIn s <;> simp
  · obtain ⟨hor, hand⟩ := c.passedIn_eq r
    rw [hor]
    cases hexecuted : c.executedIn r with
    | false => simp
    | true =>
      rw [hexecuted, Bool.true_and] at hand
      simp [hand]

/-- A tree whose only case was not executed. -/
def unexecuted : Suite :=
  { Suite.named "cluster install" with
    cases := [{ TestCase.named "install should succeed: overall" with skipped := some "not executed" }] }

/-- **A test that was not executed passes the gate**: its tree counts it as skipped, and its verdict is a pass, so that
the one run that is required is there. -/
theorem exists_passed_unexecuted :
    ∃ x, (TestId.install.casesIn unexecuted).head? = some x ∧ caseSkipped x = true
      ∧ unexecuted.recount.skipped = 1 ∧ verdict .install unexecuted = .passed
      ∧ ∀ run, (⟨.install, "", 1⟩ : Checker).passedIn ⟨run, [unexecuted]⟩ = true
        ∧ (⟨.install, "", 1⟩ : Checker).isShort [⟨run, [unexecuted]⟩] = false := by
  refine ⟨_, rfl, rfl, rfl, rfl, fun run => ⟨rfl, rfl⟩⟩

end PayloadGate
