import PayloadGate.Proofs.Gate.Report

/-! # Runs in another order

The runs of a payload come in the order in which the searches for them complete. What is reported of them does not
depend on it, but for the order in which the evidence lists them.

* **`Junit.Suite.silent`** — a tree without what its cases print and how long they took.
* **`Evidence.Alike`**, **`Checker.evidence_perm`** — evidence that differs in the order of its lists only.
* **`ReportedAlike`**, **`reportedAlike_of_perm`** — runs in another order are reported alike. -/

namespace PayloadGate

open Decimal (Binary64)
open Junit (Suite TestCase)

/-! ## Trees without what their cases print -/

namespace Junit.Suite

/-- The case `c` without what it prints and how long it took. -/
def silentCase (c : TestCase) : TestCase := { c with duration := .zero, systemOut := "" }

mutual
/-- **A tree without what its cases print and how long they took.** Names, counts and failures stay. -/
def silent : Suite → Suite
  | ⟨name, tests, skipped, failures, duration, cases, children⟩ =>
    ⟨name, tests, skipped, failures, duration, cases.map silentCase, silentAll children⟩

/-- Such trees. -/
def silentAll : List Suite → List Suite
  | [] => []
  | s :: ss => silent s :: silentAll ss
end

/-- The name stays. -/
@[simp] theorem name_silent (s : Suite) : s.silent.name = s.name := by cases s; rfl

/-- The number of failures stays. -/
@[simp] theorem failures_silent (s : Suite) : s.silent.failures = s.failures := by cases s; rfl

/-- The suites of a list are taken one by one. -/
theorem silentAll_eq_map (ss : List Suite) : silentAll ss = ss.map silent := by
  induction ss with
  | nil => rfl
  | cons s ss ih => rw [silentAll, ih, List.map_cons]

/-- What cases print does not count, for a `p` that does not look at it. -/
theorem countOf_silentCase (p : TestCase → Bool) (h : ∀ c, p (silentCase c) = p c) (cases : List TestCase) :
    countOf p (cases.map silentCase) = countOf p cases := by
  rw [countOf, List.countP_map, countOf]
  exact congrArg _ (List.countP_congr fun c _ => by rw [Function.comp_apply, h c])

/-- A count that stays the same for each suite stays the same for their sum. -/
theorem foldl_silentAll (count : Suite → UInt32) (h : ∀ s, count s.silent = count s) (ss : List Suite) (n : UInt32) :
    (silentAll ss).foldl (fun n c => n + count c) n = ss.foldl (fun n c => n + count c) n := by
  rw [silentAll_eq_map, List.foldl_map]
  simp only [h]

mutual
/-- **Counting does not depend on what cases print**: `s.recount.silent = s.silent.recount`. -/
theorem silent_recount : ∀ s : Suite, s.recount.silent = s.silent.recount
  | ⟨name, _, _, _, duration, cases, children⟩ => by
    have hall : recountAll (silentAll children) = silentAll (recountAll children) :=
      (silentAll_recountAll children).symm
    simp only [recount, silent, hall, foldl_silentAll tests (fun s => by cases s; rfl),
      foldl_silentAll skipped (fun s => by cases s; rfl),
      foldl_silentAll failures (fun s => by cases s; rfl),
      countOf_silentCase (fun _ => true) (fun _ => rfl), countOf_silentCase caseSkipped (fun _ => rfl),
      countOf_silentCase caseFailed (fun _ => rfl)]

/-- Nor does it for the suites of a list. -/
theorem silentAll_recountAll : ∀ ss : List Suite, silentAll (recountAll ss) = recountAll (silentAll ss)
  | [] => rfl
  | s :: ss => by simp only [recountAll, silentAll, silent_recount s, silentAll_recountAll ss]
end

/-- A `change` in the first suite of a name, when it does not depend on what cases print. -/
theorem silentAll_modifyFirst {change change' : Suite → Suite} (h : ∀ s, (change s).silent = change' s.silent)
    (name : String) (ss : List Suite) :
    silentAll (modifyFirst name change ss) = modifyFirst name change' (silentAll ss) := by
  induction ss with
  | nil => rw [modifyFirst_nil, silentAll, silentAll, h, modifyFirst_nil]; rfl
  | cons s ss ih =>
    by_cases hname : s.name = name
    · rw [modifyFirst_cons_of_eq change ss hname, silentAll, silentAll, h,
        modifyFirst_cons_of_eq change' (silentAll ss) ((name_silent s).trans hname)]
    · rw [modifyFirst_cons_of_ne change ss hname, silentAll, silentAll, ih,
        modifyFirst_cons_of_ne change' (silentAll ss) fun heq => hname ((name_silent s).symm.trans heq)]

/-- **A case that is added along a path** is added without what it prints. -/
theorem silent_modifyAt_addCase (path : List String) (c : TestCase) (s : Suite) :
    (s.modifyAt path (addCase c)).silent = s.silent.modifyAt path (addCase (silentCase c)) := by
  induction path generalizing s with
  | nil =>
    cases s
    simp [modifyAt, addCase, silent]
  | cons name path ih =>
    cases s
    simp only [modifyAt, silent, silentAll_modifyFirst ih]

end Junit.Suite

/-! ## Reports on runs in another order -/

variable {runs runs' : List JudgedRun}

/-- **Evidence that differs in the order of its lists only**: test, suites and summary are the same. -/
structure Evidence.Alike (e e' : Evidence) : Prop where
  /-- The test. -/
  testName_eq : e.testName = e'.testName
  /-- Its suites. -/
  suiteName_eq : e.suiteName = e'.suiteName
  /-- The counts. -/
  summary_eq : e.summary = e'.summary
  /-- The passes. -/
  passes : e.passes.Perm e'.passes
  /-- The failures. -/
  failures : e.failures.Perm e'.failures
  /-- The skips. -/
  skips : e.skips.Perm e'.skips

namespace Checker

/-- Runs in another order pass as often: `c.passCount runs = c.passCount runs'`. -/
theorem passCount_perm (c : Checker) (h : runs.Perm runs') : c.passCount runs = c.passCount runs' := h.countP_eq _

/-- The runs with a verdict `v` come in another order. -/
theorem bucket_perm (c : Checker) (v : Junit.Verdict) (h : runs.Perm runs') :
    (c.bucket v runs).Perm (c.bucket v runs') := (h.filter _).map _

/-- **The evidence of runs in another order** differs in the order of its lists only: `runs.Perm runs'` gives
`(c.evidence runs).Alike (c.evidence runs')`. -/
theorem evidence_perm (c : Checker) (h : runs.Perm runs') : (c.evidence runs).Alike (c.evidence runs') := by
  have hbucket := fun v => c.bucket_perm v h
  rw [evidence_eq, evidence_eq]
  refine ⟨rfl, rfl, ?_, hbucket .passed, hbucket .failed, hbucket .skipped⟩
  rw [Evidence.summarize, Evidence.summarize]
  simp only [h.length_eq, (hbucket _).length_eq]

/-- What cases print and how long they took apart, the suite of the checker `c` depends on `c.passCount` alone. -/
theorem silent_check_congr (c : Checker) (took took' : Binary64) (h : c.passCount runs = c.passCount runs') :
    (c.check took runs).silent = (c.check took' runs').silent := by
  have hcase : Suite.silentCase (c.syntheticCase took (c.evidence runs))
      = Suite.silentCase (c.syntheticCase took' (c.evidence runs')) := by
    simp only [Suite.silentCase, syntheticCase, length_passes_evidence, h]
  rw [check, check, Suite.silent_recount, Suite.silent_recount, Suite.silent_modifyAt_addCase,
    Suite.silent_modifyAt_addCase, hcase]

end Checker

variable {checkers : List Checker} {took took' : Nat → Binary64}

/-- What cases print and how long they took apart, a report depends on the numbers of passes alone. -/
theorem silent_report_congr (h : ∀ c ∈ checkers, c.passCount runs = c.passCount runs') :
    (report checkers took runs).silent = (report checkers took' runs').silent := by
  have hchildren : Suite.silentAll (checkers.mapIdx fun i c => c.check (took i) runs)
      = Suite.silentAll (checkers.mapIdx fun i c => c.check (took' i) runs') := by
    rw [Suite.silentAll_eq_map, Suite.silentAll_eq_map, List.mapIdx_eq_zipIdx_map, List.mapIdx_eq_zipIdx_map,
      List.map_map, List.map_map]
    exact List.map_congr_left fun x hx => x.1.silent_check_congr _ _ (h x.1 (List.fst_mem_of_mem_zipIdx hx))
  rw [report, report, Suite.silent_recount, Suite.silent_recount]
  simp only [Suite.silent, hchildren]

/-- **Two lists of runs that are reported alike**, however long checking them took: the reports are the same but for
what cases print, and these print evidence that is alike. -/
structure ReportedAlike (checkers : List Checker) (runs runs' : List JudgedRun) : Prop where
  /-- The trees are the same, but for what their cases print and how long they took. -/
  silent_eq : ∀ took took', (report checkers took runs).silent = (report checkers took' runs').silent
  /-- The cases print the evidence of the checkers. -/
  prints : ∀ took, (report checkers took runs).allCases.map (·.systemOut) = checkers.map fun c => (c.evidence runs).yaml
  /-- Those of the other tree do so, too. -/
  prints' : ∀ took,
    (report checkers took runs').allCases.map (·.systemOut) = checkers.map fun c => (c.evidence runs').yaml
  /-- The evidence differs in the order of its lists only. -/
  alike : ∀ c ∈ checkers, (c.evidence runs).Alike (c.evidence runs')

/-- The cases of a report print the evidence of the `checkers`, in their order. -/
theorem systemOut_report (checkers : List Checker) (took : Nat → Binary64) (runs : List JudgedRun) :
    (report checkers took runs).allCases.map (·.systemOut) = checkers.map fun c => (c.evidence runs).yaml := by
  rw [allCases_report, List.mapIdx_eq_zipIdx_map, List.map_map]
  show checkers.zipIdx.map ((fun c : Checker => (c.evidence runs).yaml) ∘ Prod.fst) = _
  rw [← List.map_map, List.zipIdx_map_fst]

/-- **Runs in another order are reported alike**: `runs.Perm runs'` gives `ReportedAlike checkers runs runs'`. -/
theorem reportedAlike_of_perm (checkers : List Checker) (h : runs.Perm runs') : ReportedAlike checkers runs runs' :=
  ⟨fun _ _ => silent_report_congr fun c _ => c.passCount_perm h, fun took => systemOut_report checkers took runs,
    fun took => systemOut_report checkers took runs', fun c _ => c.evidence_perm h⟩

/-- Reports on runs that are reported alike count as many failures. -/
theorem ReportedAlike.failures_eq (h : ReportedAlike checkers runs runs') (took took' : Nat → Binary64) :
    (report checkers took runs).failures = (report checkers took' runs').failures := by
  rw [← Suite.failures_silent, h.silent_eq took took', Suite.failures_silent]

end PayloadGate
