import PayloadGate.Proofs.Junit.UpToDate

/-! # One line for each failed case

The lines that tell of a tree are made on the way down, with the names that have been passed so far; its counts are made
on the way up. Both tell of the same cases.

* **`FailedCase`**, **`Suite.failedCases`** — the failed cases of a tree in depth-first order, each with the names that
  lead to it.
* **`Suite.failureLines_eq`** — the lines of a tree are those of its failed cases.
* **`TellsFailures`**, **`tellsFailures_failureLines`** — what the lines tell, and how many there are. -/

namespace PayloadGate.Junit

/-- **A failed case with the names that lead to it**, from that of the root to that of its suite. -/
structure FailedCase where
  /-- The names. -/
  names : List String
  /-- The case. -/
  testCase : TestCase
  /-- What it tells of its failure. -/
  note : FailureNote
  deriving DecidableEq

namespace FailedCase

/-- The failed case as it is seen from the suite above, which has the `name`. -/
def below (name : String) (x : FailedCase) : FailedCase := { x with names := name :: x.names }

/-- **The line for a failed case** below the `parents`: all names on the way to it, its own, and its message. -/
def line (parents : List String) (x : FailedCase) : String :=
  "Test failed: " ++ " / ".intercalate (parents ++ x.names ++ [x.testCase.name]) ++ ": " ++ x.note.message

/-- A name more on the way belongs to the case or to the parents: the line is the same. -/
theorem line_below (parents : List String) (name : String) (x : FailedCase) :
    (x.below name).line parents = x.line (parents ++ [name]) := by
  rw [line, line, below, List.append_assoc parents [name], List.singleton_append]

end FailedCase

/-- The failed cases of a suite itself, in their order. -/
def Trail.failed (x : Trail) : List FailedCase :=
  x.suite.cases.filterMap fun c => c.failure.map (FailedCase.mk x.names c)

/-- The failed cases of a suite, as they are seen from the suite above. -/
theorem Trail.failed_below (name : String) (x : Trail) :
    (x.below name).failed = x.failed.map (FailedCase.below name) := by
  rw [failed, failed, List.map_filterMap]
  simp only [Option.map_map]
  rfl

/-- The cases of a suite that tell of a failure are those with `c.failure.isSome`. -/
theorem Trail.map_testCase_failed (x : Trail) :
    x.failed.map (·.testCase) = x.suite.cases.filter fun c => c.failure.isSome := by
  rw [failed]
  induction x.suite.cases with
  | nil => rfl
  | cons c cs ih => cases h : c.failure <;> simp [h, ih]

namespace Suite

variable {parents : List String} {s : Suite} {x : FailedCase}

/-- **The failed cases of a tree** in depth-first order: those of a suite itself, and then those of its children, along
`s.trails`. -/
def failedCases (s : Suite) : List FailedCase := s.trails.flatMap Trail.failed

/-- The failed cases of a tree are those of its root, and those of its children with one name more. -/
theorem failedCases_eq (s : Suite) :
    s.failedCases
      = (⟨[s.name], s⟩ : Trail).failed ++ (s.children.flatMap failedCases).map (FailedCase.below s.name) := by
  have hbelow : ((s.children.flatMap trails).map (Trail.below s.name)).flatMap Trail.failed
      = (s.children.flatMap failedCases).map (FailedCase.below s.name) := by
    rw [List.flatMap_map, List.flatMap_assoc, List.map_flatMap]
    simp only [Trail.failed_below, failedCases, List.map_flatMap]
  rw [failedCases, trails_eq, List.flatMap_cons, hbelow]

/-- The lines of the cases of one suite, which is reached by `names` below the `parents`. -/
theorem ownFailureLines_eq (parents names : List String) (hnames : parents ++ names ≠ []) (cases : List TestCase) :
    ownFailureLines (parents ++ names) cases
      = (cases.filterMap fun c => c.failure.map (FailedCase.mk names c)).map (FailedCase.line parents) := by
  induction cases with
  | nil => rfl
  | cons c cs ih =>
    cases h : c.failure with
    | none => simp [ownFailureLines, h, ih]
    | some note =>
      have hline : (FailedCase.mk names c note).line parents
          = "Test failed: " ++ " / ".intercalate (parents ++ names) ++ " / " ++ c.name ++ ": " ++ note.message := by
        rw [FailedCase.line, String.intercalate_append_of_ne_nil hnames (by simp), String.intercalate_singleton,
          ← String.append_assoc, ← String.append_assoc]
      simp [ownFailureLines, h, ih, hline]

mutual
/-- **The lines of a tree are those of its failed cases**, in the same order, whatever the `parents` are. The induction
is on trees and lists of trees at once. -/
theorem failureLines_eq :
    ∀ (parents : List String) (s : Suite), failureLines parents s = s.failedCases.map (FailedCase.line parents)
  | parents, ⟨name, tests, skipped, failures, duration, cases, children⟩ => by
    -- a name that is moved from the path of the case to the parents does not change its line
    have hline : FailedCase.line parents ∘ FailedCase.below name = FailedCase.line (parents ++ [name]) :=
      funext fun x => x.line_below parents name
    rw [failureLines, ownFailureLines_eq parents [name] (by simp), failureLinesOfAll_eq (parents ++ [name]) children,
      failedCases_eq, List.map_append, List.map_map, hline]
    rfl

/-- The lines of a list of trees are those of their failed cases. -/
theorem failureLinesOfAll_eq :
    ∀ (parents : List String) (ss : List Suite),
      failureLinesOfAll parents ss = (ss.flatMap failedCases).map (FailedCase.line parents)
  | _, [] => rfl
  | parents, s :: ss => by
    rw [failureLinesOfAll, failureLines_eq parents s, failureLinesOfAll_eq parents ss, List.flatMap_cons,
      List.map_append]
end

/-- **The failed cases are the cases of the tree that tell of a failure**, in the order of `s.allCases`. -/
theorem map_testCase_failedCases (s : Suite) :
    s.failedCases.map (·.testCase) = s.allCases.filter fun c => c.failure.isSome := by
  rw [failedCases, List.map_flatMap, allCases_eq_flatMap, List.filter_flatMap]
  exact List.flatMap_congr fun x _ => x.map_testCase_failed

/-- **The names of a failed case lead to its suite** `u`, which holds it. -/
theorem exists_leads_of_mem_failedCases (h : x ∈ s.failedCases) :
    x.testCase.failure = some x.note ∧ ∃ u, Leads x.names s u ∧ x.testCase ∈ u.cases := by
  obtain ⟨trail, htrail, hx⟩ := List.mem_flatMap.1 h
  obtain ⟨c, hc, hnote⟩ := List.mem_filterMap.1 hx
  obtain ⟨note, hfailure, rfl⟩ := Option.map_eq_some_iff.1 hnote
  have hreached : trail.suite ∈ s.reached trail.names :=
    List.mem_map_of_mem (List.mem_filter.2 ⟨htrail, beq_self_eq_true _⟩)
  exact ⟨hfailure, trail.suite, mem_reached_iff.1 hreached, hc⟩

end Suite

/-- **Lines tell of the failures of a tree** below the `parents`: one for each failed case, in order. -/
structure TellsFailures (parents : List String) (s : Suite) (lines : List String) : Prop where
  /-- There is one line for each failed case, in depth-first order, with the names that lead to the case, its own name
  and its message. -/
  lines_eq : lines = s.failedCases.map (FailedCase.line parents)
  /-- The failed cases are those that tell of a failure, and no others, those of a suite before those of its
  children. -/
  cases_eq : s.failedCases.map (·.testCase) = s.allCases.filter fun c => c.failure.isSome
  /-- The names of each lead from the root of the tree to its suite, and its message is its own. -/
  leads : ∀ x ∈ s.failedCases, x.testCase.failure = some x.note ∧ ∃ u, Suite.Leads x.names s u ∧ x.testCase ∈ u.cases
  /-- There are as many lines as failures are counted, when the cases of the tree can be numbered. -/
  length_eq : s.allCases.length < 2 ^ 32 → lines.length = s.recount.failures.toNat

/-- **The lines of a tree tell of its failures**, for all `parents` and all trees. -/
theorem tellsFailures_failureLines (parents : List String) (s : Suite) :
    TellsFailures parents s (failureLines parents s) := by
  refine ⟨s.failureLines_eq parents, s.map_testCase_failedCases, fun x => Suite.exists_leads_of_mem_failedCases,
    fun h => ?_⟩
  calc (failureLines parents s).length
      = (s.failedCases.map (·.testCase)).length := by rw [s.failureLines_eq, List.length_map, List.length_map]
    _ = s.allCases.countP fun c => c.failure.isSome := by
      rw [s.map_testCase_failedCases, ← List.countP_eq_length_filter]
    _ = s.recount.failures.toNat := by rw [(Suite.statesCases_recount h).failures_eq, Suite.allCases_recount]

end PayloadGate.Junit
