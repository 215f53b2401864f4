import PayloadGate.Junit.Suite

/-! # Finding a test in a tree of results

* **`TestId`** — a test: the names of the suites that lead to it, and its own.
* **`Verdict`** — what the results say of a test.
* **`verdict`** — the verdict of a tree, **`verdictOfForest`** — that of several trees. -/

namespace PayloadGate.Junit

/-- **A test**, named by the suites from the root of a tree down to it. -/
structure TestId where
  /-- Names of the suites, from the outermost on. -/
  suites : List String
  /-- Name of the test. -/
  name : String
  deriving DecidableEq

namespace TestId

/-- The test that a cluster was installed. -/
def install : TestId := ⟨["cluster install"], "install should succeed: overall"⟩

/-- **The tests of a named group**, or `none` when there is no such group. -/
def ofGroup? (group : String) : Option (List TestId) :=
  if group = "install" then some [install] else none

/-- The names of the suites as one text, with `|||` between them. -/
def joinedSuites (t : TestId) : String := "|||".intercalate t.suites

/-- A test as messages name it: suites and name, with slashes between them. -/
def display (t : TestId) : String := " / ".intercalate (t.suites ++ [t.name])

end TestId

/-- **What the results say of a test.** -/
inductive Verdict where
  /-- It passed. -/
  | passed
  /-- It failed. -/
  | failed
  /-- It was not found. -/
  | skipped
  deriving DecidableEq

namespace Verdict

/-- The word for a verdict. -/
def text : Verdict → String
  | passed => "passed"
  | failed => "failed"
  | skipped => "skipped"

/-- A verdict that ends the search: `passed` or `failed`. -/
def isDecided : Verdict → Bool
  | skipped => false
  | _ => true

/-- **The first decided verdict of a list**, and `skipped` when none is decided. -/
def firstDecided (vs : List Verdict) : Verdict := (vs.find? isDecided).getD skipped

/-- Nothing is decided by no verdicts: `firstDecided [] = skipped`. -/
@[simp] theorem firstDecided_nil : firstDecided [] = skipped := rfl

/-- A decided verdict `v` in front counts, whatever stands behind it. -/
theorem firstDecided_cons_of_isDecided {v : Verdict} (vs : List Verdict) (h : v.isDecided = true) :
    firstDecided (v :: vs) = v := by
  simp [firstDecided, h]

/-- An undecided verdict in front does not count. -/
@[simp] theorem firstDecided_cons_skipped (vs : List Verdict) :
    firstDecided (skipped :: vs) = firstDecided vs := rfl

end Verdict

/-- What the cases of the last suite on the path say: the first case of the `name` counts, and `skipped` when there is
none. -/
def verdictOfCases (name : String) (cases : List TestCase) : Verdict :=
  match cases.find? (·.name == name) with
  | some c => if c.failure.isSome then .failed else .passed
  | none => .skipped

/-- The verdict along a path of suite names, the first of which must be the name of the suite; below, the children of
the next name are asked in their order. -/
def verdictAlong (name : String) : List String → Suite → Verdict
  | [], _ => .skipped
  | head :: rest, s =>
    if s.name = head then
      match rest with
      | [] => verdictOfCases name s.cases
      | next :: _ =>
        -- all children of that name are tried, the first one that decides counts
        .firstDecided ((s.children.filter (·.name == next)).map (verdictAlong name rest))
    else .skipped

/-- **The verdict of a tree on a test**, along `t.suites`. -/
def verdict (t : TestId) (s : Suite) : Verdict := verdictAlong t.name t.suites s

/-- **The verdict of several trees**: the first decided one, in the order of the `forest`. -/
def verdictOfForest (t : TestId) (forest : List Suite) : Verdict :=
  .firstDecided (forest.map (verdict t))

end PayloadGate.Junit
