import PayloadGate.Decimal.Shortest

/-! # Trees of test results

* **`TestCase`**, **`Suite`** — the cases of a suite and the suites below it, with the counts and the
  duration that the suite states of itself.
* **`Suite.at?`**, **`Suite.modifyAt`** — following a path of names, in the second case making the suites
  that are missing.
* **`Suite.recount`** — the counts computed anew, from the leaves upward. -/

namespace PayloadGate.Junit

open Decimal (Binary64)

/-- What a failed case tells. -/
structure FailureNote where
  /-- The message. -/
  message : String
  /-- The output that goes with it. -/
  output : String
  deriving DecidableEq

/-- **A test case.** -/
structure TestCase where
  /-- The name of the test. -/
  name : String
  /-- How long it took, in seconds. -/
  duration : Binary64
  /-- Present when the test failed. -/
  failure : Option FailureNote
  /-- Present, with a message, when the test was not executed. -/
  skipped : Option String
  /-- What the test printed. -/
  systemOut : String
  deriving DecidableEq

/-- A case of which only the `name` is known: it has passed, took no time and printed nothing. -/
def TestCase.named (name : String) : TestCase := ⟨name, .zero, none, none, ""⟩

/-- **A suite** of test cases and of further suites. -/
structure Suite where
  /-- The name. -/
  name : String
  /-- Number of tests as stated. -/
  tests : UInt32
  /-- Number of skipped tests as stated. -/
  skipped : UInt32
  /-- Number of failed tests as stated. -/
  failures : UInt32
  /-- How long it took, in seconds. -/
  duration : Binary64
  /-- Its own cases. -/
  cases : List TestCase
  /-- The suites below it. -/
  children : List Suite

namespace Suite

/-- A suite of which only the `name` is known, without cases and children. -/
def named (name : String) : Suite := ⟨name, 0, 0, 0, .zero, [], []⟩

/-- The suite with the case `c` more at the end. -/
def addCase (c : TestCase) (s : Suite) : Suite := { s with cases := s.cases ++ [c] }

/-- The suite with `child` more at the end. -/
def addChild (child : Suite) (s : Suite) : Suite := { s with children := s.children ++ [child] }

/-! ## Paths -/

/-- **The suite at the end of a path**, at each name the first child that has it; `none` when one is missing. -/
def at? : List String → Suite → Option Suite
  | [], s => some s
  | name :: path, s => (s.children.find? (·.name == name)).bind (at? path)

/-- Changes the first suite of the `name` in a list, or one appended under that name. -/
def modifyFirst (name : String) (change : Suite → Suite) : List Suite → List Suite
  | [] => [change (named name)]
  | c :: cs => if c.name = name then change c :: cs else c :: modifyFirst name change cs

/-- **Changes the suite at the end of a path** by `change`; suites that are missing on the way are made. Nothing else is
touched. -/
def modifyAt : List String → (Suite → Suite) → Suite → Suite
  | [], change, s => change s
  | name :: path, change, s =>
    { s with children := modifyFirst name (modifyAt path change) s.children }

/-- The suite with every suite of a path in it: those that are missing are made, and nothing is changed. -/
def withPath (path : List String) (s : Suite) : Suite := s.modifyAt path id

/-- The empty path leads to the suite itself. -/
@[simp] theorem at?_nil (s : Suite) : at? [] s = some s := rfl

/-- Nothing is missing from the way to the suite itself. -/
@[simp] theorem withPath_nil (s : Suite) : s.withPath [] = s := rfl

/-- In an empty list the suite of the `name` is made and changed. -/
@[simp] theorem modifyFirst_nil (name : String) (change : Suite → Suite) :
    modifyFirst name change [] = [change (named name)] := rfl

/-- The first suite of the name is changed, and the suites behind it, `cs`, stay as they are. -/
theorem modifyFirst_cons_of_eq {name : String} (change : Suite → Suite) {c : Suite} (cs : List Suite)
    (h : c.name = name) : modifyFirst name change (c :: cs) = change c :: cs := by
  simp [modifyFirst, h]

/-- A suite of another name is passed over, and stays as it is. -/
theorem modifyFirst_cons_of_ne {name : String} (change : Suite → Suite) {c : Suite} (cs : List Suite)
    (h : c.name ≠ name) : modifyFirst name change (c :: cs) = c :: modifyFirst name change cs := by
  simp [modifyFirst, h]

/-! ## Counts -/

/-- A case counts as failed when it tells of a failure, whatever else it tells. -/
def caseFailed (c : TestCase) : Bool := c.failure.isSome

/-- A case counts as skipped when it tells so and tells of no failure. -/
def caseSkipped (c : TestCase) : Bool := c.failure.isNone && c.skipped.isSome

/-- The number of cases with `p`, in the width of the counts, 32 bits. -/
def countOf (p : TestCase → Bool) (cases : List TestCase) : UInt32 := (cases.countP p).toUInt32

mutual
/-- **The counts of a suite and of all suites below it, computed anew**: of its own cases and of those below it. -/
def recount : Suite → Suite
  | ⟨name, _, _, _, duration, cases, children⟩ =>
    -- the children come first, since their new counts are added to those of the own cases
    let below := recountAll children
    ⟨name,
      below.foldl (fun n c => n + c.tests) (countOf (fun _ => true) cases),
      below.foldl (fun n c => n + c.skipped) (countOf caseSkipped cases),
      below.foldl (fun n c => n + c.failures) (countOf caseFailed cases),
      duration, cases, below⟩

/-- The counts of each suite of a list, computed anew. -/
def recountAll : List Suite → List Suite
  | [] => []
  | c :: cs => recount c :: recountAll cs
end

/-- The suites of a list are counted one by one: `recountAll` is `map recount`. -/
theorem recountAll_eq_map (ss : List Suite) : recountAll ss = ss.map recount := by
  induction ss with
  | nil => rfl
  | cons s ss ih => simp [recountAll, ih]

/-- Counting keeps the name. -/
@[simp] theorem name_recount (s : Suite) : (recount s).name = s.name := by cases s; rfl

/-- Counting keeps the cases. -/
@[simp] theorem cases_recount (s : Suite) : (recount s).cases = s.cases := by cases s; rfl

/-- Counting goes on below: each child is counted. -/
@[simp] theorem children_recount (s : Suite) : (recount s).children = s.children.map recount := by
  cases s
  simp [recount, recountAll_eq_map]

end Suite

/-! ## Failed cases -/

mutual
/-- **One line for each failed case**: first those of a suite itself, then those of its children, each with the names
that lead to it, `parents` first. -/
def failureLines (parents : List String) : Suite → List String
  | ⟨name, _, _, _, _, cases, children⟩ =>
    ownFailureLines (parents ++ [name]) cases ++ failureLinesOfAll (parents ++ [name]) children

/-- The lines of a list of suites below the same `parents`. -/
def failureLinesOfAll (parents : List String) : List Suite → List String
  | [] => []
  | c :: cs => failureLines parents c ++ failureLinesOfAll parents cs

/-- The lines of the cases of one suite, to which `path` leads. -/
def ownFailureLines (path : List String) : List TestCase → List String
  | [] => []
  | c :: cs =>
    match c.failure with
    | some note =>
      ("Test failed: " ++ " / ".intercalate path ++ " / " ++ c.name ++ ": " ++ note.message)
        :: ownFailureLines path cs
    | none => ownFailureLines path cs
end

end PayloadGate.Junit
