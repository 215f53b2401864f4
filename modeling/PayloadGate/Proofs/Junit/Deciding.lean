import PayloadGate.Junit.Verdict
import PayloadGate.Proofs.Junit.Trails

/-! # The case that decides on a test

The search for a test goes down a tree along its path, into one suite of a name after the other, and comes back from
those without the test. Its verdict can be read off a list: that of the cases of the test, one for each suite to which
the path leads, in depth-first order. The first of them decides.

* **`TestId.casesIn`**, **`Verdict.ofFirst`** — the cases of a test in a tree, and what the first of some cases says.
* **`verdict_eq_ofFirst`**, **`verdictOfForest_eq_ofFirst`** — the verdict of a tree and that of several trees.
* **`onPath`**, **`names_prefix_of_onPath`**, **`flatMap_casesIn_onPath`** — what is not on the path has no influence.
* **`verdicts_readOff`** — the verdicts are read off the list of cases. -/

namespace PayloadGate.Junit

open Suite (trails trailsOf reached Leads)

variable {t : TestId} {s : Suite}

/-! ## Cases of a test -/

/-- The case of a test in a suite that its path leads to: the first of the name `t.name`. -/
def TestId.caseIn? (t : TestId) (s : Suite) : Option TestCase := s.cases.find? (·.name == t.name)

/-- **The cases of a test in a tree**, one for each suite that its path leads to and that has one, in depth-first
order. -/
def TestId.casesIn (t : TestId) (s : Suite) : List TestCase := (s.reached t.suites).filterMap t.caseIn?

/-- **What the first of some cases says**: `failed` with a failure, `passed` without, and `skipped` when there is
none. -/
def Verdict.ofFirst : List TestCase → Verdict
  | [] => .skipped
  | c :: _ => if c.failure.isSome then .failed else .passed

/-- A test without a path has no cases. -/
@[simp] theorem TestId.casesIn_nil (name : String) (s : Suite) : TestId.casesIn ⟨[], name⟩ s = [] := by
  simp [casesIn]

/-- **The cases of a test, by the first name of its path**: the case of the suite itself, when there is no other name,
and else those in its children. -/
theorem TestId.casesIn_cons (head : String) (rest : List String) (name : String) (s : Suite) :
    TestId.casesIn ⟨head :: rest, name⟩ s =
      if s.name = head then
        if rest = [] then (s.cases.find? (·.name == name)).toList
        else s.children.flatMap (TestId.casesIn ⟨rest, name⟩)
      else [] := by
  rw [casesIn, Suite.reached_cons]
  by_cases hname : s.name = head
  · by_cases hrest : rest = []
    · rw [if_pos hname, if_pos hrest, if_pos hname, if_pos hrest, List.filterMap_cons]
      cases h : s.cases.find? (·.name == name) <;> simp [caseIn?, h]
    · rw [if_pos hname, if_neg hrest, if_pos hname, if_neg hrest, List.filterMap_flatMap]
      rfl
  · rw [if_neg hname, if_neg hname, List.filterMap_nil]

/-- A case of a test is a case of the tree, and has the name `t.name`. -/
theorem TestId.mem_of_mem_casesIn {c : TestCase} (h : c ∈ t.casesIn s) : c ∈ s.allCases ∧ c.name = t.name := by
  rw [casesIn, List.mem_filterMap] at h
  obtain ⟨u, hu, hc⟩ := h
  exact ⟨Suite.mem_allCases_of_reached hu (List.mem_of_find?_eq_some hc), by simpa using List.find?_some hc⟩

/-- Counting does not change the cases of a test: `t.casesIn s.recount = t.casesIn s`. -/
@[simp] theorem TestId.casesIn_recount (t : TestId) (s : Suite) : t.casesIn s.recount = t.casesIn s := by
  have hcase : t.caseIn? ∘ Suite.recount = t.caseIn? := by
    funext u
    rw [Function.comp, caseIn?, Suite.cases_recount]
    rfl
  rw [casesIn, Suite.reached_recount, List.filterMap_map, hcase]
  rfl

/-- **In a chain, the case is found at the end of the path**, and no other one. -/
theorem TestId.casesIn_chain (name : String) (path : List String) (c : TestCase) :
    TestId.casesIn ⟨name :: path, c.name⟩ (Suite.chain name path c) = [c] := by
  induction path generalizing name with
  | nil =>
    have hcases : (Suite.chain name [] c).cases = [c] := rfl
    rw [TestId.casesIn_cons, Suite.name_chain, if_pos rfl, if_pos rfl, hcases]
    simp
  | cons next path ih =>
    rw [TestId.casesIn_cons, Suite.name_chain, if_pos rfl, if_neg (List.cons_ne_nil next path),
      Suite.children_chain_cons, List.flatMap_singleton, ih]

/-! ## Verdicts -/

/-- A case decides: `ofFirst cs` is decided exactly when there are some. -/
theorem Verdict.isDecided_ofFirst (cs : List TestCase) : (ofFirst cs).isDecided = !cs.isEmpty := by
  cases cs with
  | nil => rfl
  | cons c cs =>
    rw [ofFirst]
    by_cases h : c.failure.isSome <;> simp [h, isDecided]

/-- **The first decided verdict** of the lists `f s` of cases is what the first case of all of them says. -/
theorem Verdict.firstDecided_map_ofFirst (f : Suite → List TestCase) (ss : List Suite) :
    firstDecided (ss.map fun s => ofFirst (f s)) = ofFirst (ss.flatMap f) := by
  induction ss with
  | nil => rfl
  | cons s ss ih =>
    rw [List.map_cons, List.flatMap_cons]
    cases h : f s with
    | nil => rw [List.nil_append, ← ih]; rfl
    | cons c cs =>
      -- the search ends here, and what the other suites hold is behind `c`
      rw [List.cons_append]
      exact firstDecided_cons_of_isDecided _ (isDecided_ofFirst (c :: cs))

/-- What the cases of a suite say is what the first one of the `name` says. -/
theorem verdictOfCases_eq_ofFirst (name : String) (cases : List TestCase) :
    verdictOfCases name cases = .ofFirst (cases.find? (·.name == name)).toList := by
  rw [verdictOfCases]
  cases cases.find? (·.name == name) <;> rfl

/-- In suites of a name other than `next` there are no cases, so that they may be left out. -/
theorem flatMap_casesIn_filter (next : String) (rest : List String) (name : String) (ss : List Suite) :
    (ss.filter (·.name == next)).flatMap (TestId.casesIn ⟨next :: rest, name⟩)
      = ss.flatMap (TestId.casesIn ⟨next :: rest, name⟩) := by
  induction ss with
  | nil => rfl
  | cons s ss ih =>
    rw [List.filter_cons, List.flatMap_cons, ← ih]
    by_cases hname : s.name = next
    · rw [if_pos (beq_iff_eq.2 hname), List.flatMap_cons]
    · rw [if_neg (by simpa using hname), TestId.casesIn_cons, if_neg hname, List.nil_append]

/-- At the end of a path, with one name left, the cases of the suite are looked at. -/
theorem verdictAlong_singleton (name head : String) (s : Suite) :
    verdictAlong name [head] s = if s.name = head then verdictOfCases name s.cases else .skipped := rfl

/-- Before the end of a path the search goes on in the children of the name `next`. -/
theorem verdictAlong_cons_cons (name head next : String) (rest : List String) (s : Suite) :
    verdictAlong name (head :: next :: rest) s =
      if s.name = head then
        .firstDecided ((s.children.filter (·.name == next)).map (verdictAlong name (next :: rest)))
      else .skipped := rfl

/-- **The search along a path** comes to what the first of the cases says: a suite without the test is left again, and
the first one with it ends the search. -/
theorem verdictAlong_eq_ofFirst (name : String) (path : List String) (s : Suite) :
    verdictAlong name path s = .ofFirst (TestId.casesIn ⟨path, name⟩ s) := by
  induction path generalizing s with
  | nil => rw [TestId.casesIn_nil]; rfl
  | cons head rest ih =>
    rw [TestId.casesIn_cons]
    cases rest with
    | nil =>
      rw [verdictAlong_singleton, if_pos rfl, verdictOfCases_eq_ofFirst]
      split_ifs <;> rfl
    | cons next rest =>
      have hsearch : verdictAlong name (next :: rest)
          = fun child => .ofFirst (TestId.casesIn ⟨next :: rest, name⟩ child) := funext ih
      rw [verdictAlong_cons_cons, hsearch, Verdict.firstDecided_map_ofFirst, flatMap_casesIn_filter,
        if_neg (List.cons_ne_nil next rest)]
      split_ifs <;> rfl

/-- **The verdict of a tree** is what the first of its cases of the test says, `ofFirst (t.casesIn s)`. -/
theorem verdict_eq_ofFirst (t : TestId) (s : Suite) : verdict t s = .ofFirst (t.casesIn s) :=
  verdictAlong_eq_ofFirst t.name t.suites s

-- of two suites of one name, the first does not have the test
example : verdict ⟨["install", "network"], "dns"⟩
    { Suite.named "install" with children := [
      Suite.named "network",
      { Suite.named "network" with
        cases := [{ TestCase.named "dns" with failure := some ⟨"lookup timed out", ""⟩ }] }] }
    = .failed := by
  decide

/-- **The verdict of several trees** is what the first of their cases of the test says, tree after tree. -/
theorem verdictOfForest_eq_ofFirst (t : TestId) (forest : List Suite) :
    verdictOfForest t forest = .ofFirst (forest.flatMap t.casesIn) := by
  have hverdict : verdict t = fun s => .ofFirst (t.casesIn s) := funext (verdict_eq_ofFirst t)
  rw [verdictOfForest, hverdict, Verdict.firstDecided_map_ofFirst]

/-! ## Suites that are not on the path -/

/-- **The trees of a list without the suites that are not on a path**, at each name only those that have it. -/
def onPath : List String → List Suite → List Suite
  | [], _ => []
  | name :: rest, ss =>
    (ss.filter (·.name == name)).map fun s => { s with children := onPath rest s.children }

/-- **The suites that are left are on the path**: the names that lead to them begin it, `x.names <+: path`. -/
theorem names_prefix_of_onPath {path : List String} {ss : List Suite} {x : Trail}
    (hx : x ∈ trailsOf (onPath path ss)) : x.names <+: path := by
  induction path generalizing ss x with
  | nil => exact absurd hx List.not_mem_nil
  | cons name rest ih =>
    rw [Suite.trailsOf_eq_flatMap, onPath, List.mem_flatMap] at hx
    obtain ⟨u, hu, hx⟩ := hx
    obtain ⟨s, hs, rfl⟩ := List.mem_map.1 hu
    have hname : s.name = name := by simpa using (List.mem_filter.1 hs).2
    rw [Suite.trails_eq, ← Suite.trailsOf_eq_flatMap, List.mem_cons, List.mem_map] at hx
    rcases hx with rfl | ⟨y, hy, rfl⟩
    · exact ⟨rest, by rw [List.singleton_append, ← hname]⟩
    · have hrest : y.names <+: rest := ih hy
      rw [Trail.below, hname]
      exact List.cons_prefix_cons.2 ⟨rfl, hrest⟩

/-- **Suites that are not on the path hold no cases of the test**: with `onPath` and without it they are the same. -/
theorem flatMap_casesIn_onPath (path : List String) (name : String) (ss : List Suite) :
    (onPath path ss).flatMap (TestId.casesIn ⟨path, name⟩) = ss.flatMap (TestId.casesIn ⟨path, name⟩) := by
  induction path generalizing ss with
  | nil => simp [onPath, List.flatMap_eq_nil_iff]
  | cons head rest ih =>
    have hcases : ∀ s : Suite, TestId.casesIn ⟨head :: rest, name⟩ { s with children := onPath rest s.children }
        = TestId.casesIn ⟨head :: rest, name⟩ s := by
      intro s
      rw [TestId.casesIn_cons, TestId.casesIn_cons, ih]
    rw [onPath, List.flatMap_map, ← flatMap_casesIn_filter head rest name ss]
    simp only [hcases]

/-! ## Reading off verdicts -/

/-- **The verdicts on a test, read off its cases**: for one tree, for a forest, and without the suites that are not on
the path. -/
structure ReadOff (t : TestId) (s : Suite) (forest : List Suite) : Prop where
  /-- The path is followed from a suite to its children, name by name. -/
  reached_iff : ∀ u, u ∈ s.reached t.suites ↔ Leads t.suites s u
  /-- The verdict of a tree is what the first of its cases says. -/
  ofTree : verdict t s = .ofFirst (t.casesIn s)
  /-- The verdict of several trees is what the first of their cases says, one tree after the other. -/
  ofForest : verdictOfForest t forest = .ofFirst (forest.flatMap t.casesIn)
  /-- What is not on the path has no influence. -/
  offPath : (∀ x ∈ trailsOf (onPath t.suites forest), x.names <+: t.suites)
    ∧ verdictOfForest t (onPath t.suites forest) = verdictOfForest t forest

/-- **The verdicts on a test are read off its cases**, for every tree and every list of trees, whatever suites have
the same name. -/
theorem verdicts_readOff (t : TestId) (s : Suite) (forest : List Suite) : ReadOff t s forest := by
  refine ⟨fun u => Suite.mem_reached_iff, verdict_eq_ofFirst t s, verdictOfForest_eq_ofFirst t forest,
    fun x hx => names_prefix_of_onPath hx, ?_⟩
  rw [verdictOfForest_eq_ofFirst, verdictOfForest_eq_ofFirst]
  exact congrArg Verdict.ofFirst (flatMap_casesIn_onPath t.suites t.name forest)

end PayloadGate.Junit
