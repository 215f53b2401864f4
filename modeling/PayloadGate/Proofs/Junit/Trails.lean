import PayloadGate.Proofs.Junit.Counts
import Mathlib.Data.List.Infix

/-! # The suites of a tree

* **`Suite.trails`** — all suites of a tree in depth-first order, each with the names that lead to it.
* **`Suite.reached`** — those to which a path of names leads; **`Suite.Leads`** — how a path leads to a suite, child
  by child.
* **`Suite.reached_cons`** — a path is followed name by name.
* **`Suite.allCases_eq_flatMap`**, **`Suite.trails_recount`** — the cases of a tree and its counts, suite by suite.
* **`Suite.names_trails_chain`**, **`Suite.allCases_of_mem_chain`** — the suites that are made for a case. -/

namespace PayloadGate.Junit

/-- **A suite with the names that lead to it**, from that of the root to its own. -/
structure Trail where
  /-- The names. -/
  names : List String
  /-- The suite. -/
  suite : Suite

namespace Trail

/-- The trail as it is seen from the suite above, which has the `name`. -/
def below (name : String) (x : Trail) : Trail := ⟨name :: x.names, x.suite⟩

/-- The trail to the suite with its counts computed anew, by the same names. -/
def recount (x : Trail) : Trail := ⟨x.names, x.suite.recount⟩

end Trail

namespace Suite

variable {path rest : List String} {s u : Suite} {x : Trail}

/-! ## Trails -/

mutual
/-- **All suites of a tree** in depth-first order, each with the names that lead to it. -/
def trails : Suite → List Trail
  | s@⟨name, _, _, _, _, _, children⟩ => ⟨[name], s⟩ :: (trailsOf children).map (Trail.below name)

/-- All suites of a list of trees, one tree after the other. -/
def trailsOf : List Suite → List Trail
  | [] => []
  | s :: ss => trails s ++ trailsOf ss
end

/-- The suites of a list of trees are those of one tree after the other: `trailsOf` is `flatMap trails`. -/
theorem trailsOf_eq_flatMap (ss : List Suite) : trailsOf ss = ss.flatMap trails := by
  induction ss with
  | nil => rfl
  | cons s ss ih => rw [trailsOf, ih, List.flatMap_cons]

/-- The suites of a tree: its root, then those below it with one name more. -/
theorem trails_eq (s : Suite) :
    s.trails = ⟨[s.name], s⟩ :: (s.children.flatMap trails).map (Trail.below s.name) := by
  rw [← trailsOf_eq_flatMap]
  cases s
  rfl

mutual
/-- **The cases of a tree** are those of its suites, in the order of `s.trails`. -/
theorem allCases_eq_flatMap : ∀ s : Suite, s.allCases = s.trails.flatMap (·.suite.cases)
  | ⟨_, _, _, _, _, _, children⟩ => by
    simp only [allCases, allCasesOf_eq_flatMap children, trails, List.flatMap_cons, List.flatMap_map, Trail.below]

/-- The cases of a list of trees are those of their suites. -/
theorem allCasesOf_eq_flatMap : ∀ ss : List Suite, allCasesOf ss = (trailsOf ss).flatMap (·.suite.cases)
  | [] => rfl
  | s :: ss => by
    rw [allCasesOf, trailsOf, List.flatMap_append, allCases_eq_flatMap s, allCasesOf_eq_flatMap ss]
end

mutual
/-- **Counting a tree counts each of its suites**: the trails of `s.recount` are those of `s`, recounted one by one. -/
theorem trails_recount : ∀ s : Suite, s.recount.trails = s.trails.map Trail.recount
  | ⟨_, _, _, _, _, _, children⟩ => by
    simp only [recount, trails, trailsOf_recountAll children, List.map_cons, List.map_map, Trail.recount]
    rfl

/-- Counting the trees of a list counts each of their suites. -/
theorem trailsOf_recountAll : ∀ ss : List Suite, trailsOf (recountAll ss) = (trailsOf ss).map Trail.recount
  | [] => rfl
  | s :: ss => by
    rw [recountAll, trailsOf, trails_recount s, trailsOf_recountAll ss, trailsOf, List.map_append]
end

/-! ## Paths -/

/-- **The suites to which a `path` leads**, in depth-first order. The path begins with the name of the root, and may
lead to several. -/
def reached (path : List String) (s : Suite) : List Suite :=
  (s.trails.filter (·.names == path)).map (·.suite)

/-- **A path leads from a suite to another**, from each suite on the way to one of its children, `Leads path s u`. -/
inductive Leads : List String → Suite → Suite → Prop
  /-- The path ends where it begins. -/
  | here (s : Suite) : Leads [s.name] s s
  /-- The path goes on in a child. -/
  | into {path : List String} {s child u : Suite} (hmem : child ∈ s.children) (h : Leads path child u) :
    Leads (s.name :: path) s u

/-- Below a suite, the trails of `head :: rest` are those of `rest`, when `head` is the name of the suite. -/
theorem filter_map_below (name head : String) (rest : List String) (xs : List Trail) :
    ((xs.map (Trail.below name)).filter (·.names == head :: rest)).map (·.suite)
      = if name = head then (xs.filter (·.names == rest)).map (·.suite) else [] := by
  induction xs with
  | nil => simp
  | cons x xs ih =>
    rw [List.map_cons, List.filter_cons, List.filter_cons]
    by_cases hname : name = head
    · rw [if_pos hname] at ih ⊢
      by_cases hrest : x.names = rest
      · simp [Trail.below, hname, hrest, ← ih]
      · simp [Trail.below, hname, hrest, ← ih]
    · rw [if_neg hname] at ih ⊢
      simp [Trail.below, hname, ih]

/-- No suite is reached without a name: `s.reached [] = []`. -/
@[simp] theorem reached_nil (s : Suite) : s.reached [] = [] := by
  rw [reached, List.map_eq_nil_iff, List.filter_eq_nil_iff]
  intro x hx
  rw [trails_eq, List.mem_cons, List.mem_map] at hx
  rcases hx with rfl | ⟨y, -, rfl⟩
  · simp
  · simp [Trail.below]

/-- **A path is followed name by name**: `head` is the name of the suite, and `rest` goes on in the children, unless it
is empty. -/
theorem reached_cons (head : String) (rest : List String) (s : Suite) :
    s.reached (head :: rest) =
      if s.name = head then (if rest = [] then [s] else s.children.flatMap (reached rest)) else [] := by
  have hbelow : (((s.children.flatMap trails).map (Trail.below s.name)).filter (·.names == head :: rest)).map (·.suite)
      = if s.name = head then s.children.flatMap (reached rest) else [] := by
    rw [filter_map_below, List.filter_flatMap, List.map_flatMap]
    rfl
  rw [reached, trails_eq, List.filter_cons, apply_ite (List.map _), List.map_cons, hbelow]
  by_cases hname : s.name = head
  · by_cases hrest : rest = []
    · -- below the end of the path the filter keeps nothing, as each trail there has a name more
      have hnone : s.children.flatMap (reached []) = [] := List.flatMap_eq_nil_iff.2 fun child _ => reached_nil child
      simp [hname, hrest, hnone]
    · simp [hname, hrest]
  · simp [hname]

/-- **The suites that are reached are those to which the path leads**: `u ∈ s.reached path ↔ Leads path s u`. -/
theorem mem_reached_iff : u ∈ s.reached path ↔ Leads path s u := by
  -- on the path, as the suite moves down with it
  induction path generalizing s with
  | nil =>
    rw [reached_nil]
    exact iff_of_false List.not_mem_nil (fun h => by cases h)
  | cons head rest ih =>
    rw [reached_cons]
    constructor
    · intro h
      by_cases hname : s.name = head
      · subst hname
        rw [if_pos rfl] at h
        by_cases hrest : rest = []
        · subst hrest
          rw [if_pos rfl, List.mem_singleton] at h
          exact h ▸ .here s
        · rw [if_neg hrest, List.mem_flatMap] at h
          obtain ⟨child, hmem, hchild⟩ := h
          exact .into hmem (ih.1 hchild)
      · rw [if_neg hname] at h
        exact absurd h List.not_mem_nil
    · intro h
      cases h with
      | here => simp
      | into hmem h =>
        have hrest : rest ≠ [] := by
          rintro rfl
          cases h
        rw [if_pos rfl, if_neg hrest, List.mem_flatMap]
        exact ⟨_, hmem, ih.2 h⟩

/-- Counting does not change where a path leads: the suites that are reached are the same, recounted. -/
theorem reached_recount (path : List String) (s : Suite) : s.recount.reached path = (s.reached path).map recount := by
  rw [reached, trails_recount, List.filter_map, List.map_map, reached, List.map_map]
  rfl

/-- The cases of a suite that is reached are cases of the tree. -/
theorem mem_allCases_of_reached {c : TestCase} (hu : u ∈ s.reached path) (hc : c ∈ u.cases) : c ∈ s.allCases := by
  rw [reached, List.mem_map] at hu
  obtain ⟨x, hx, rfl⟩ := hu
  rw [allCases_eq_flatMap, List.mem_flatMap]
  exact ⟨x, List.mem_of_mem_filter hx, hc⟩

/-! ## Chains -/

section Chain

variable {name : String} {c : TestCase}

/-- The chain has the `name` of its first suite. -/
theorem name_chain (name : String) (path : List String) (c : TestCase) : (chain name path c).name = name := by
  cases path <;> rfl

/-- With a path the first suite has one child, the chain of what is left of the path. -/
theorem children_chain_cons (name next : String) (path : List String) (c : TestCase) :
    (chain name (next :: path) c).children = [chain next path c] := rfl

/-- The suites of a chain are the first one and those of the chain below it. -/
theorem trails_chain_cons (name next : String) (path : List String) (c : TestCase) :
    (chain name (next :: path) c).trails
      = ⟨[name], chain name (next :: path) c⟩ :: (chain next path c).trails.map (Trail.below name) := by
  rw [trails_eq, name_chain, children_chain_cons, List.flatMap_singleton]

/-- **The suites of a chain** have the beginnings of the path as their names, `path.inits` with `name` before each. -/
theorem names_trails_chain (name : String) (path : List String) (c : TestCase) :
    (chain name path c).trails.map (·.names) = path.inits.map (name :: ·) := by
  induction path generalizing name with
  | nil => rfl
  | cons next path ih =>
    calc (chain name (next :: path) c).trails.map (·.names)
        = [name] :: ((chain next path c).trails.map (·.names)).map (name :: ·) := by
          rw [trails_chain_cons, List.map_cons, List.map_map, List.map_map]
          rfl
      _ = [name] :: (path.inits.map (next :: ·)).map (name :: ·) := by rw [ih]
      _ = (next :: path).inits.map (name :: ·) := by rw [List.inits_cons, List.map_cons]

/-- **Each suite of a chain** holds the case `c` and no other. -/
theorem allCases_of_mem_chain (hx : x ∈ (chain name path c).trails) : x.suite.allCases = [c] := by
  induction path generalizing name x with
  | nil =>
    obtain rfl : x = ⟨[name], chain name [] c⟩ := List.mem_singleton.1 hx
    exact allCases_chain name [] c
  | cons next path ih =>
    rw [trails_chain_cons, List.mem_cons, List.mem_map] at hx
    rcases hx with rfl | ⟨y, hy, rfl⟩
    · exact allCases_chain name (next :: path) c
    · show y.suite.allCases = [c]
      exact ih hy

end Chain

end Suite

end PayloadGate.Junit
