import PayloadGate.Proofs.Junit.Trails
import Mathlib.Algebra.Ring.Nat

/-! # Counts that are up to date

Counting a tree goes up from its leaves and adds numbers of a fixed width. As long as the cases of the tree can be
numbered in that width, every sum stays within it, and every suite states how many cases it holds, whatever it stated
before.

* **`Suite.uncounted`** — a tree without its counts; **`Suite.recount_eq_recount_iff`** — nothing else counts.
* **`Tally`**, **`Tally.add?`** — the counts of some cases, and a sum that must stay within their width.
* **`Suite.recount?`**, **`Suite.recount?_eq`** — counting case by case, with such sums.
* **`Suite.StatesCases`** — a suite that states the numbers of its cases.
* **`Recounted`**, **`recounted_recount`** — what counting a tree comes to. -/

namespace PayloadGate.Junit

open Suite (caseFailed caseSkipped countOf allCasesOf recountAll)

/-! ## Trees without their counts -/

namespace Suite

mutual
/-- **A tree without its counts**: names, cases, durations and the order of the suites are left. -/
def uncounted : Suite → Suite
  | ⟨name, _, _, _, duration, cases, children⟩ => ⟨name, 0, 0, 0, duration, cases, uncountedAll children⟩

/-- The trees of a list without their counts. -/
def uncountedAll : List Suite → List Suite
  | [] => []
  | s :: ss => uncounted s :: uncountedAll ss
end

mutual
/-- **Counting changes nothing but the counts**: without them, `s.recount` and `s` are the same. -/
theorem uncounted_recount : ∀ s : Suite, s.recount.uncounted = s.uncounted
  | ⟨_, _, _, _, _, _, children⟩ => by simp only [recount, uncounted, uncountedAll_recountAll children]

/-- Counting the trees of a list changes nothing but their counts. -/
theorem uncountedAll_recountAll : ∀ ss : List Suite, uncountedAll (recountAll ss) = uncountedAll ss
  | [] => rfl
  | s :: ss => by simp only [recountAll, uncountedAll, uncounted_recount s, uncountedAll_recountAll ss]
end

mutual
/-- **What a tree states before it is counted does not count**: `s.uncounted` and `s` are counted alike. -/
theorem recount_uncounted : ∀ s : Suite, s.uncounted.recount = s.recount
  | ⟨_, _, _, _, _, _, children⟩ => by simp only [recount, uncounted, recountAll_uncountedAll children]

/-- What the trees of a list state does not count. -/
theorem recountAll_uncountedAll : ∀ ss : List Suite, recountAll (uncountedAll ss) = recountAll ss
  | [] => rfl
  | s :: ss => by simp only [recountAll, uncountedAll, recount_uncounted s, recountAll_uncountedAll ss]
end

/-- **Two trees are counted alike exactly when they differ in their counts at most**: `s.uncounted = s'.uncounted`. -/
theorem recount_eq_recount_iff {s s' : Suite} : s.recount = s'.recount ↔ s.uncounted = s'.uncounted := by
  constructor
  · intro h
    rw [← uncounted_recount s, h, uncounted_recount]
  · intro h
    rw [← recount_uncounted s, h, recount_uncounted]

end Suite

/-! ## Sums that stay within their width -/

/-- A sum of two counts, `none` when it does not fit their width. -/
def addCounts? (m n : UInt32) : Option UInt32 := if m.toNat + n.toNat < 2 ^ 32 then some (m + n) else none

/-- **The counts of some cases**: of all, of the skipped ones and of the failed ones. -/
structure Tally where
  /-- How many there are. -/
  tests : UInt32
  /-- How many of them count as skipped. -/
  skipped : UInt32
  /-- How many of them count as failed. -/
  failures : UInt32
  deriving DecidableEq

namespace Tally

/-- The counts of no cases: three times `0`. -/
def zero : Tally := ⟨0, 0, 0⟩

/-- What the case `c` adds to each count. -/
def ofCase (c : TestCase) : Tally := ⟨1, if caseSkipped c then 1 else 0, if caseFailed c then 1 else 0⟩

/-- The counts that a suite states. -/
def ofSuite (s : Suite) : Tally := ⟨s.tests, s.skipped, s.failures⟩

/-- The numbers of cases of a list, in the width of the counts. -/
def ofCases (cases : List TestCase) : Tally :=
  ⟨countOf (fun _ => true) cases, countOf caseSkipped cases, countOf caseFailed cases⟩

/-- **The sum of two tallies**, `none` when one of its counts does not fit. -/
def add? (t u : Tally) : Option Tally := do
  let tests ← addCounts? t.tests u.tests
  let skipped ← addCounts? t.skipped u.skipped
  let failures ← addCounts? t.failures u.failures
  some ⟨tests, skipped, failures⟩

/-- The tally `t` with some cases more, which are added one by one. -/
def addCases? : Tally → List TestCase → Option Tally
  | t, [] => some t
  | t, c :: cs => do
    let t ← t.add? (.ofCase c)
    addCases? t cs

end Tally

namespace Suite

mutual
/-- **The counts of a tree, computed anew by sums that must stay within their width**: case by case, and then child by
child, as soon as it has been counted itself. It is what `recount` is with checked sums. -/
def recount? : Suite → Option Suite
  | ⟨name, _, _, _, duration, cases, children⟩ => do
    let own ← Tally.zero.addCases? cases
    let (all, below) ← recountBelow? own children
    some ⟨name, all.tests, all.skipped, all.failures, duration, cases, below⟩

/-- The tally `t` with the cases of some trees more, and the trees with their counts. -/
def recountBelow? : Tally → List Suite → Option (Tally × List Suite)
  | t, [] => some (t, [])
  | t, s :: ss => do
    let s ← recount? s
    let t ← t.add? (.ofSuite s)
    let (t, ss) ← recountBelow? t ss
    some (t, s :: ss)
end

end Suite

section Width

variable {xs ys cs : List TestCase} {p : TestCase → Bool} {x : Trail} {s : Suite}

/-- As many cases as can be numbered are counted as they are, by `countP`. -/
theorem toNat_countOf (p : TestCase → Bool) (h : xs.length < 2 ^ 32) : (countOf p xs).toNat = xs.countP p :=
  UInt32.toNat_ofNat_of_lt' (Nat.lt_of_le_of_lt List.countP_le_length h)

/-- The numbers of cases of `xs` and `ys` have a sum when the cases of both can be numbered. -/
theorem addCounts?_countOf (h : (xs ++ ys).length < 2 ^ 32) :
    addCounts? (countOf p xs) (countOf p ys) = some (countOf p (xs ++ ys)) := by
  have hlength := List.length_append ▸ h
  have hsum : (countOf p xs).toNat + (countOf p ys).toNat < 2 ^ 32 := by
    rw [toNat_countOf p (by omega), toNat_countOf p (by omega), ← List.countP_append]
    exact Nat.lt_of_le_of_lt List.countP_le_length h
  rw [addCounts?, if_pos hsum, Suite.countOf_append]

namespace Tally

/-- One case is counted like a list of one. -/
theorem ofCase_eq (c : TestCase) : ofCase c = ofCases [c] := by
  rw [ofCase, ofCases, countOf, countOf, countOf, List.countP_singleton, List.countP_singleton, List.countP_singleton]
  cases caseSkipped c <;> cases caseFailed c <;> rfl

/-- **Two tallies have a sum exactly when the cases of both can be numbered**, `(xs ++ ys).length < 2 ^ 32`. -/
theorem add?_ofCases (hx : xs.length < 2 ^ 32) (hy : ys.length < 2 ^ 32) :
    (ofCases xs).add? (ofCases ys) = if (xs ++ ys).length < 2 ^ 32 then some (ofCases (xs ++ ys)) else none := by
  by_cases h : (xs ++ ys).length < 2 ^ 32
  · rw [if_pos h, add?, ofCases, ofCases, addCounts?_countOf h, addCounts?_countOf h, addCounts?_countOf h]
    rfl
  · -- the number of all cases does not fit
    have hall : ∀ zs : List TestCase, zs.length < 2 ^ 32 → (countOf (fun _ => true) zs).toNat = zs.length := by
      intro zs hz
      rw [toNat_countOf _ hz, List.countP_true]
    have hsum : ¬ (countOf (fun _ => true) xs).toNat + (countOf (fun _ => true) ys).toNat < 2 ^ 32 := by
      rw [hall xs hx, hall ys hy, ← List.length_append]
      exact h
    rw [if_neg h, add?, ofCases, ofCases, addCounts?, if_neg hsum]
    rfl

/-- **Cases can be added one by one exactly when all of them can be numbered.** By induction on `cs`. -/
theorem addCases?_ofCases (hx : xs.length < 2 ^ 32) :
    (ofCases xs).addCases? cs = if (xs ++ cs).length < 2 ^ 32 then some (ofCases (xs ++ cs)) else none := by
  induction cs generalizing xs with
  | nil => rw [List.append_nil, if_pos hx, addCases?]
  | cons c cs ih =>
    have happend : xs ++ c :: cs = (xs ++ [c]) ++ cs := by rw [List.append_assoc, List.singleton_append]
    rw [addCases?, ofCase_eq, add?_ofCases hx (by simp)]
    by_cases h : (xs ++ [c]).length < 2 ^ 32
    · rw [if_pos h, Option.bind_eq_bind, Option.bind_some, ih h, happend]
    · have hmore : ¬ (xs ++ c :: cs).length < 2 ^ 32 := by
        rw [happend, List.length_append]
        omega
      rw [if_neg h, if_neg hmore]
      rfl

end Tally

namespace Suite

/-- A tree that has been counted states the tally of its cases. -/
theorem ofSuite_recount (s : Suite) : Tally.ofSuite s.recount = .ofCases s.allCases := by
  obtain ⟨htests, hskipped, hfailures⟩ := counts_recount s
  rw [Tally.ofSuite, htests, hskipped, hfailures, Tally.ofCases]

mutual
/-- **A tree can be counted within the width of its counts exactly when its cases can be numbered**, and then `recount?`
is `recount`. -/
theorem recount?_eq : ∀ s : Suite, recount? s = if s.allCases.length < 2 ^ 32 then some s.recount else none
  | ⟨name, tests, skipped, failures, duration, cases, children⟩ => by
    have hempty : ([] : List TestCase).length < 2 ^ 32 := by decide
    have hown : Tally.zero.addCases? cases
        = if cases.length < 2 ^ 32 then some (.ofCases cases) else none :=
      Tally.addCases?_ofCases hempty
    rw [recount?, hown, allCases]
    -- the own cases are counted first; when these overflow, so do all of them
    by_cases h : cases.length < 2 ^ 32
    · rw [if_pos h, Option.bind_eq_bind, Option.bind_some, recountBelow?_eq children h]
      by_cases hall : (cases ++ allCasesOf children).length < 2 ^ 32
      · have hcounts := ofSuite_recount ⟨name, tests, skipped, failures, duration, cases, children⟩
        rw [allCases] at hcounts
        rw [if_pos hall, if_pos hall, ← hcounts]
        rfl
      · rw [if_neg hall, if_neg hall]
        rfl
    · have hall : ¬ (cases ++ allCasesOf children).length < 2 ^ 32 := by
        rw [List.length_append]
        omega
      rw [if_neg h, if_neg hall]
      rfl

/-- Trees can be counted behind the cases `xs` exactly when all these cases can be numbered. -/
theorem recountBelow?_eq : ∀ (ss : List Suite) {xs : List TestCase} (_ : xs.length < 2 ^ 32),
    recountBelow? (.ofCases xs) ss
      = if (xs ++ allCasesOf ss).length < 2 ^ 32 then some (.ofCases (xs ++ allCasesOf ss), recountAll ss) else none
  | [], xs, hx => by
    rw [allCasesOf, List.append_nil, if_pos hx, recountBelow?, recountAll]
  | s :: ss, xs, hx => by
    have happend : xs ++ allCasesOf (s :: ss) = (xs ++ s.allCases) ++ allCasesOf ss := by
      rw [allCasesOf, List.append_assoc]
    rw [recountBelow?, recount?_eq s, happend, List.length_append]
    -- the sum is checked at each addition: of a suite by itself, up to it, and over all; any overflow is one of all
    by_cases h : s.allCases.length < 2 ^ 32
    · rw [if_pos h, Option.bind_eq_bind, Option.bind_some, ofSuite_recount, Tally.add?_ofCases hx h]
      by_cases hmore : (xs ++ s.allCases).length < 2 ^ 32
      · rw [if_pos hmore, Option.bind_eq_bind, Option.bind_some, recountBelow?_eq ss hmore, ← List.length_append]
        by_cases hall : (xs ++ s.allCases ++ allCasesOf ss).length < 2 ^ 32
        · rw [if_pos hall, if_pos hall]
          rfl
        · rw [if_neg hall, if_neg hall]
          rfl
      · rw [if_neg hmore, if_neg (by omega)]
        rfl
    · rw [if_neg h, if_neg (by rw [List.length_append]; omega)]
      rfl
end

/-! ## Suites that state their cases -/

/-- **A suite states the numbers of its cases**, its own and those of all suites below it, as natural numbers. -/
structure StatesCases (s : Suite) : Prop where
  /-- How many there are. -/
  tests_eq : s.tests.toNat = s.allCases.length
  /-- How many of them tell of a failure, with or without a skip mark. -/
  failures_eq : s.failures.toNat = s.allCases.countP fun c => c.failure.isSome
  /-- How many of them have a skip mark and tell of no failure. -/
  skipped_eq : s.skipped.toNat = s.allCases.countP fun c => c.skipped.isSome && c.failure.isNone
  /-- No case is counted as both. -/
  le : s.failures.toNat + s.skipped.toNat ≤ s.tests.toNat

/-- No case counts both as failed and as skipped, so that the two counts have a sum of at most `xs.length`. -/
theorem countP_add_countP_le (xs : List TestCase) :
    xs.countP caseFailed + xs.countP caseSkipped ≤ xs.length := by
  induction xs with
  | nil => simp
  | cons c cs ih =>
    have hcase : (if caseFailed c = true then 1 else 0) + (if caseSkipped c = true then 1 else 0) ≤ 1 := by
      rw [caseFailed, caseSkipped]
      cases c.failure <;> cases c.skipped <;> simp
    rw [List.countP_cons, List.countP_cons, List.length_cons]
    omega

/-- **A suite that has been counted states the numbers of its cases**, when they can be numbered,
`s.allCases.length < 2 ^ 32`. -/
theorem statesCases_recount (h : s.allCases.length < 2 ^ 32) : s.recount.StatesCases := by
  obtain ⟨htests, hskipped, hfailures⟩ := counts_recount s
  have hskips : s.allCases.countP caseSkipped = s.allCases.countP fun c => c.skipped.isSome && c.failure.isNone :=
    List.countP_congr fun c _ => by rw [caseSkipped, Bool.and_comm]
  refine ⟨?_, ?_, ?_, ?_⟩
  · rw [htests, toNat_countOf _ h, List.countP_true, allCases_recount]
  · rw [hfailures, toNat_countOf _ h, allCases_recount]
    rfl
  · rw [hskipped, toNat_countOf _ h, allCases_recount, hskips]
  · rw [htests, hskipped, hfailures, toNat_countOf _ h, toNat_countOf _ h, toNat_countOf _ h, List.countP_true]
    exact countP_add_countP_le s.allCases

mutual
/-- **The cases of a suite in a tree** are some of the tree, in their order. -/
theorem sublist_allCases_of_mem_trails : ∀ (s : Suite) {x : Trail}, x ∈ s.trails → x.suite.allCases.Sublist s.allCases
  | s@⟨name, _, _, _, _, cases, children⟩, x, hx => by
    rw [trails, List.mem_cons, List.mem_map] at hx
    rcases hx with rfl | ⟨y, hy, rfl⟩
    · exact .refl _
    · rw [allCases]
      exact (sublist_allCasesOf_of_mem_trailsOf children hy).trans (List.sublist_append_right _ _)

/-- The cases of a suite in one of several trees are some of theirs. -/
theorem sublist_allCasesOf_of_mem_trailsOf :
    ∀ (ss : List Suite) {x : Trail}, x ∈ trailsOf ss → x.suite.allCases.Sublist (allCasesOf ss)
  | s :: ss, x, hx => by
    rw [trailsOf, List.mem_append] at hx
    rw [allCasesOf]
    rcases hx with hx | hx
    · exact (sublist_allCases_of_mem_trails s hx).trans (List.sublist_append_left _ _)
    · exact (sublist_allCasesOf_of_mem_trailsOf ss hx).trans (List.sublist_append_right _ _)
end

end Suite

end Width

/-! ## Counting a tree -/

/-- **What counting a tree `s` comes to** in `r`: all counts are right, nothing else has changed, and counting again
changes nothing. -/
structure Recounted (s r : Suite) : Prop where
  /-- Every suite in it, at every depth, states the numbers of its cases. -/
  states : ∀ x ∈ r.trails, x.suite.StatesCases
  /-- Nothing but the counts has changed. -/
  uncounted_eq : r.uncounted = s.uncounted
  /-- Every tree that differs from it in its counts only comes to the same. -/
  stale : ∀ s' : Suite, s'.uncounted = s.uncounted → s'.recount = r
  /-- Counted case by case and child by child, no sum leaves the width of the counts. -/
  within : s.recount? = some r
  /-- Counting it again changes nothing. -/
  again : r.recount = r

/-- **Counting a tree brings all its counts up to date**, whatever it stated before, as long as its cases can be
numbered in the width of the counts, `s.allCases.length < 2 ^ 32`. -/
theorem recounted_recount (s : Suite) (h : s.allCases.length < 2 ^ 32) : Recounted s s.recount := by
  refine ⟨fun x hx => ?_, s.uncounted_recount, fun s' hs' => Suite.recount_eq_recount_iff.2 hs', ?_,
    s.recount_recount⟩
  · rw [Suite.trails_recount] at hx
    obtain ⟨y, hy, rfl⟩ := List.mem_map.1 hx
    have hlength := (Suite.sublist_allCases_of_mem_trails s hy).length_le
    exact Suite.statesCases_recount (Nat.lt_of_le_of_lt hlength h)
  · rw [Suite.recount?_eq, if_pos h]

/-- A case with a failure and a skip mark, in a suite that states too much, below one that states too little. -/
def staleTree : Suite :=
  ⟨"payload", 0, 0, 0, .zero, [{ TestCase.named "late" with skipped := some "not executed" }],
    [⟨"install", 7, 7, 7, .zero,
      [TestCase.named "done", { TestCase.named "broken" with failure := some ⟨"timed out", ""⟩, skipped := some "" }],
      []⟩]⟩

/-- The counts of `staleTree` are brought up to date at both places. -/
theorem recounted_recount_staleTree :
    staleTree.allCases.length < 2 ^ 32 ∧ Recounted staleTree staleTree.recount
      ∧ staleTree.recount.trails.map (fun x => Tally.ofSuite x.suite) = [⟨3, 1, 1⟩, ⟨2, 0, 1⟩] :=
  have h : staleTree.allCases.length < 2 ^ 32 := by decide
  ⟨h, recounted_recount staleTree h, rfl⟩

end PayloadGate.Junit
