import PayloadGate.Junit.Suite
import Mathlib.Data.List.Perm.Basic

/-! # The counts of a tree

* **`Suite.allCases`** — all cases of a tree, those of a suite before those of its children.
* **`Suite.recount_recount`** — counting again changes nothing.
* **`Suite.counts_recount`** — the counts of a tree are numbers of cases, in the width of the counts.
* **`Suite.allCases_modifyAt_addCase`** — a case that is added along a path is the only new one; in a **`Suite.chain`**
  made for it, it is the only one. -/

namespace PayloadGate.Junit.Suite

/-! ## All cases -/

mutual
/-- **All cases of a tree**, those of a suite before those of its `children`. -/
def allCases : Suite → List TestCase
  | ⟨_, _, _, _, _, cases, children⟩ => cases ++ allCasesOf children

/-- All cases of a list of trees. -/
def allCasesOf : List Suite → List TestCase
  | [] => []
  | s :: ss => allCases s ++ allCasesOf ss
end

/-- The cases of a tree: `s.cases`, then those of its children. -/
theorem allCases_eq (s : Suite) : s.allCases = s.cases ++ allCasesOf s.children := by
  cases s
  rfl

/-- A suite of which only the `name` is known has no cases. -/
@[simp] theorem allCases_named (name : String) : (named name).allCases = [] := rfl

/-! ## Counting -/

mutual
/-- **Counting again changes nothing**: `recount` is idempotent. The induction is on trees and lists of trees at
once. -/
theorem recount_recount : ∀ s : Suite, s.recount.recount = s.recount
  | ⟨_, _, _, _, _, _, children⟩ => by simp only [recount, recountAll_recountAll children]

/-- Counting the suites of a list again changes nothing, `recountAll_recountAll` beside `recount_recount`. -/
theorem recountAll_recountAll : ∀ ss : List Suite, recountAll (recountAll ss) = recountAll ss
  | [] => rfl
  | s :: ss => by simp only [recountAll, recount_recount s, recountAll_recountAll ss]
end

/-- Cases of two lists are counted one list after the other, also when the sum wraps. -/
theorem countOf_append (p : TestCase → Bool) (xs ys : List TestCase) :
    countOf p (xs ++ ys) = countOf p xs + countOf p ys := by
  rw [countOf, List.countP_append]
  exact UInt32.ofNat_add _ _

section Count

variable {count : Suite → UInt32} {p : TestCase → Bool}

mutual
/-- When a `count` is put together from the cases of a suite and the counts of its children (`h`), it is `countOf p` of
all cases of the tree. -/
theorem count_recount
    (h : ∀ s, count (recount s) = (recountAll s.children).foldl (fun n c => n + count c) (countOf p s.cases)) :
    ∀ s : Suite, count s.recount = countOf p s.allCases
  | ⟨name, tests, skipped, failures, duration, cases, children⟩ => by
    rw [h, foldl_count_recountAll h children, allCases, countOf_append]

/-- Such a `count`, summed up over the suites of a list from `n` on. -/
theorem foldl_count_recountAll
    (h : ∀ s, count (recount s) = (recountAll s.children).foldl (fun n c => n + count c) (countOf p s.cases)) :
    ∀ (ss : List Suite) (n : UInt32),
      (recountAll ss).foldl (fun n c => n + count c) n = n + countOf p (allCasesOf ss)
  | [], n => by simp [recountAll, allCasesOf, countOf]
  | s :: ss, n => by
    rw [recountAll, List.foldl_cons, foldl_count_recountAll h ss, count_recount h s, allCasesOf, countOf_append,
      UInt32.add_assoc]
end

end Count

/-- **The counts of a tree are numbers of cases**, in the width of the counts: `tests`, `skipped` and `failures` are
`countOf` of `s.allCases`. -/
theorem counts_recount (s : Suite) :
    s.recount.tests = countOf (fun _ => true) s.allCases
      ∧ s.recount.skipped = countOf caseSkipped s.allCases
      ∧ s.recount.failures = countOf caseFailed s.allCases :=
  ⟨count_recount (fun s => by cases s; rfl) s, count_recount (fun s => by cases s; rfl) s,
    count_recount (fun s => by cases s; rfl) s⟩

mutual
/-- Counting keeps all cases, in their order. -/
theorem allCases_recount : ∀ s : Suite, s.recount.allCases = s.allCases
  | ⟨_, _, _, _, _, _, children⟩ => by simp only [recount, allCases, allCasesOf_recountAll children]

/-- Counting the suites of a list keeps all their cases. -/
theorem allCasesOf_recountAll : ∀ ss : List Suite, allCasesOf (recountAll ss) = allCasesOf ss
  | [] => rfl
  | s :: ss => by simp only [recountAll, allCasesOf, allCases_recount s, allCasesOf_recountAll ss]
end

/-! ## Adding a case -/

/-- A `change` that adds the case `c` adds it when it is made in the first suite of a `name`. -/
theorem allCasesOf_modifyFirst {change : Suite → Suite} {c : TestCase}
    (h : ∀ s, (change s).allCases.Perm (c :: s.allCases)) (name : String) (ss : List Suite) :
    (allCasesOf (modifyFirst name change ss)).Perm (c :: allCasesOf ss) := by
  induction ss with
  | nil => simpa [allCasesOf] using h (named name)
  | cons s ss ih =>
    by_cases hname : s.name = name
    · rw [modifyFirst_cons_of_eq change ss hname, allCasesOf, allCasesOf]
      exact (h s).append_right _
    · -- `c` moves in front of the cases of `s`, which is left as it is
      rw [modifyFirst_cons_of_ne change ss hname, allCasesOf, allCasesOf]
      exact (ih.append_left _).trans List.perm_middle

/-- **A case that is added along a path is the only new one**: `s.allCases` and `c`, in some order. -/
theorem allCases_modifyAt_addCase (path : List String) (c : TestCase) (s : Suite) :
    (s.modifyAt path (addCase c)).allCases.Perm (c :: s.allCases) := by
  induction path generalizing s with
  | nil =>
    rw [modifyAt, allCases_eq, allCases_eq s, addCase, List.append_assoc]
    exact List.perm_middle
  | cons name path ih =>
    rw [modifyAt, allCases_eq, allCases_eq s]
    exact ((allCasesOf_modifyFirst ih name s.children).append_left _).trans List.perm_middle

/-- **A case in suites made for it**, each in the one before: `name` and then the names of `path`. -/
def chain (name : String) (path : List String) (c : TestCase) : Suite := (named name).modifyAt path (addCase c)

/-- A chain holds the case `c` and no other. -/
theorem allCases_chain (name : String) (path : List String) (c : TestCase) : (chain name path c).allCases = [c] :=
  List.perm_singleton.1 (allCases_modifyAt_addCase path c (named name))

end PayloadGate.Junit.Suite
