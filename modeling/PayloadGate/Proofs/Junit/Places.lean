import PayloadGate.Proofs.Junit.Counts
import Mathlib.Data.List.Infix
import Mathlib.Data.List.Basic

/-! # Adding a case along a path

A path leads to a suite, at each name to the first child that has it; suites that are missing are made. Names can be
repeated among the children of a suite, so that a suite is told from others by its place in the tree alone: the numbers
of the children on the way to it.

* **`Suite.atPlace?`**, **`Suite.placeOf`** — the suite at a place, and the place to which a path leads.
* **`Suite.at?_modifyAt`**, **`Suite.exists_missing`** — what a path leads to after a change, and the first suite that
  is missing.
* **`Suite.atPlace?_modifyAt_append`**, **`Suite.map_bare_atPlace?_modifyAt`** — a change along a path that is there
  leaves all else in its place.
* **`Suite.MadeFor`** — suites that are made for a case.
* **`Suite.AddsCase`**, **`Suite.addsCase_modifyAt`** — a case that is added along a path, and all that stays. -/

namespace PayloadGate.Junit.Suite

variable {path front found rest : List String} {name : String} {change : Suite → Suite} {s s' u parent : Suite}
  {c : TestCase} {place below : List Nat}

/-! ## Places -/

/-- **The suite at a place**: the numbers of the children on the way to it. Unlike a path, a place is one of a single
suite. -/
def atPlace? : List Nat → Suite → Option Suite
  | [], s => some s
  | i :: place, s => s.children[i]?.bind (atPlace? place)

/-- **The place to which a path leads**, at each name to the first child that has it. A child that is missing comes
behind the others. -/
def placeOf : List String → Suite → List Nat
  | [], _ => []
  | name :: path, s =>
    let i := s.children.findIdx (·.name == name)
    i :: placeOf path (s.children[i]?.getD (named name))

/-- The empty place is that of the suite itself. -/
@[simp] theorem atPlace?_nil (s : Suite) : atPlace? [] s = some s := rfl

/-- A place is followed number by number, from child to child. -/
theorem atPlace?_cons (i : Nat) (place : List Nat) (s : Suite) :
    atPlace? (i :: place) s = s.children[i]?.bind (atPlace? place) := rfl

/-- **A place leads on from where its beginning leads**: `place ++ below` is `below` at what is at `place`. -/
theorem atPlace?_append (place below : List Nat) (s : Suite) :
    atPlace? (place ++ below) s = (atPlace? place s).bind (atPlace? below) := by
  induction place generalizing s with
  | nil => rfl
  | cons i place ih =>
    rw [List.cons_append, atPlace?_cons, atPlace?_cons, Option.bind_assoc]
    exact congrArg _ (funext ih)

/-- The way along a path: first to the place of its first name, the number of the first child that has it. -/
theorem placeOf_cons (name : String) (path : List String) (s : Suite) :
    placeOf (name :: path) s = s.children.findIdx (·.name == name)
      :: placeOf path ((s.children.find? (·.name == name)).getD (named name)) := by
  rw [placeOf, List.find?_eq_getElem?_findIdx]

/-- **A path leads to the suite at its place**: `atPlace? (placeOf path s) s = at? path s`. -/
theorem atPlace?_placeOf (path : List String) (s : Suite) : atPlace? (placeOf path s) s = at? path s := by
  induction path generalizing s with
  | nil => rfl
  | cons name path ih =>
    rw [placeOf_cons, atPlace?_cons, ← List.find?_eq_getElem?_findIdx, at?]
    cases s.children.find? (·.name == name) with
    | none => rfl
    | some child => exact ih child

/-- A path leads on from where its beginning `front` leads. -/
theorem at?_append (front rest : List String) (s : Suite) : at? (front ++ rest) s = (at? front s).bind (at? rest) := by
  induction front generalizing s with
  | nil => rfl
  | cons name front ih =>
    rw [List.cons_append, at?, at?, Option.bind_assoc]
    exact congrArg _ (funext ih)

/-! ## Changes along a path -/

/-- **The first suite of a name after the change**: what was the first one, or one that is made, changed. The `change`
has to keep names (`hchange`). -/
theorem find?_modifyFirst (hchange : ∀ x, (change x).name = x.name) (name : String) (ss : List Suite) :
    (modifyFirst name change ss).find? (·.name == name)
      = some (change ((ss.find? (·.name == name)).getD (named name))) := by
  induction ss with
  | nil => simp [hchange, named]
  | cons x ss ih =>
    by_cases hname : x.name = name
    · rw [modifyFirst_cons_of_eq change ss hname]
      simp [hchange, hname]
    · rw [modifyFirst_cons_of_ne change ss hname, List.find?_cons_of_neg (by simpa using hname), ih,
        List.find?_cons_of_neg (by simpa using hname)]

/-- **The suites of a list after a change** in the first one of a `name`: it is changed in its place, or made behind the
others; at all other places `i` they are as they were. -/
theorem getElem?_modifyFirst (name : String) (change : Suite → Suite) (ss : List Suite) (i : Nat) :
    (modifyFirst name change ss)[i]?
      = if i = ss.findIdx (·.name == name) then some (change (ss[i]?.getD (named name))) else ss[i]? := by
  induction ss generalizing i with
  | nil => cases i <;> simp
  | cons x ss ih =>
    by_cases hname : x.name = name
    · rw [modifyFirst_cons_of_eq change ss hname, List.findIdx_cons]
      cases i <;> simp [hname]
    · rw [modifyFirst_cons_of_ne change ss hname, List.findIdx_cons]
      rw [beq_false_of_ne hname]
      cases i with
      | zero => simp
      | succ i => simp [ih i]

/-- A change along a path keeps the name of the suite above, when it keeps names. -/
theorem name_modifyAt (hchange : ∀ x, (change x).name = x.name) (path : List String) (s : Suite) :
    (modifyAt path change s).name = s.name := by
  cases path with
  | nil => exact hchange s
  | cons name path => rfl

/-- **What a path leads to after a change**: the suite that was there, or one that is made, changed. -/
theorem at?_modifyAt (hchange : ∀ x, (change x).name = x.name) (path : List String) (s : Suite) :
    at? path (modifyAt path change s) = some (change ((at? path s).getD (named (path.getLastD "")))) := by
  induction path generalizing s with
  | nil => rfl
  | cons name path ih =>
    rw [modifyAt, at?, find?_modifyFirst (name_modifyAt hchange path), Option.bind_some, ih, at?]
    -- the default counts only where the path goes on
    cases path with
    | nil => cases s.children.find? (·.name == name) <;> rfl
    | cons next path => cases s.children.find? (·.name == name) <;> rfl

/-- **Two changes in the first suite of a name** are one, when the first of them keeps the name. -/
theorem modifyFirst_modifyFirst {again : Suite → Suite} (hchange : ∀ x, (change x).name = x.name) (name : String)
    (ss : List Suite) :
    modifyFirst name again (modifyFirst name change ss) = modifyFirst name (fun x => again (change x)) ss := by
  induction ss with
  | nil => exact modifyFirst_cons_of_eq again [] (hchange (named name))
  | cons x ss ih =>
    by_cases hname : x.name = name
    · rw [modifyFirst_cons_of_eq _ ss hname, modifyFirst_cons_of_eq _ ss hname,
        modifyFirst_cons_of_eq again ss ((hchange x).trans hname)]
    · rw [modifyFirst_cons_of_ne _ ss hname, modifyFirst_cons_of_ne _ ss hname, modifyFirst_cons_of_ne _ _ hname, ih]

/-- Two changes along a path are one, when the first of them keeps the name. -/
theorem modifyAt_modifyAt {again : Suite → Suite} (hchange : ∀ x, (change x).name = x.name) (path : List String)
    (s : Suite) : modifyAt path again (modifyAt path change s) = modifyAt path (fun x => again (change x)) s := by
  induction path generalizing s with
  | nil => rfl
  | cons name path ih =>
    simp only [modifyAt, modifyFirst_modifyFirst (name_modifyAt hchange path), ih]

/-- Two changes are alike in a list when they are alike at `x`, the first suite of the name. -/
theorem modifyFirst_congr {x : Suite} {ss : List Suite} {change' : Suite → Suite}
    (hfirst : ss.find? (·.name == name) = some x) (hchange : change x = change' x) :
    modifyFirst name change ss = modifyFirst name change' ss := by
  refine List.ext_getElem? fun i => ?_
  rw [getElem?_modifyFirst, getElem?_modifyFirst]
  split_ifs with hi
  · rw [hi, ← List.find?_eq_getElem?_findIdx, hfirst, Option.getD_some, hchange]
  · rfl

/-- A list stays as it is when `x`, the first suite of the name, does. -/
theorem modifyFirst_eq_self {x : Suite} {ss : List Suite} (hfirst : ss.find? (·.name == name) = some x)
    (hchange : change x = x) : modifyFirst name change ss = ss := by
  refine List.ext_getElem? fun i => ?_
  rw [getElem?_modifyFirst]
  split_ifs with hi
  · rw [hi, ← List.find?_eq_getElem?_findIdx, hfirst, Option.getD_some, hchange]
  · rfl

/-- **No suite is made along a path that is there**: `s.withPath path = s`. -/
theorem withPath_eq_self (h : at? path s = some u) : s.withPath path = s := by
  induction path generalizing s with
  | nil => rfl
  | cons name path ih =>
    obtain ⟨child, hfirst, hchild⟩ := Option.bind_eq_some_iff.1 h
    have hsame : modifyAt path id child = child := ih hchild
    change { s with children := modifyFirst name (modifyAt path id) s.children } = s
    rw [modifyFirst_eq_self hfirst hsame]
    cases s
    rfl

/-- Where a path leads, its beginnings `front` lead somewhere, too. -/
theorem exists_at?_of_prefix (h : at? path s = some u) (hfront : front <+: path) : ∃ v, at? front s = some v := by
  obtain ⟨rest, rfl⟩ := hfront
  rw [at?_append] at h
  obtain ⟨v, hv, -⟩ := Option.bind_eq_some_iff.1 h
  exact ⟨v, hv⟩

/-- When no suite of a list has the `name`, the change is made in a new one behind them. -/
theorem modifyFirst_of_find?_eq_none {ss : List Suite} (h : ss.find? (·.name == name) = none) (change : Suite → Suite) :
    modifyFirst name change ss = ss ++ [change (named name)] := by
  induction ss with
  | nil => rfl
  | cons x ss ih =>
    rw [List.find?_eq_none] at h ih
    have hname : x.name ≠ name := by simpa using h x List.mem_cons_self
    rw [modifyFirst_cons_of_ne change ss hname, ih fun y hy => h y (List.mem_cons_of_mem x hy), List.cons_append]

/-- **The first suite that is missing** on a path: behind `found`, the part of the path that is there and leads to
`parent`, the change is made in one new child `name`, which comes behind the others. -/
theorem exists_missing (h : at? path s = none) :
    ∃ found name rest parent, path = found ++ name :: rest ∧ at? found s = some parent
      ∧ (∀ child ∈ parent.children, child.name ≠ name)
      ∧ ∀ change, modifyAt path change s = modifyAt found (addChild (modifyAt rest change (named name))) s := by
  -- by induction on the path: the name is missing here, or below the first child that has it
  induction path generalizing s with
  | nil => exact absurd h (by simp)
  | cons name path ih =>
    cases hfirst : s.children.find? (·.name == name) with
    | none =>
      refine ⟨[], name, path, s, rfl, rfl, fun child hchild => ?_, fun change => ?_⟩
      · simpa using List.find?_eq_none.1 hfirst child hchild
      · change { s with children := modifyFirst name (modifyAt path change) s.children } = _
        rw [modifyFirst_of_find?_eq_none hfirst]
        rfl
    | some child =>
      have hchild : at? path child = none := by simpa [at?, hfirst] using h
      obtain ⟨found, next, rest, parent, rfl, hparent, hmissing, hchange⟩ := ih hchild
      refine ⟨name :: found, next, rest, parent, rfl, ?_, hmissing, fun change => ?_⟩
      · rw [at?, hfirst, Option.bind_some, hparent]
      · exact congrArg (fun children => { s with children }) (modifyFirst_congr hfirst (hchange change))

/-! ## What stays -/

/-- A suite without its children: all that it holds itself. -/
def bare (s : Suite) : Suite := { s with children := [] }

/-- **The suite at the end of a path is changed**, with all that is `below` it. -/
theorem atPlace?_modifyAt_append (h : at? path s = some u) (change : Suite → Suite) (below : List Nat) :
    atPlace? (placeOf path s ++ below) (modifyAt path change s) = atPlace? below (change u) := by
  induction path generalizing s with
  | nil =>
    obtain rfl := Option.some.inj h
    rfl
  | cons name path ih =>
    obtain ⟨child, hfirst, hchild⟩ := Option.bind_eq_some_iff.1 h
    rw [placeOf_cons, List.cons_append, atPlace?_cons, modifyAt, getElem?_modifyFirst, if_pos rfl,
      ← List.find?_eq_getElem?_findIdx, hfirst]
    exact ih hchild

/-- **All other suites stay in their places**, those not at or below `placeOf path s`. They hold themselves what they
held, and there is no suite where there was none. -/
theorem map_bare_atPlace?_modifyAt (h : at? path s = some u) (change : Suite → Suite)
    (hplace : ¬ placeOf path s <+: place) :
    (atPlace? place (modifyAt path change s)).map bare = (atPlace? place s).map bare := by
  induction path generalizing s place with
  | nil => exact absurd List.nil_prefix hplace
  | cons name path ih =>
    obtain ⟨child, hfirst, hchild⟩ := Option.bind_eq_some_iff.1 h
    cases place with
    | nil => rfl
    | cons i place =>
      rw [atPlace?_cons, atPlace?_cons, modifyAt, getElem?_modifyFirst]
      rw [placeOf_cons, hfirst, Option.getD_some] at hplace
      split_ifs with hi
      · -- below the child that is on the path
        rw [hi, ← List.find?_eq_getElem?_findIdx, hfirst]
        refine ih hchild fun hin => hplace ?_
        rw [hi]
        exact List.cons_prefix_cons.2 ⟨rfl, hin⟩
      · rfl

/-- **A change of one suite that keeps what is below it** changes nothing else: each suite `v` of before has its
counterpart in the same place. -/
theorem exists_atPlace?_modifyAt (h : at? path s = some u)
    (hbelow : ∀ below v, below ≠ [] → atPlace? below u = some v → atPlace? below (change u) = some v)
    {v : Suite} (hplace : atPlace? place s = some v) :
    ∃ v', atPlace? place (modifyAt path change s) = some v'
      ∧ v'.bare = if place = placeOf path s then (change v).bare else v.bare := by
  -- at the end of the path or below it, or beside it
  by_cases hin : placeOf path s <+: place
  · obtain ⟨below, rfl⟩ := hin
    rw [atPlace?_append, atPlace?_placeOf, h, Option.bind_some] at hplace
    rw [atPlace?_modifyAt_append h]
    by_cases hend : below = []
    · subst hend
      obtain rfl := Option.some.inj hplace
      exact ⟨change u, rfl, by simp⟩
    · exact ⟨v, hbelow below v hend hplace, by simp [hend]⟩
  · have hsame := map_bare_atPlace?_modifyAt h change hin
    rw [hplace, Option.map_some] at hsame
    obtain ⟨v', hv', hbare⟩ := Option.map_eq_some_iff.1 hsame
    refine ⟨v', hv', ?_⟩
    have hother : place ≠ placeOf path s := fun heq => hin (heq ▸ List.prefix_refl place)
    rw [if_neg hother, hbare]

/-- Below a suite nothing changes when it gets a case. -/
theorem atPlace?_addCase (hbelow : below ≠ []) (c : TestCase) (s : Suite) :
    atPlace? below (addCase c s) = atPlace? below s := by
  cases below with
  | nil => exact absurd rfl hbelow
  | cons i below => rfl

/-- A new child comes behind the others, at the number `s.children.length`. -/
theorem atPlace?_addChild_length (child : Suite) (below : List Nat) (s : Suite) :
    atPlace? (s.children.length :: below) (addChild child s) = atPlace? below child := by
  rw [atPlace?_cons, addChild, List.getElem?_concat_length, Option.bind_some]

/-- The other places are the same with a new child. -/
theorem atPlace?_addChild {i : Nat} (h : i ≠ s.children.length) (child : Suite) (below : List Nat) :
    atPlace? (i :: below) (addChild child s) = atPlace? (i :: below) s := by
  have hnone : i < s.children.length ∨ [child][i - s.children.length]? = none := by
    rcases Nat.lt_or_gt_of_ne h with hlt | hgt
    · exact .inl hlt
    · exact .inr (List.getElem?_eq_none (by simp; omega))
  rw [atPlace?_cons, atPlace?_cons, addChild, List.getElem?_append]
  split_ifs with hi
  · rfl
  · rw [hnone.resolve_left hi, List.getElem?_eq_none (by omega)]

/-- A suite below keeps its place when a child is added. -/
theorem atPlace?_addChild_of_some (hbelow : below ≠ []) (child : Suite) (h : atPlace? below s = some u) :
    atPlace? below (addChild child s) = some u := by
  cases below with
  | nil => exact absurd rfl hbelow
  | cons i below =>
    have hi : i ≠ s.children.length := by
      rintro rfl
      rw [atPlace?_cons, List.getElem?_eq_none le_rfl] at h
      exact absurd h (by simp)
    rw [atPlace?_addChild hi, h]

/-- **A case is no suite**: there is none where there was none. -/
theorem atPlace?_modifyAt_addCase_eq_none (h : at? path s = some u) (c : TestCase) (hplace : atPlace? place s = none) :
    atPlace? place (modifyAt path (addCase c) s) = none := by
  by_cases hin : placeOf path s <+: place
  · obtain ⟨below, rfl⟩ := hin
    rw [atPlace?_append, atPlace?_placeOf, h, Option.bind_some] at hplace
    have hbelow : below ≠ [] := by
      rintro rfl
      exact absurd hplace (by simp)
    rw [atPlace?_modifyAt_append h, atPlace?_addCase hbelow, hplace]
  · have hsame := map_bare_atPlace?_modifyAt h (addCase c) hin
    rw [hplace] at hsame
    exact Option.map_eq_none_iff.1 hsame

/-- **The suites of a new child** `first` are the only new ones: they stand behind the other children. -/
theorem atPlace?_modifyAt_addChild_iff {first : Suite} (h : at? found s = some parent)
    (hplace : atPlace? place s = none) :
    atPlace? place (modifyAt found (addChild first) s) = some u
      ↔ ∃ below, place = placeOf found s ++ parent.children.length :: below ∧ atPlace? below first = some u := by
  -- either `place` lies below the parent of the new suite, or the tree is there as it was
  by_cases hin : placeOf found s <+: place
  · obtain ⟨below, rfl⟩ := hin
    rw [atPlace?_append, atPlace?_placeOf, h, Option.bind_some] at hplace
    rw [atPlace?_modifyAt_append h]
    cases below with
    | nil => exact absurd hplace (by simp)
    | cons i below =>
      -- below the parent, the last child is the new one, and `hplace` rules out all others
      by_cases hi : i = parent.children.length
      · subst hi
        rw [atPlace?_addChild_length]
        simp
      · rw [atPlace?_addChild hi, hplace]
        simp [hi]
  · have hsame := map_bare_atPlace?_modifyAt h (addChild first) hin
    rw [hplace, Option.map_none, Option.map_eq_none_iff] at hsame
    rw [hsame]
    refine iff_of_false (by simp) ?_
    rintro ⟨below, rfl, -⟩
    exact hin (List.prefix_append _ _)

/-! ## Adding a case -/

/-- **Suites that are made for a case**: one for each name, with nothing but the next one in it, and the case alone in
the last of them. -/
def MadeFor (c : TestCase) : String → List String → Suite → Prop
  | name, [], s => s = addCase c (named name)
  | name, next :: rest, s => ∃ child, MadeFor c next rest child ∧ s = addChild child (named name)

/-- Such suites are made when a case is added along a path of which nothing is there: the `chain` is one. -/
theorem madeFor_chain (c : TestCase) (name : String) (rest : List String) :
    MadeFor c name rest (chain name rest c) := by
  induction rest generalizing name with
  | nil => rfl
  | cons next rest ih => exact ⟨chain next rest c, ih next, rfl⟩

/-- **A case is added along a path**: what becomes of the suite there, of all others, and of a path that is missing. -/
structure AddsCase (path : List String) (c : TestCase) (s s' : Suite) : Prop where
  /-- **The path leads to a suite with the cases from before and the case behind them.** -/
  reached : ∃ u, at? path s' = some u ∧ u.cases = (at? path s).elim [] (·.cases) ++ [c]
  /-- **Each suite stays in its place** with its name, counts, duration and cases; the one at the end of the path gets
  the case. -/
  kept : ∀ place u, atPlace? place s = some u → ∃ u', atPlace? place s' = some u'
    ∧ u'.bare = if place = placeOf path s then addCase c u.bare else u.bare
  /-- **No suite is made** when the path leads to one. -/
  unmade : at? path s ≠ none → ∀ place, atPlace? place s = none → atPlace? place s' = none
  /-- **Otherwise suites are made for the rest of the path**, behind the children of the last suite that is there, and
  no others. -/
  made : at? path s = none → ∃ found name rest parent first, path = found ++ name :: rest ∧ at? found s = some parent
    ∧ (∀ child ∈ parent.children, child.name ≠ name) ∧ MadeFor c name rest first
    ∧ ∀ place, atPlace? place s = none → ∀ u, atPlace? place s' = some u
      ↔ ∃ below, place = placeOf found s ++ parent.children.length :: below ∧ atPlace? below first = some u
  /-- **No suite is made again** for the path or for a beginning of it. -/
  again : ∀ front, front <+: path → s'.withPath front = s'
  /-- Making the suites comes first, and the case is added to the one that the path leads to then. -/
  after : ∃ u, at? path (s.withPath path) = some u ∧ at? path s' = some (addCase c u)
    ∧ (s.withPath path).modifyAt path (addCase c) = s'

/-- **A case that is added along a path** is the last one of the suite there, and nothing else changes, but that the
suites are made that were missing. -/
theorem addsCase_modifyAt (path : List String) (c : TestCase) (s : Suite) :
    AddsCase path c s (s.modifyAt path (addCase c)) := by
  have hadd : ∀ x, (addCase c x).name = x.name := fun _ => rfl
  have hid : ∀ x : Suite, (id x).name = x.name := fun _ => rfl
  have hreached := at?_modifyAt hadd path s
  have hwith := at?_modifyAt hid path s
  refine
    { reached := ⟨_, hreached, by cases at? path s <;> rfl⟩
      kept := fun place u hplace => ?_
      unmade := fun hpath place hplace => ?_
      made := fun hpath => ?_
      again := fun front hfront => ?_
      after := ⟨_, hwith, hreached, modifyAt_modifyAt hid path s⟩ }
  · cases hpath : at? path s with
    | some v => exact exists_atPlace?_modifyAt hpath (fun below w hbelow hw => atPlace?_addCase hbelow c v ▸ hw) hplace
    | none =>
      obtain ⟨found, name, rest, parent, rfl, hparent, -, hchange⟩ := exists_missing hpath
      -- no suite of before stands at the end of the path
      have hother : place ≠ placeOf (found ++ name :: rest) s := by
        rintro rfl
        rw [atPlace?_placeOf, hpath] at hplace
        exact absurd hplace (by simp)
      have hbelow : ∀ below w, below ≠ [] → atPlace? below parent = some w
          → atPlace? below (addChild (chain name rest c) parent) = some w :=
        fun below w hbelow hw => atPlace?_addChild_of_some hbelow _ hw
      obtain ⟨u', hu', hbare⟩ := exists_atPlace?_modifyAt hparent hbelow hplace
      refine ⟨u', hchange _ ▸ hu', ?_⟩
      rw [hbare, if_neg hother]
      exact ite_self u.bare
  · -- the case comes to a suite that is there
    obtain ⟨u, hu⟩ := Option.ne_none_iff_exists'.1 hpath
    exact atPlace?_modifyAt_addCase_eq_none hu c hplace
  · obtain ⟨found, name, rest, parent, rfl, hparent, hmissing, hchange⟩ := exists_missing hpath
    refine ⟨found, name, rest, parent, chain name rest c, rfl, hparent, hmissing, madeFor_chain c name rest, ?_⟩
    intro place hplace u
    rw [hchange]
    exact atPlace?_modifyAt_addChild_iff hparent hplace
  · obtain ⟨u, hu⟩ := exists_at?_of_prefix hreached hfront
    exact withPath_eq_self hu

end PayloadGate.Junit.Suite
