import PayloadGate.Proofs.Text.Keys

/-! # A single pass over the objects of a job

A walker lists a job directory again and again. What it finds is said here without any listing:
**`pass`** visits the objects once, in the order of their keys, and carries a cursor that only
rises.

* **`isBelow`**, **`raise`** — keys below a cursor, and the cursor that rises to a place.
* **`pass`** — the ids that are found, in order, and the failure with which the pass ends.
* **`pass_append_of_isBelow`** — objects below the cursor do not count.
* **`exists_of_pass_eq`** — what a pass finds up to an id follows from the objects up to its descriptor. -/

namespace PayloadGate.Walk

open Walker (isAhead)

/-! ## Cursors that rise -/

/-- Whether `key` lies below a cursor. Without a cursor none does. -/
def isBelow (cursor : Option String) (key : String) : Bool :=
  cursor.any fun place => decide (key < place)

/-- **The cursor raised to `place`**, when that is larger or there has been no cursor. -/
def raise (cursor : Option String) (place : String) : Option String :=
  if isAhead cursor place then some place else cursor

/-- Nothing lies below a cursor that is not set. -/
@[simp] theorem isBelow_none (key : String) : isBelow none key = false := rfl

/-- Below a cursor are the smaller keys. -/
@[simp] theorem isBelow_some {place key : String} :
    isBelow (some place) key = true ↔ key < place := by
  rw [isBelow, Option.any_some, decide_eq_true_eq]

/-- Not below a cursor are the keys that are at least as large. -/
@[simp] theorem isBelow_some_eq_false {place key : String} :
    isBelow (some place) key = false ↔ place ≤ key := by
  rw [← Bool.not_eq_true, isBelow_some, not_lt]

/-- Ahead of a cursor are the larger places. -/
@[simp] theorem isAhead_some {offset place : String} :
    isAhead (some offset) place = true ↔ offset < place := by
  rw [isAhead, decide_eq_true_eq]

/-- `place` is not ahead of a cursor that has reached it. -/
theorem isAhead_eq_false_iff {cursor : Option String} {place : String} :
    isAhead cursor place = false ↔ ∃ offset, cursor = some offset ∧ place ≤ offset := by
  cases cursor with
  | none => simp [isAhead]
  | some offset => rw [← Bool.not_eq_true, isAhead_some, not_lt]; simp

/-- A `place` that is not ahead leaves the cursor: `raise cursor place = cursor`. -/
theorem raise_of_not_isAhead {cursor : Option String} {place : String}
    (h : isAhead cursor place = false) :
    raise cursor place = cursor := by
  rw [raise, h, if_neg Bool.false_ne_true]

/-- A `place` that is ahead becomes the cursor: `raise cursor place = some place`. -/
theorem raise_of_isAhead {cursor : Option String} {place : String}
    (h : isAhead cursor place = true) :
    raise cursor place = some place := by
  rw [raise, if_pos h]

/-- **Below the raised cursor** are the keys below either place. -/
theorem isBelow_raise {cursor : Option String} {place key : String} :
    isBelow (raise cursor place) key = true ↔ isBelow cursor key = true ∨ key < place := by
  cases cursor with
  | none => rw [raise_of_isAhead rfl, isBelow_some, isBelow_none]; simp
  | some offset =>
    by_cases h : offset < place
    · rw [raise_of_isAhead (isAhead_some.2 h), isBelow_some, isBelow_some]
      exact ⟨Or.inr, fun hk => hk.elim (fun ho => lt_trans ho h) id⟩
    · rw [raise_of_not_isAhead (isAhead_eq_false_iff.2 ⟨offset, rfl, not_lt.1 h⟩), isBelow_some]
      exact ⟨Or.inl, fun hk => hk.elim id fun hp => lt_of_lt_of_le hp (not_lt.1 h)⟩

/-- What is not ahead of a cursor is not ahead of the raised one. -/
theorem isAhead_raise_of_not_isAhead {cursor : Option String} {place place' : String}
    (h : isAhead cursor place = false) : isAhead (raise cursor place') place = false := by
  by_cases hp : isAhead cursor place' = true
  · rw [raise_of_isAhead hp]
    obtain ⟨offset, rfl, hle⟩ := isAhead_eq_false_iff.1 h
    rw [isAhead_some] at hp
    exact isAhead_eq_false_iff.2 ⟨place', rfl, le_trans hle (le_of_lt hp)⟩
  · rw [raise_of_not_isAhead (Bool.eq_false_iff.2 hp)]
    exact h

/-! ## The pass -/

/-- **A single pass over objects in key order.** Objects below the cursor are skipped. Of the
others, one that leads to a run or past it raises the cursor to the place of the next id, and a run
it leads to is found; an id without a next one ends the pass. -/
def pass (route : Route) (cursor : Option String) : List ObjectRecord → List String × Option Failure
  | [] => ([], none)
  | r :: rest =>
    if isBelow cursor r.key then pass route cursor rest
    else match classify route.root route.bands route.now r with
      | .ignore => pass route cursor rest
      | .fastForward id =>
        match RunId.next id with
        | .error _ => ([], some (.invalidRunId id))
        | .ok next => pass route (raise cursor (route.offset next)) rest
      | .candidate id =>
        match RunId.next id with
        | .error _ => ([], some (.invalidRunId id))
        | .ok next =>
          let (ids, failure) := pass route (raise cursor (route.offset next)) rest
          (id :: ids, failure)

variable {route : Route} {cursor : Option String} {r : ObjectRecord} {rest : List ObjectRecord}
  {id next : String}

/-- At the end of the objects a pass ends without a failure. -/
@[simp] theorem pass_nil (route : Route) (cursor : Option String) :
    pass route cursor [] = ([], none) := rfl

/-- What a pass does at the object `r`, by its place and by what it says. -/
theorem pass_cons (route : Route) (cursor : Option String) (r : ObjectRecord)
    (rest : List ObjectRecord) :
    pass route cursor (r :: rest)
      = if isBelow cursor r.key then pass route cursor rest
        else match classify route.root route.bands route.now r with
          | .ignore => pass route cursor rest
          | .fastForward id =>
            match RunId.next id with
            | .error _ => ([], some (.invalidRunId id))
            | .ok next => pass route (raise cursor (route.offset next)) rest
          | .candidate id =>
            match RunId.next id with
            | .error _ => ([], some (.invalidRunId id))
            | .ok next =>
              let (ids, failure) := pass route (raise cursor (route.offset next)) rest
              (id :: ids, failure) := rfl

/-- An object below the cursor is skipped. -/
theorem pass_cons_of_isBelow (h : isBelow cursor r.key = true) :
    pass route cursor (r :: rest) = pass route cursor rest := by
  rw [pass_cons, if_pos h]

/-- An object that says nothing is passed by. -/
theorem pass_cons_ignore (hc : classify route.root route.bands route.now r = .ignore) :
    pass route cursor (r :: rest) = pass route cursor rest := by
  rw [pass_cons, hc]
  exact ite_self _

/-- An object that leads past the run `id` raises the cursor to the place of `next`. -/
theorem pass_cons_fastForward (h : isBelow cursor r.key = false)
    (hc : classify route.root route.bands route.now r = .fastForward id)
    (hn : RunId.next id = .ok next) :
    pass route cursor (r :: rest) = pass route (raise cursor (route.offset next)) rest := by
  rw [pass_cons, h, if_neg Bool.false_ne_true, hc]
  simp only [hn]

/-- An object that leads to the run `id` finds it and raises the cursor to the place of `next`. -/
theorem pass_cons_candidate (h : isBelow cursor r.key = false)
    (hc : classify route.root route.bands route.now r = .candidate id)
    (hn : RunId.next id = .ok next) :
    pass route cursor (r :: rest)
      = (id :: (pass route (raise cursor (route.offset next)) rest).1,
          (pass route (raise cursor (route.offset next)) rest).2) := by
  rw [pass_cons, h, if_neg Bool.false_ne_true, hc]
  simp only [hn]

/-- An id without a next one ends the pass before it is found. -/
theorem pass_cons_of_next_error {f : Failure} (h : isBelow cursor r.key = false)
    (hc : classify route.root route.bands route.now r = .fastForward id
      ∨ classify route.root route.bands route.now r = .candidate id)
    (hn : RunId.next id = .error f) :
    pass route cursor (r :: rest) = ([], some (.invalidRunId id)) := by
  rw [pass_cons, h, if_neg Bool.false_ne_true]
  rcases hc with hc | hc <;> rw [hc] <;> simp only [hn]

/-- **Objects below the cursor do not count**: those of `skipped` make no difference. -/
theorem pass_append_of_isBelow {skipped : List ObjectRecord}
    (h : ∀ r ∈ skipped, isBelow cursor r.key = true) :
    pass route cursor (skipped ++ rest) = pass route cursor rest := by
  induction skipped with
  | nil => rfl
  | cons r skipped ih =>
    rw [List.cons_append, pass_cons_of_isBelow (h r List.mem_cons_self)]
    exact ih fun r' hr' => h r' (List.mem_cons_of_mem r hr')

/-- **What a pass finds up to `id`** follows from the objects up to its descriptor `r`: the pass finds `earlier` before
it, and goes on at the same place, whatever comes in `after`. -/
theorem exists_of_pass_eq {records : List ObjectRecord} {earlier later : List String} {failure : Option Failure}
    (h : pass route cursor records = (earlier ++ id :: later, failure)) :
    ∃ before r after, records = before ++ r :: after
      ∧ classify route.root route.bands route.now r = .candidate id
      ∧ (∀ i ∈ earlier, ∃ y ∈ before, classify route.root route.bands route.now y = .candidate i)
      ∧ ∃ cursor', ∀ after', pass route cursor (before ++ r :: after')
        = (earlier ++ id :: (pass route cursor' after').1, (pass route cursor' after').2) := by
  induction records generalizing cursor earlier with
  | nil => exact absurd (Prod.mk.inj h).1 (by simp)
  | cons x rest ih =>
    -- an object behind which the pass finds the id
    have hpast : ∀ cursor₁, (∀ records, pass route cursor (x :: records) = pass route cursor₁ records) →
        ∃ before r after, x :: rest = before ++ r :: after
          ∧ classify route.root route.bands route.now r = .candidate id
          ∧ (∀ i ∈ earlier, ∃ y ∈ before, classify route.root route.bands route.now y = .candidate i)
          ∧ ∃ cursor', ∀ after', pass route cursor (before ++ r :: after')
            = (earlier ++ id :: (pass route cursor' after').1, (pass route cursor' after').2) := by
      intro cursor₁ hskip
      rw [hskip] at h
      obtain ⟨before, r, after, rfl, hc, hearlier, cursor', hpass⟩ := ih h
      refine ⟨x :: before, r, after, rfl, hc, fun i hi => ?_, cursor', fun after' => ?_⟩
      · obtain ⟨y, hy, hcy⟩ := hearlier i hi
        exact ⟨y, List.mem_cons_of_mem x hy, hcy⟩
      · rw [List.cons_append, hskip, hpass]
    by_cases hbelow : isBelow cursor x.key = true
    · exact hpast cursor fun _ => pass_cons_of_isBelow hbelow
    · rw [Bool.not_eq_true] at hbelow
      cases hc : classify route.root route.bands route.now x with
      | ignore => exact hpast cursor fun _ => pass_cons_ignore hc
      | fastForward i =>
        cases hn : RunId.next i with
        | error f =>
          rw [pass_cons_of_next_error hbelow (.inl hc) hn] at h
          exact absurd (Prod.mk.inj h).1 (by simp)
        | ok next => exact hpast _ fun _ => pass_cons_fastForward hbelow hc hn
      | candidate i =>
        cases hn : RunId.next i with
        | error f =>
          rw [pass_cons_of_next_error hbelow (.inr hc) hn] at h
          exact absurd (Prod.mk.inj h).1 (by simp)
        | ok next =>
          rw [pass_cons_candidate hbelow hc hn] at h
          obtain ⟨hids, hfailure⟩ := Prod.mk.inj h
          cases earlier with
          | nil =>
            -- the object is the descriptor of the id
            obtain ⟨rfl, -⟩ := List.cons.inj hids
            exact ⟨[], x, rest, rfl, hc, by simp, _, fun _ => pass_cons_candidate hbelow hc hn⟩
          | cons j earlier =>
            obtain ⟨rfl, hrest⟩ := List.cons.inj hids
            obtain ⟨before, r, after, rfl, hcr, hearlier, cursor', hpass⟩ := ih (Prod.ext hrest hfailure)
            refine ⟨x :: before, r, after, rfl, hcr, fun i' hi' => ?_, cursor', fun after' => ?_⟩
            · rcases List.mem_cons.1 hi' with rfl | hi'
              · exact ⟨x, List.mem_cons_self, hc⟩
              · obtain ⟨y, hy, hcy⟩ := hearlier i' hi'
                exact ⟨y, List.mem_cons_of_mem x hy, hcy⟩
            · rw [List.cons_append, pass_cons_candidate hbelow hc hn, hpass]
              rfl

/-! ## Objects that lead to runs -/

/-- An object that leads to the run `id` is its descriptor. -/
theorem splitKey?_of_candidate {root : String} {bands : AgeBands} {now : Time.Instant}
    (h : classify root bands now r = .candidate id) :
    splitKey? root r.key = some (id, descriptorName) := by
  rw [classify] at h
  split at h
  · exact absurd h (by simp)
  · split at h
    · exact absurd h (by simp)
    · rename_i id' name hkey
      split_ifs at h with h₁ h₂ h₃
      obtain rfl : id' = id := by simpa using h
      rw [hkey, h₃]

end PayloadGate.Walk
