import PayloadGate.Proofs.Walk.Pass
import Mathlib.Data.List.Pairwise

/-! # The objects that a pass heeds

Of all objects a pass heeds those that lead to a run or past it and do not lie below the cursor.
They alone move the cursor, so they say what is skipped.

* **`candidate?_eq_some_iff`**, **`id?_eq_some_iff`** — which objects lead to a run, and which to
  one or past one.
* **`heeded`** — the objects that a pass heeds.
* **`pass_eq_heeded`** — a pass finds the runs to which the objects lead that it heeds.
* **`mem_heeded_iff`** — an object is heeded unless one before it leads past it. -/

namespace PayloadGate.Walk

variable {route : Route} {cursor : Option String} {r : ObjectRecord} {records : List ObjectRecord}
  {id : String}

/-! ## What objects say -/

/-- The run that an object leads to or past, by what it says. -/
def Decision.id? : Decision → Option String
  | .ignore => none
  | .fastForward id => some id
  | .candidate id => some id

/-- The run that an object leads to, by what it says. -/
def Decision.candidate? : Decision → Option String
  | .candidate id => some id
  | _ => none

/-- What the object `r` says on a route. -/
def Route.decision (route : Route) (r : ObjectRecord) : Decision :=
  classify route.root route.bands route.now r

/-- Whether the age of the object `r` lies within the limits. -/
def Route.InBand (route : Route) (r : ObjectRecord) : Prop :=
  route.bands.excludes (route.now.since r.created) = false

/-- The descriptor of a run does not have the name of the mark, `latestMarker`. -/
theorem endsWith_latestMarker_of_descriptor {root key : String}
    (h : splitKey? root key = some (id, descriptorName)) :
    Text.endsWith key latestMarker = false := by
  rw [← Bool.not_eq_true, Text.endsWith, List.isSuffixOf_iff_suffix, (splitKey?_eq_some_iff.1 h).1]
  rintro ⟨before, hbefore⟩
  -- the two names end with different characters
  have hlast := congrArg List.getLast? hbefore
  simp [latestMarker, descriptorName, List.getLast?_append, List.getLast?_cons] at hlast

/-- What an object of the run `id` says, the mark apart: by its age, and then by its `name`. -/
theorem decision_of_splitKey? {name : String} (hmark : Text.endsWith r.key latestMarker = false)
    (h : splitKey? route.root r.key = some (id, name)) (hid : id ≠ "") :
    route.decision r = if route.bands.excludes (route.now.since r.created) then .fastForward id
      else if name = descriptorName then .candidate id else .ignore := by
  rw [Route.decision, classify, hmark, if_neg Bool.false_ne_true, h]
  exact if_neg hid

/-- An object that says something is no mark, and it is an object of a run. -/
theorem exists_splitKey?_of_decision_ne_ignore (h : route.decision r ≠ .ignore) :
    Text.endsWith r.key latestMarker = false
      ∧ ∃ id name, splitKey? route.root r.key = some (id, name) ∧ id ≠ "" := by
  rw [Route.decision, classify] at h
  by_cases hmark : Text.endsWith r.key latestMarker = true
  · rw [if_pos hmark] at h
    exact absurd rfl h
  · refine ⟨Bool.eq_false_iff.2 hmark, ?_⟩
    rw [if_neg hmark] at h
    split at h
    · exact absurd rfl h
    · rename_i id name hkey
      refine ⟨id, name, hkey, fun hid => ?_⟩
      rw [if_pos hid] at h
      exact h rfl

/-- **An object leads to the run `id`** when it is the descriptor and its age lies within the limits. -/
theorem candidate?_eq_some_iff :
    (route.decision r).candidate? = some id
      ↔ splitKey? route.root r.key = some (id, descriptorName) ∧ id ≠ "" ∧ route.InBand r := by
  constructor
  · intro h
    -- a candidate is in the band and named like a descriptor; each other way through `decision` gives none
    have hne : route.decision r ≠ .ignore := by
      intro hignore
      rw [hignore] at h
      exact absurd h (by simp [Decision.candidate?])
    obtain ⟨hmark, id', name, hkey, hid⟩ := exists_splitKey?_of_decision_ne_ignore hne
    rw [decision_of_splitKey? hmark hkey hid] at h
    split_ifs at h with hband hname
    · exact absurd h (by simp [Decision.candidate?])
    · obtain rfl : id' = id := Option.some.inj h
      rw [← hname]
      exact ⟨hkey, hid, Bool.eq_false_iff.2 hband⟩
    · exact absurd h (by simp [Decision.candidate?])
  · rintro ⟨hkey, hid, hband⟩
    rw [decision_of_splitKey? (endsWith_latestMarker_of_descriptor hkey) hkey hid, hband,
      if_neg Bool.false_ne_true, if_pos rfl]
    rfl

/-- **An object leads to the run `id` or past it** when it is an object of the run, the mark apart, and has an age
beyond the limits unless it is the descriptor. -/
theorem id?_eq_some_iff :
    (route.decision r).id? = some id
      ↔ Text.endsWith r.key latestMarker = false ∧ id ≠ ""
        ∧ ∃ name, splitKey? route.root r.key = some (id, name)
          ∧ (route.InBand r → name = descriptorName) := by
  constructor
  · -- an object that names no id is ignored; any other is split into its id and its name
    intro h
    have hne : route.decision r ≠ .ignore := by
      intro hignore
      rw [hignore] at h
      exact absurd h (by simp [Decision.id?])
    obtain ⟨hmark, id', name, hkey, hid⟩ := exists_splitKey?_of_decision_ne_ignore hne
    rw [decision_of_splitKey? hmark hkey hid] at h
    split_ifs at h with hband hname
    · obtain rfl : id' = id := Option.some.inj h
      refine ⟨hmark, hid, name, hkey, fun hin => ?_⟩
      exact absurd hband (Bool.eq_false_iff.1 hin)
    · obtain rfl : id' = id := Option.some.inj h
      exact ⟨hmark, hid, name, hkey, fun _ => hname⟩
    · exact absurd h (by simp [Decision.id?])
  · rintro ⟨hmark, hid, name, hkey, hname⟩
    rw [decision_of_splitKey? hmark hkey hid]
    by_cases hband : route.InBand r
    · rw [show route.bands.excludes (route.now.since r.created) = false from hband,
        if_neg Bool.false_ne_true, if_pos (hname hband)]
      rfl
    · rw [if_pos (by simpa [Route.InBand] using hband)]
      rfl

/-! ## The objects that are heeded -/

/-- **The objects that a pass heeds**: those that lead to a run or past it and do not lie below the cursor, up to the
first whose id has no next one. -/
def heeded (route : Route) (cursor : Option String) : List ObjectRecord → List ObjectRecord
  | [] => []
  | r :: rest =>
    if isBelow cursor r.key then heeded route cursor rest
    else match (route.decision r).id? with
      | none => heeded route cursor rest
      | some id =>
        match RunId.next id with
        | .error _ => []
        | .ok next => r :: heeded route (raise cursor (route.offset next)) rest

variable {rest : List ObjectRecord} {next : String}

/-- An object below the cursor is not heeded. -/
theorem heeded_cons_of_isBelow (h : isBelow cursor r.key = true) :
    heeded route cursor (r :: rest) = heeded route cursor rest := by
  rw [heeded, if_pos h]

/-- An object that leads nowhere is not heeded. -/
theorem heeded_cons_of_id?_eq_none (h : (route.decision r).id? = none) :
    heeded route cursor (r :: rest) = heeded route cursor rest := by
  rw [heeded, h]
  exact ite_self _

/-- An object that is heeded raises the cursor to the place of `next`. -/
theorem heeded_cons_of_id?_eq_some (hbelow : isBelow cursor r.key = false)
    (h : (route.decision r).id? = some id) (hn : RunId.next id = .ok next) :
    heeded route cursor (r :: rest)
      = r :: heeded route (raise cursor (route.offset next)) rest := by
  rw [heeded, hbelow, if_neg Bool.false_ne_true, h]
  simp only [hn]

/-- **What a pass heeds are some of the `records`**, in their order. -/
theorem heeded_sublist : (heeded route cursor records).Sublist records := by
  induction records generalizing cursor with
  | nil => exact List.Sublist.slnil
  | cons r rest ih =>
    rw [heeded]
    split_ifs
    · exact ih.cons r
    · split
      · exact ih.cons r
      · split
        · exact List.nil_sublist _
        · exact ih.cons_cons r

/-- The ids of all `records` that lead to a run or past it have a next one. -/
def Passable (route : Route) (records : List ObjectRecord) : Prop :=
  ∀ r ∈ records, ∀ id, (route.decision r).id? = some id → ∃ next, RunId.next id = .ok next

/-- Fewer objects are passable when more are. -/
theorem Passable.tail (h : Passable route (r :: rest)) : Passable route rest :=
  fun y hy => h y (List.mem_cons_of_mem r hy)

/-- **A pass finds the runs to which the objects lead that it heeds**, and ends without a failure when `records` are
`Passable`. -/
theorem pass_eq_heeded (h : Passable route records) :
    pass route cursor records
      = ((heeded route cursor records).filterMap fun r => (route.decision r).candidate?, none) := by
  -- by induction on the records: one that is heeded raises the cursor, for the pass and for `heeded` alike
  induction records generalizing cursor with
  | nil => rfl
  | cons r rest ih =>
    by_cases hbelow : isBelow cursor r.key = true
    · rw [pass_cons_of_isBelow hbelow, heeded_cons_of_isBelow hbelow, ih h.tail]
    · rw [Bool.not_eq_true] at hbelow
      cases hdecision : route.decision r with
      | ignore =>
        have hnone : (route.decision r).id? = none := by rw [hdecision]; rfl
        rw [pass_cons_ignore hdecision, heeded_cons_of_id?_eq_none hnone, ih h.tail]
      | fastForward id =>
        have hsome : (route.decision r).id? = some id := by rw [hdecision]; rfl
        obtain ⟨next, hn⟩ := h r List.mem_cons_self id hsome
        rw [pass_cons_fastForward hbelow hdecision hn, heeded_cons_of_id?_eq_some hbelow hsome hn,
          ih h.tail, List.filterMap_cons_none (by rw [hdecision]; rfl)]
      | candidate id =>
        have hsome : (route.decision r).id? = some id := by rw [hdecision]; rfl
        obtain ⟨next, hn⟩ := h r List.mem_cons_self id hsome
        rw [pass_cons_candidate hbelow hdecision hn, heeded_cons_of_id?_eq_some hbelow hsome hn,
          ih h.tail, List.filterMap_cons_some (by rw [hdecision]; rfl)]

/-- **An object `x` that raises the cursor** does for those behind it what it does as the first that may lead past
them. -/
theorem not_isBelow_raise_iff {x : ObjectRecord} {later : List ObjectRecord} (hx : x.key < r.key)
    (hid : (route.decision x).id? = some id) (hn : RunId.next id = .ok next) :
    (isBelow (raise cursor (route.offset next)) r.key = false
        ∧ ∀ y ∈ later, y.key < r.key →
          ∀ id next, (route.decision y).id? = some id → RunId.next id = .ok next →
            route.offset next ≤ r.key)
      ↔ isBelow cursor r.key = false
        ∧ ∀ y ∈ x :: later, y.key < r.key →
          ∀ id next, (route.decision y).id? = some id → RunId.next id = .ok next →
            route.offset next ≤ r.key := by
  -- raising the cursor to `next` is the same as asking `x` among the later ones
  rw [← Bool.not_eq_true, isBelow_raise, not_or, Bool.not_eq_true, not_lt]
  constructor
  · rintro ⟨⟨hcursor, hplace⟩, hall⟩
    refine ⟨hcursor, fun y hy hlt id' next' hid' hn' => ?_⟩
    rcases List.mem_cons.1 hy with rfl | hy
    · obtain rfl : id' = id := Option.some.inj (hid'.symm.trans hid)
      obtain rfl : next' = next := Except.ok.inj (hn'.symm.trans hn)
      exact hplace
    · exact hall y hy hlt id' next' hid' hn'
  · rintro ⟨hcursor, hall⟩
    exact ⟨⟨hcursor, hall x List.mem_cons_self hx id next hid hn⟩,
      fun y hy => hall y (List.mem_cons_of_mem x hy)⟩

/-- **The object `r` is heeded unless one before it leads past it**, when it leads to a run or past it and does not lie
below the cursor. The induction is on `records`; the first one that is heeded raises the cursor over all that it leads
past. -/
theorem mem_heeded_iff (hasc : records.Pairwise fun a b => a.key < b.key)
    (h : Passable route records) :
    r ∈ heeded route cursor records
      ↔ r ∈ records ∧ (∃ id, (route.decision r).id? = some id) ∧ isBelow cursor r.key = false
        ∧ ∀ y ∈ heeded route cursor records, y.key < r.key →
          ∀ id next, (route.decision y).id? = some id → RunId.next id = .ok next →
            route.offset next ≤ r.key := by
  induction records generalizing cursor with
  | nil => simp [heeded]
  | cons x rest ih =>
    obtain ⟨hx, hrest⟩ := List.pairwise_cons.1 hasc
    -- no object comes twice, for the keys ascend
    have hfirst : ∀ {cursor}, x ∉ heeded route cursor rest := fun hmem =>
      absurd (hx x (heeded_sublist.subset hmem)) (lt_irrefl _)
    by_cases hbelow : isBelow cursor x.key = true
    · -- the first object is skipped
      rw [heeded_cons_of_isBelow hbelow]
      by_cases hrx : r = x
      · subst hrx
        refine iff_of_false hfirst fun hr => ?_
        rw [hr.2.2.1] at hbelow
        exact absurd hbelow Bool.false_ne_true
      · rw [ih hrest h.tail, List.mem_cons, or_iff_right hrx]
    · rw [Bool.not_eq_true] at hbelow
      cases hid : (route.decision x).id? with
      | none =>
        -- the first object leads nowhere
        rw [heeded_cons_of_id?_eq_none hid]
        by_cases hrx : r = x
        · subst hrx
          exact iff_of_false hfirst fun hr => absurd hr.2.1 (by rw [hid]; simp)
        · rw [ih hrest h.tail, List.mem_cons, or_iff_right hrx]
      | some id =>
        obtain ⟨next, hn⟩ := h x List.mem_cons_self id hid
        rw [heeded_cons_of_id?_eq_some hbelow hid hn]
        by_cases hrx : r = x
        · -- nothing comes before the first object
          subst hrx
          refine iff_of_true List.mem_cons_self ⟨List.mem_cons_self, ⟨id, hid⟩, hbelow, ?_⟩
          intro y hy hlt
          rcases List.mem_cons.1 hy with rfl | hy
          · exact absurd hlt (lt_irrefl _)
          · exact absurd hlt (lt_asymm (hx y (heeded_sublist.subset hy)))
        · rw [List.mem_cons, or_iff_right hrx, ih hrest h.tail, List.mem_cons, or_iff_right hrx]
          refine and_congr_right fun hmem => and_congr_right fun _ => ?_
          exact not_isBelow_raise_iff (hx r hmem) hid hn

end PayloadGate.Walk
