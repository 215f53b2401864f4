import PayloadGate.Proofs.Run.NextId
import PayloadGate.Proofs.Store.Snapshot
import PayloadGate.Proofs.Walk.Pass
import PayloadGate.Proofs.Walk.Steps

/-! # Walkers and the single pass

A walker starts a new listing whenever its offset moves, and an offset such as that of `10` behind
`9` brings back objects that it has seen. The invariant of this file says why this does no harm:
every object that comes back is **`Spent`** — it says nothing, or its run has been taken and its
next place reached.

* **`Reached`** — how far a walker has come: the objects of the job up to some point are spent or
  lie below its offset, and the runs behind that point have not been taken.
* **`Standing`** — a walker that will still find given ids and end in a given way, as the pass over
  the objects ahead of it says. A number bounds how often it can still move.
* **`standing_start`**, **`standing_receive`**, **`standing_accepted`** — the invariant at the
  start, after a page and after an id was taken. -/

namespace PayloadGate.Walk

open Walker (isAhead)

variable {store : Snapshot} {seed : Option String} {w : Walker}

/-! ## Objects that have nothing new -/

/-- **An object that has nothing new for the walker `w`**: it says nothing, or it leads to or past a run whose next
place the walker has reached. -/
def Spent (w : Walker) (r : ObjectRecord) : Prop :=
  match classify w.route.root w.route.bands w.route.now r with
  | .ignore => True
  | .fastForward id => ∃ next, RunId.next id = .ok next
      ∧ isAhead w.offset (w.route.offset next) = false
  | .candidate id =>
    id ∈ w.emitted ∧ ∃ next, RunId.next id = .ok next
      ∧ isAhead w.offset (w.route.offset next) = false

/-- An object that leads past the run `id` is spent once the place of `next` is reached. -/
theorem Spent.of_fastForward {r : ObjectRecord} {id next : String}
    (hc : classify w.route.root w.route.bands w.route.now r = .fastForward id)
    (hn : RunId.next id = .ok next) (ha : isAhead w.offset (w.route.offset next) = false) :
    Spent w r := by
  rw [Spent, hc]
  exact ⟨next, hn, ha⟩

/-- An object that leads to the run `id` is spent once `id` is taken and the place of `next` is reached. -/
theorem Spent.of_candidate {r : ObjectRecord} {id next : String}
    (hc : classify w.route.root w.route.bands w.route.now r = .candidate id) (hid : id ∈ w.emitted)
    (hn : RunId.next id = .ok next) (ha : isAhead w.offset (w.route.offset next) = false) :
    Spent w r := by
  rw [Spent, hc]
  exact ⟨hid, next, hn, ha⟩

/-- A spent object stays spent when the offset rises and ids are taken. -/
theorem Spent.mono {w' : Walker} {r : ObjectRecord} (h : Spent w r) (hroute : w'.route = w.route)
    (hoffset : ∀ place, isAhead w.offset place = false → isAhead w'.offset place = false)
    (hemitted : ∀ id ∈ w.emitted, id ∈ w'.emitted) : Spent w' r := by
  rw [Spent, hroute]
  rw [Spent] at h
  split at h
  · trivial
  · obtain ⟨next, hn, ha⟩ := h
    exact ⟨next, hn, hoffset _ ha⟩
  · obtain ⟨hid, next, hn, ha⟩ := h
    exact ⟨hemitted _ hid, next, hn, hoffset _ ha⟩

/-- **A walker passes by a spent object**: `w.goThrough cursor (r :: rest) = w.goThrough cursor rest`. -/
theorem goThrough_cons_of_spent {r : ObjectRecord} (h : Spent w r) (cursor : Cursor)
    (rest : List ObjectRecord) :
    w.goThrough cursor (r :: rest) = w.goThrough cursor rest := by
  rw [Spent] at h
  cases hc : classify w.route.root w.route.bands w.route.now r with
  | ignore => rw [Walker.goThrough, hc]
  | fastForward id =>
    rw [hc] at h
    obtain ⟨next, hn, ha⟩ := h
    rw [Walker.goThrough, hc]
    simp only [hn, ha, Bool.false_eq_true, if_false]
  | candidate id =>
    rw [hc] at h
    obtain ⟨hid, next, hn, ha⟩ := h
    rw [Walker.goThrough, hc]
    simp only [hn, hid, ha, not_true_eq_false, Bool.false_eq_true, if_false]

/-! ## How far a walker has come -/

/-- **How far the walker `w` has come** in a job whose objects are listed from the `seed` on: `todo` is what it has not
come to, and all before is spent or lies below its offset. -/
structure Reached (store : Snapshot) (seed : Option String) (w : Walker)
    (todo : List ObjectRecord) : Prop where
  /-- All objects before `todo` lie below the offset or are spent. -/
  behind : ∃ done, store.listing (w.route.listing seed) = done ++ todo
    ∧ ∀ r ∈ done, isBelow w.offset r.key = false → Spent w r
  /-- The offset has not fallen below the seed. -/
  seed_le : ∀ key, isBelow seed key = true → isBelow w.offset key = true
  /-- No run in `todo` has been taken. -/
  fresh : ∀ r ∈ todo, ∀ id, classify w.route.root w.route.bands w.route.now r = .candidate id →
    id ∉ w.emitted

/-- The objects of `todo` at and behind the offset. -/
def fromOffset (w : Walker) (todo : List ObjectRecord) : List ObjectRecord :=
  todo.filter fun r => !isBelow w.offset r.key

/-- **What a listing still holds** for the walker `w`: `left` has spent objects, and those of `todo` at and behind the
offset. -/
def Holds (w : Walker) (todo left : List ObjectRecord) : Prop :=
  ∃ stale, left = stale ++ fromOffset w todo ∧ ∀ r ∈ stale, Spent w r

/-- A listing from the place `start` on leaves out what lies below it. -/
theorem admits_listing (route : Route) (start : Option String) (key : String) :
    (route.listing start).admits key
      = ((route.listing none).admits key && !isBelow start key) := by
  rw [Bool.eq_iff_iff, Bool.and_eq_true, ListQuery.admits_iff, ListQuery.admits_iff]
  cases start with
  | none => simp [Route.listing]
  | some place =>
    rw [Bool.not_eq_true', isBelow_some_eq_false]
    simp [Route.listing]

/-- The listing from the place `start` on, out of the listing from an earlier place on. -/
theorem listing_of_seed_le {route : Route} {start : Option String}
    (h : ∀ key, isBelow seed key = true → isBelow start key = true) :
    store.listing (route.listing start)
      = (store.listing (route.listing seed)).filter fun r => !isBelow start r.key := by
  apply Snapshot.listing_eq_filter
  intro r
  rw [admits_listing route start, admits_listing route seed, Bool.and_assoc]
  congr 1
  cases hs : isBelow seed r.key with
  | false => rw [Bool.not_false, Bool.true_and]
  | true => rw [h _ hs]; rfl

/-- **A new listing from a `place` ahead** holds spent objects and what the walker has not come to. -/
theorem Reached.relist {todo : List ObjectRecord} {place : String} (h : Reached store seed w todo)
    (ha : isAhead w.offset place = true) :
    Reached store seed (w.relist (some place)) todo
      ∧ Holds (w.relist (some place)) todo (store.listing (w.route.listing (some place))) := by
  obtain ⟨done, hdone, hspent⟩ := h.behind
  have hraise : raise w.offset place = some place := raise_of_isAhead ha
  -- the place only rises, so what lies below the old one lies below the new one
  have hup : ∀ key, isBelow w.offset key = true → isBelow (some place) key = true := by
    intro key hkey
    rw [← hraise, isBelow_raise]
    exact Or.inl hkey
  have hspent' : ∀ r ∈ done, isBelow (some place) r.key = false →
      Spent (w.relist (some place)) r := by
    intro r hr hb
    have hold : isBelow w.offset r.key = false := by
      rw [Bool.eq_false_iff]
      intro hb'
      rw [hup _ hb'] at hb
      exact absurd hb (by simp)
    refine (hspent r hr hold).mono rfl (fun p hp => ?_) fun _ hid => hid
    show isAhead (some place) p = false
    rw [← hraise]
    exact isAhead_raise_of_not_isAhead hp
  have hseed : ∀ key, isBelow seed key = true → isBelow (some place) key = true :=
    fun key hkey => hup key (h.seed_le key hkey)
  -- the new listing starts with those objects of `done` that are not below `place`, and all of them are spent
  refine ⟨⟨⟨done, hdone, hspent'⟩, hseed, h.fresh⟩,
    done.filter (fun r => !isBelow (some place) r.key), ?_, ?_⟩
  · rw [listing_of_seed_le hseed, hdone, List.filter_append]
    rfl
  · intro r hr
    rw [List.mem_filter, Bool.not_eq_true'] at hr
    exact hspent' r hr.1 hr.2

/-- The first object `r` at or behind the offset, with `skipped` objects below the offset before it. -/
theorem exists_of_fromOffset_eq_cons {todo rest : List ObjectRecord} {r : ObjectRecord}
    (h : fromOffset w todo = r :: rest) :
    ∃ skipped todo', todo = skipped ++ r :: todo' ∧ (∀ x ∈ skipped, isBelow w.offset x.key = true)
      ∧ isBelow w.offset r.key = false ∧ fromOffset w todo' = rest := by
  rw [fromOffset, List.filter_eq_cons_iff] at h
  obtain ⟨skipped, todo', htodo, hskipped, hr, hrest⟩ := h
  refine ⟨skipped, todo', htodo, ?_, by simpa using hr, hrest⟩
  intro x hx
  simpa using hskipped x hx

/-- A walker comes past objects that lie below its offset or are spent. -/
theorem Reached.pass_by {skipped todo : List ObjectRecord}
    (h : Reached store seed w (skipped ++ todo))
    (hs : ∀ r ∈ skipped, isBelow w.offset r.key = false → Spent w r) :
    Reached store seed w todo := by
  obtain ⟨done, hdone, hspent⟩ := h.behind
  refine ⟨⟨done ++ skipped, by rw [hdone, List.append_assoc], ?_⟩, h.seed_le,
    fun r hr => h.fresh r (List.mem_append_right skipped hr)⟩
  intro r hr hb
  rcases List.mem_append.1 hr with hr | hr
  · exact hspent r hr hb
  · exact hs r hr hb

/-- A walker comes past a spent object `r`. -/
theorem Reached.pass_one {r : ObjectRecord} {todo : List ObjectRecord}
    (h : Reached store seed w (r :: todo)) (hs : Spent w r) : Reached store seed w todo := by
  have h' : Reached store seed w ([r] ++ todo) := h
  refine h'.pass_by fun x hx _ => ?_
  rw [List.mem_singleton.1 hx]
  exact hs

/-- A listing that holds a spent object `r` holds it as a spent one. -/
theorem Holds.pass_by {r : ObjectRecord} {todo left : List ObjectRecord}
    (h : Holds w (r :: todo) left) (hr : Spent w r) : Holds w todo left := by
  obtain ⟨stale, hleft, hspent⟩ := h
  by_cases hb : isBelow w.offset r.key = true
  · refine ⟨stale, ?_, hspent⟩
    rw [hleft, fromOffset, List.filter_cons_of_neg (by simp [hb])]
    rfl
  · refine ⟨stale ++ [r], ?_, ?_⟩
    · rw [hleft, fromOffset, List.filter_cons_of_pos (by simp [hb]), List.append_assoc]
      rfl
    · intro x hx
      rcases List.mem_append.1 hx with hx | hx
      · exact hspent x hx
      · rw [List.mem_singleton.1 hx]
        exact hr

section Taking

variable {r : ObjectRecord} {todo left : List ObjectRecord} {id next : String}

/-- Spent objects stay spent when an id is taken. -/
theorem Spent.taking {r : ObjectRecord} (h : Spent w r) (id : String) : Spent (taking w id) r :=
  h.mono rfl (fun _ hp => hp) fun _ hid => List.mem_cons_of_mem id hid

/-- **A walker that takes the run of the object `r`** has come past the object. No object behind it leads to the same
run, for that would be an object of the same key. -/
theorem Reached.take (h : Reached store seed w (r :: todo))
    (hc : classify w.route.root w.route.bands w.route.now r = .candidate id)
    (hn : RunId.next id = .ok next) (ha : isAhead w.offset (w.route.offset next) = false) :
    Reached store seed (taking w id) todo := by
  obtain ⟨done, hdone, hspent⟩ := h.behind
  have hasc : (r :: todo).Pairwise fun a b => a.key < b.key := by
    have hall := store.ascending_listing (w.route.listing seed)
    rw [hdone] at hall
    exact (List.pairwise_append.1 hall).2.1
  refine ⟨⟨done ++ [r], ?_, ?_⟩, h.seed_le, ?_⟩
  · show store.listing (w.route.listing seed) = _
    rw [hdone, List.append_assoc]
    rfl
  · intro x hx hb
    rcases List.mem_append.1 hx with hx | hx
    · exact (hspent x hx hb).taking id
    · rw [List.mem_singleton.1 hx]
      exact Spent.of_candidate hc List.mem_cons_self hn ha
  · intro x hx id' hc' hmem
    rcases List.mem_cons.1 hmem with rfl | hmem
    · -- the keys ascend, so no other object has the key of the descriptor
      have hkey : r.key = x.key := eq_of_splitKey? (splitKey?_of_candidate hc)
        (splitKey?_of_candidate hc')
      exact absurd hkey (ne_of_lt (List.rel_of_pairwise_cons hasc hx))
    · exact h.fresh x (List.mem_cons_of_mem r hx) id' hc' hmem

/-- What a listing still holds for a walker that takes the run of the object `r`. -/
theorem Holds.take (h : Holds w (r :: todo) left)
    (hc : classify w.route.root w.route.bands w.route.now r = .candidate id)
    (hn : RunId.next id = .ok next) (ha : isAhead w.offset (w.route.offset next) = false) :
    Holds (taking w id) todo left := by
  have h' : Holds (taking w id) (r :: todo) left := by
    obtain ⟨stale, hleft, hspent⟩ := h
    exact ⟨stale, hleft, fun x hx => (hspent x hx).taking id⟩
  exact h'.pass_by (Spent.of_candidate hc List.mem_cons_self hn ha)

end Taking

/-! ## What a walker will find -/

/-- **A walker that will find the ids of `out`** and end as `out` says, when `left` is what its listing holds behind the
pages that have been fetched. The number `n` falls whenever the walker comes past an object. -/
inductive Standing (store : Snapshot) (seed : Option String) (w : Walker)
    (left : List ObjectRecord) :
    List String × Option Failure → Nat → Prop where
  /-- It waits for a page. -/
  | listing {c : Cursor} {todo : List ObjectRecord} (stage : w.stage = .listing c)
      (buffer : c.buffer = []) (query : c.query = w.route.listing w.offset)
      (reached : Reached store seed w todo) (holds : Holds w todo (store.ahead c left)) :
      Standing store seed w left (pass w.route w.offset todo) (2 * todo.length + 1)
  /-- It waits for somebody to take the id of the object that it has come to. -/
  | offering {c : Cursor} {r : ObjectRecord} {todo : List ObjectRecord} {id next : String}
      (stage : w.stage = .offering id c) (query : c.query = w.route.listing w.offset)
      (exhausted : c.exhausted = c.token.isNone) (last : c.token = none → left = [])
      (reached : Reached store seed w (r :: todo))
      (candidate : classify w.route.root w.route.bands w.route.now r = .candidate id)
      (next_eq : RunId.next id = .ok next) (holds : fromOffset w todo = c.buffer ++ left) :
      Standing store seed w left
        (id :: (pass w.route (raise w.offset (w.route.offset next)) todo).1,
          (pass w.route (raise w.offset (w.route.offset next)) todo).2)
        (2 * todo.length + 2)
  /-- It has ended. -/
  | ended {failure : Option Failure} (stage : w.stage = .ended failure) :
      Standing store seed w left ([], failure) 0

/-- A walker with nothing at or behind its offset finds nothing. -/
theorem pass_eq_nil_of_fromOffset {todo : List ObjectRecord} (h : fromOffset w todo = []) :
    pass w.route w.offset todo = ([], none) := by
  have hall : ∀ r ∈ todo, isBelow w.offset r.key = true := by
    intro r hr
    simpa using List.filter_eq_nil_iff.1 h r hr
  rw [← List.append_nil todo, pass_append_of_isBelow hall, pass_nil]

/-- **A walker that starts a new listing** past a spent object finds what the pass with the cursor raised to `place`
finds. -/
theorem standing_relist {todo left : List ObjectRecord} {place : String}
    (hreached : Reached store seed (w.relist (some place)) todo)
    (hholds : Holds (w.relist (some place)) todo (store.listing (w.route.listing (some place)))) :
    Standing store seed (w.relist (some place)) left (pass w.route (some place) todo)
      (2 * todo.length + 1) :=
  .listing rfl rfl rfl hreached hholds

/-- Where a walker waits does not matter for how far it has come. -/
theorem Reached.at_stage {todo : List ObjectRecord} (h : Reached store seed w todo)
    (stage : Stage) :
    Reached store seed { w with stage := stage } todo :=
  ⟨h.behind, h.seed_le, h.fresh⟩

/-- **A walker at the object `r` that the pass comes to next** goes on as the pass does, when it does so behind the
object. -/
theorem standing_goThrough_cons {cursor : Cursor} {r : ObjectRecord}
    {objects left todo : List ObjectRecord} (hquery : cursor.query = w.route.listing w.offset)
    (hexhausted : cursor.exhausted = cursor.token.isNone) (hlast : cursor.token = none → left = [])
    (hreached : Reached store seed w (r :: todo)) (hr : isBelow w.offset r.key = false)
    (hrest : fromOffset w todo = objects ++ left)
    (hbehind : Reached store seed w todo → ∃ n ≤ 2 * todo.length + 1,
      Standing store seed (w.goThrough cursor objects) left (pass w.route w.offset todo) n) :
    ∃ n ≤ 2 * todo.length + 2,
      Standing store seed (w.goThrough cursor (r :: objects)) left
        (pass w.route w.offset (r :: todo)) n := by
  -- a walker that passes by the object comes to what is behind it
  have hpast : Spent w r → ∃ n ≤ 2 * todo.length + 2,
      Standing store seed (w.goThrough cursor (r :: objects)) left
        (pass w.route w.offset todo) n := by
    intro hs
    rw [goThrough_cons_of_spent hs]
    obtain ⟨n, hn, hstanding⟩ := hbehind (hreached.pass_one hs)
    exact ⟨n, by omega, hstanding⟩
  have hstale : Holds w (r :: todo) (r :: (objects ++ left)) := by
    refine ⟨[], ?_, by simp⟩
    rw [fromOffset, List.filter_cons_of_pos (by simp [hr]), ← hrest]
    rfl
  cases hc : classify w.route.root w.route.bands w.route.now r with
  | ignore =>
    rw [pass_cons_ignore hc]
    exact hpast (by rw [Spent, hc]; trivial)
  | fastForward id =>
    cases hn : RunId.next id with
    | error f =>
      rw [pass_cons_of_next_error hr (Or.inl hc) hn, Walker.goThrough, hc]
      simp only [hn]
      rw [RunId.eq_invalidRunId_of_next hn]
      exact ⟨0, by omega, .ended rfl⟩
    | ok next =>
      rw [pass_cons_fastForward hr hc hn]
      by_cases ha : isAhead w.offset (w.route.offset next) = true
      · -- the object leads to a new listing, in which it may come back
        rw [raise_of_isAhead ha, Walker.goThrough, hc]
        simp only [hn, ha, if_true]
        have hs : Spent (w.relist (some (w.route.offset next))) r :=
          Spent.of_fastForward hc hn (isAhead_eq_false_iff.2 ⟨_, rfl, le_rfl⟩)
        obtain ⟨hre, hho⟩ := hreached.relist ha
        exact ⟨_, by omega, standing_relist (hre.pass_one hs) (hho.pass_by hs)⟩
      · rw [Bool.not_eq_true] at ha
        rw [raise_of_not_isAhead ha]
        exact hpast (Spent.of_fastForward hc hn ha)
  | candidate id =>
    cases hn : RunId.next id with
    | error f =>
      rw [pass_cons_of_next_error hr (Or.inr hc) hn, Walker.goThrough, hc]
      simp only [hn]
      rw [RunId.eq_invalidRunId_of_next hn]
      exact ⟨0, by omega, .ended rfl⟩
    | ok next =>
      rw [pass_cons_candidate hr hc hn, Walker.goThrough, hc]
      have hfresh : id ∉ w.emitted := hreached.fresh r List.mem_cons_self id hc
      simp only [hn, hfresh, not_false_eq_true, if_true]
      exact ⟨_, le_rfl, .offering rfl hquery hexhausted hlast (hreached.at_stage _) hc hn hrest⟩

/-- **The walker goes on as the pass does.** Every one of the `objects` that it comes to is spent, or the first one that
the pass has at or behind its cursor. -/
theorem standing_goThrough {cursor : Cursor} {objects left todo : List ObjectRecord}
    (hquery : cursor.query = w.route.listing w.offset)
    (hexhausted : cursor.exhausted = cursor.token.isNone) (hlast : cursor.token = none → left = [])
    (hreached : Reached store seed w todo) (hholds : Holds w todo (objects ++ left)) :
    ∃ n ≤ 2 * todo.length + 1,
      Standing store seed (w.goThrough cursor objects) left (pass w.route w.offset todo) n
        ∧ (n = 2 * todo.length + 1 → ∃ c, (w.goThrough cursor objects).stage = .listing c
          ∧ c.token ≠ none) := by
  induction objects generalizing todo with
  | nil =>
    obtain ⟨stale, hleft, hspent⟩ := hholds
    rw [List.nil_append] at hleft
    rw [Walker.goThrough, hexhausted]
    by_cases htoken : cursor.token = none
    · -- the listing has come to its end, so nothing is left for the pass
      rw [hlast htoken] at hleft
      have hnil : fromOffset w todo = [] := (List.append_eq_nil_iff.1 hleft.symm).2
      rw [pass_eq_nil_of_fromOffset hnil, htoken, if_pos Option.isNone_none]
      exact ⟨0, by omega, .ended rfl, by omega⟩
    · rw [if_neg (by simpa using htoken)]
      refine ⟨_, le_rfl, .listing rfl rfl hquery (hreached.at_stage _) ⟨stale, ?_, hspent⟩,
        fun _ => ⟨_, rfl, htoken⟩⟩
      exact (Snapshot.ahead_of_ne_none (by exact htoken)).trans hleft
  | cons r objects ih =>
    obtain ⟨stale, hleft, hspent⟩ := hholds
    cases stale with
    | cons x stale =>
      -- the object has come back with the listing, and the walker passes by it
      obtain ⟨rfl, hrest⟩ := List.cons.inj hleft
      rw [goThrough_cons_of_spent (hspent r List.mem_cons_self)]
      exact ih hreached ⟨stale, hrest, fun y hy => hspent y (List.mem_cons_of_mem r hy)⟩
    | nil =>
      -- the object is the first one that the pass does not skip
      obtain ⟨skipped, todo', rfl, hskipped, hr, hrest⟩ := exists_of_fromOffset_eq_cons hleft.symm
      have hreached' : Reached store seed w (r :: todo') := by
        refine hreached.pass_by fun x hx hb => ?_
        rw [hskipped x hx] at hb
        exact absurd hb (by simp)
      obtain ⟨n, hn, hstanding⟩ := standing_goThrough_cons hquery hexhausted hlast hreached'
        hr hrest fun hre => by
          obtain ⟨n, hn, hstanding, -⟩ := ih hre ⟨[], hrest.symm, by simp⟩
          exact ⟨n, hn, hstanding⟩
      rw [pass_append_of_isBelow hskipped, List.length_append, List.length_cons]
      exact ⟨n, by omega, hstanding, by omega⟩

/-! ## The steps of a walker -/

/-- **A page keeps what the walker will find.** The number `n` falls, unless the walker waits for the next page of the
same listing. -/
theorem standing_receive {left rest : List ObjectRecord} {out : List String × Option Failure}
    {n : Nat} {c : Cursor} {page : ObjectPage} (h : Standing store seed w left out n)
    (hs : w.stage = .listing c) (hpage : store.ahead c left = page.records ++ rest)
    (hlast : page.next = none → rest = []) :
    ∃ m ≤ n, Standing store seed (w.receive (.ok page)) rest out m
      ∧ (m = n → ∃ c', (w.receive (.ok page)).stage = .listing c' ∧ c'.token ≠ none) := by
  cases h with
  | @listing c' todo stage buffer query reached holds =>
    obtain rfl : c' = c := Stage.listing.inj (stage.symm.trans hs)
    rw [hpage] at holds
    rw [receive_of_listing stage, buffer, List.nil_append]
    exact standing_goThrough query rfl hlast reached holds
  | offering stage => exact absurd (stage.symm.trans hs) (by simp)
  | ended stage => exact absurd (stage.symm.trans hs) (by simp)

/-- The `id` that a walker has come to has a next one. -/
theorem exists_next_of_standing {left : List ObjectRecord} {out : List String × Option Failure}
    {n : Nat} {id : String} {c : Cursor} (h : Standing store seed w left out n)
    (hs : w.stage = .offering id c) :
    ∃ next, RunId.next id = .ok next := by
  cases h with
  | listing stage => exact absurd (stage.symm.trans hs) (by simp)
  | offering stage query exhausted last reached candidate next_eq holds =>
    obtain ⟨rfl, rfl⟩ := Stage.offering.inj (stage.symm.trans hs)
    exact ⟨_, next_eq⟩
  | ended stage => exact absurd (stage.symm.trans hs) (by simp)

/-- **Taking `id` keeps what the walker will find** behind it: `out` without its first id. The number `n` falls. -/
theorem standing_accepted {left : List ObjectRecord} {out : List String × Option Failure} {n : Nat}
    {id : String} {c : Cursor} (h : Standing store seed w left out n)
    (hs : w.stage = .offering id c) :
    ∃ ids m, m < n ∧ out.1 = id :: ids ∧ Standing store seed w.accepted left (ids, out.2) m := by
  cases h with
  | listing stage => exact absurd (stage.symm.trans hs) (by simp)
  | @offering c' r todo id' next stage query exhausted last reached candidate next_eq holds =>
    obtain ⟨rfl, rfl⟩ := Stage.offering.inj (stage.symm.trans hs)
    rw [accepted_of_offering stage next_eq]
    by_cases ha : isAhead w.offset (w.route.offset next) = true
    · -- the next place lies ahead, so a new listing starts there
      rw [if_pos ha, raise_of_isAhead ha]
      obtain ⟨hre, hho⟩ := reached.relist ha
      have hself :
          isAhead (w.relist (some (w.route.offset next))).offset (w.route.offset next) = false :=
        isAhead_eq_false_iff.2 ⟨_, rfl, le_rfl⟩
      exact ⟨_, _, by omega, rfl, standing_relist (w := taking w id')
        (hre.take candidate next_eq hself) (hho.take candidate next_eq hself)⟩
    · -- the next place is not ahead, as that of `10` behind `9`, and the walker goes on
      rw [if_neg ha]
      rw [Bool.not_eq_true] at ha
      rw [raise_of_not_isAhead ha]
      obtain ⟨m, hm, hstanding, -⟩ := standing_goThrough (w := taking w id') query exhausted last
        (reached.take candidate next_eq ha) ⟨[], holds.symm, by simp⟩
      exact ⟨_, m, by omega, rfl, hstanding⟩
  | ended stage => exact absurd (stage.symm.trans hs) (by simp)

/-- **A walker before its first listing** will find what the pass finds from the `seed` on. -/
theorem standing_start (store : Snapshot) (route : Route) (seed : Option String)
    (left : List ObjectRecord) :
    Standing store (seed.map route.offset) (.start route seed) left
      (pass route (seed.map route.offset) (store.listing (route.listing (seed.map route.offset))))
      (2 * (store.listing (route.listing (seed.map route.offset))).length + 1) := by
  refine .listing (c := .start (route.listing (seed.map route.offset))) rfl rfl rfl
    ⟨⟨[], rfl, by simp⟩, fun _ h => h, ?_⟩ ⟨[], ?_, by simp⟩
  · intro r _ id _ hid
    exact absurd hid List.not_mem_nil
  · show store.listing (route.listing (seed.map route.offset)) = fromOffset _ _
    rw [fromOffset, eq_comm, List.filter_eq_self]
    intro r hr
    rw [Snapshot.mem_listing, admits_listing, Bool.and_eq_true] at hr
    exact hr.2.2

end PayloadGate.Walk
