import PayloadGate.Proofs.Walk.Canonical
import PayloadGate.Proofs.Walk.Run

/-! # What a walk finds

A walk over a store whose run directories are named by numbers as they are written finds the runs
whose descriptors are neither too old nor too young, but for two reasons to miss one.

* **`walkHeeded`**, **`mem_walkHeeded_iff`** — the objects that a walk heeds.
* **`mem_passFrom_iff`** — the runs that it finds.
* **`preceded_or_shadowed_of_not_found`** — the two reasons are all that there are.
* **`not_found_of_preceded`** — the first one is enough, unless the id has nines only.
* **`run?_start_of_canonical`** — what a whole walk finds. -/

namespace PayloadGate.Walk

variable {store : Snapshot} {route : Route} {seed : Option String} {id next : String}
  {r y : ObjectRecord}

/-! ## What a walk heeds -/

/-- The objects that a walk goes through are those of the job at and behind the `seed`. -/
theorem mem_listing_iff :
    r ∈ store.listing (route.listing (seed.map route.offset))
      ↔ r ∈ store.records ∧ (route.root ++ "/").toList <+: r.key.toList
        ∧ PastSeed route seed r := by
  rw [Snapshot.mem_listing, ListQuery.admits_iff]
  simp [Route.listing, PastSeed]

/-- An object at or behind the `seed` does not lie below it. -/
theorem PastSeed.isBelow (h : PastSeed route seed r) :
    isBelow (seed.map route.offset) r.key = false := by
  cases seed with
  | none => rfl
  | some start => exact isBelow_some_eq_false.2 (h _ rfl)

/-- The run `id` that an object of the store leads to or past exists. -/
theorem hasRun_of_id? (hr : r ∈ store.records) (h : (route.decision r).id? = some id) :
    HasRun store route.root id := by
  obtain ⟨-, -, name, hkey, -⟩ := id?_eq_some_iff.1 h
  exact ⟨r, hr, name, hkey⟩

/-- The objects of a canonical store are passable: each id that they lead to has a next one. -/
theorem Canonical.passable (h : Canonical store route.root) (q : ListQuery) :
    Passable route (store.listing q) := by
  intro r hr id hid
  obtain ⟨n, -, hn⟩ := h.exists_number (hasRun_of_id? (Snapshot.mem_listing.1 hr).1 hid)
  exact ⟨_, hn⟩

/-- The objects of the `store` that a walk from the `seed` heeds. -/
def walkHeeded (store : Snapshot) (route : Route) (seed : Option String) : List ObjectRecord :=
  heeded route (seed.map route.offset) (store.listing (route.listing (seed.map route.offset)))

/-- **An object is heeded** when it leads to a run or past it, is at or behind the `seed`, and no object before it that
is heeded leads past it. -/
theorem mem_walkHeeded_iff (h : Canonical store route.root) :
    r ∈ walkHeeded store route seed
      ↔ r ∈ store.records ∧ (∃ id, (route.decision r).id? = some id) ∧ PastSeed route seed r
        ∧ ∀ y ∈ walkHeeded store route seed, y.key < r.key →
          ∀ id next, (route.decision y).id? = some id → RunId.next id = .ok next →
            route.offset next ≤ r.key := by
  rw [walkHeeded, mem_heeded_iff (store.ascending_listing _) (h.passable _), mem_listing_iff]
  constructor
  · rintro ⟨⟨hmem, -, hseed⟩, hleads, -, hall⟩
    exact ⟨hmem, hleads, hseed, hall⟩
  · rintro ⟨hmem, ⟨id, hid⟩, hseed, hall⟩
    obtain ⟨-, -, name, hkey, -⟩ := id?_eq_some_iff.1 hid
    exact ⟨⟨hmem, isPrefix_of_splitKey? hkey, hseed⟩, ⟨id, hid⟩, hseed.isBelow, hall⟩

/-- **The run `id` is found** when its descriptor is heeded. -/
theorem mem_passFrom_iff (h : Canonical store route.root) :
    id ∈ (passFrom store route seed).1
      ↔ ∃ r ∈ walkHeeded store route seed, (route.decision r).candidate? = some id := by
  rw [passFrom, pass_eq_heeded (h.passable _), List.mem_filterMap, walkHeeded]

/-- The walk over a canonical store has no failure. -/
theorem passFrom_snd (h : Canonical store route.root) : (passFrom store route seed).2 = none := by
  rw [passFrom, pass_eq_heeded (h.passable _)]

/-! ## Reasons to miss a run -/

/-- The id of a run that exists is not empty. -/
theorem Canonical.ne_empty {root : String} (h : Canonical store root) (hid : HasRun store root id) :
    id ≠ "" := by
  obtain ⟨n, rfl, -⟩ := h.exists_number hid
  exact Decimal.text_ne_empty n

/-- A run that is found is `Wanted`. -/
theorem wanted_of_found (h : Canonical store route.root)
    (hfound : id ∈ (passFrom store route seed).1) :
    Wanted store route seed id := by
  obtain ⟨r, hr, hcandidate⟩ := (mem_passFrom_iff h).1 hfound
  obtain ⟨hmem, -, hseed, -⟩ := (mem_walkHeeded_iff h).1 hr
  obtain ⟨hkey, -, hband⟩ := candidate?_eq_some_iff.1 hcandidate
  exact ⟨r, hmem, hkey, hband, hseed⟩

/-- **The runs are found in the order of their ids**: `(passFrom store route seed).1` is ascending. -/
theorem pairwise_found (h : Canonical store route.root) :
    (passFrom store route seed).1.Pairwise (· < ·) := by
  rw [passFrom, pass_eq_heeded (h.passable _), List.pairwise_filterMap]
  have hasc : (walkHeeded store route seed).Pairwise fun a b => a.key < b.key :=
    (store.ascending_listing _).sublist heeded_sublist
  refine hasc.imp_of_mem fun {a b} ha _ hlt i hi j hj => ?_
  obtain ⟨hkeyi, -, -⟩ := candidate?_eq_some_iff.1 hi
  obtain ⟨hkeyj, -, -⟩ := candidate?_eq_some_iff.1 hj
  have hrun : HasRun store route.root i :=
    ⟨a, ((mem_walkHeeded_iff h).1 ha).1, descriptorName, hkeyi⟩
  refine lt_of_key_lt_key hkeyi hkeyj (h.allDigits hrun) ?_ hlt
  -- a run has one descriptor
  rintro rfl
  exact absurd hlt (by rw [eq_of_splitKey? hkeyi hkeyj]; exact lt_irrefl _)

/-- **An object `y` that leads past a run** is an object of the run, whose id has another digit than nine, or of a run
`j` that shadows it. -/
theorem eq_or_shadowed_of_lt_offset {j name : String} (h : Canonical store route.root)
    (hy : y ∈ store.records) (hr : r ∈ store.records)
    (hid : splitKey? route.root r.key = some (id, name)) (hj : (route.decision y).id? = some j)
    (hn : RunId.next j = .ok next) (hlt : y.key < r.key) (hnext : r.key < route.offset next) :
    (j = id ∧ ¬ AllNines id) ∨ Shadowed store route.root id := by
  have hrunj := hasRun_of_id? hy hj
  have hrun : HasRun store route.root id := ⟨r, hr, name, hid⟩
  -- the order of the keys is that of the ids
  have hhigh : id < next := (key_lt_offset_iff hid (RunId.allDigits_next hn)).1 hnext
  by_cases hne : j = id
  · subst hne
    exact Or.inl ⟨rfl, (RunId.lt_next_iff (h.ne_empty hrunj) hn).1 hhigh⟩
  · obtain ⟨-, -, name', hkey, -⟩ := id?_eq_some_iff.1 hj
    exact Or.inr (shadowed_of_lt_of_lt h hrunj hrun hn
      (lt_of_key_lt_key hkey hid (h.allDigits hrunj) hne hlt) hhigh)

/-- **A run that should be found and is not** is `Preceded` by an object of its own with an age beyond the limits, or it
is `Shadowed` by another run. -/
theorem preceded_or_shadowed_of_not_found (h : Canonical store route.root)
    (hwanted : Wanted store route seed id) (hmissed : id ∉ (passFrom store route seed).1) :
    (Preceded store route seed id ∧ ¬ AllNines id) ∨ Shadowed store route.root id := by
  obtain ⟨r, hr, hkey, hband, hseed⟩ := hwanted
  have hne := h.ne_empty ⟨r, hr, descriptorName, hkey⟩
  have hleads : (route.decision r).id? = some id :=
    id?_eq_some_iff.2 ⟨endsWith_latestMarker_of_descriptor hkey, hne, descriptorName, hkey,
      fun _ => rfl⟩
  have hnot : r ∉ walkHeeded store route seed := fun hheeded =>
    hmissed ((mem_passFrom_iff h).2 ⟨r, hheeded, candidate?_eq_some_iff.2 ⟨hkey, hne, hband⟩⟩)
  rw [mem_walkHeeded_iff h] at hnot
  -- an object that is heeded before the descriptor leads past it
  obtain ⟨y, hy, hlt, j, next, hj, hn, hnext⟩ : ∃ y ∈ walkHeeded store route seed, y.key < r.key ∧
      ∃ j next, (route.decision y).id? = some j ∧ RunId.next j = .ok next
        ∧ r.key < route.offset next := by
    by_contra hnone
    refine hnot ⟨hr, ⟨id, hleads⟩, hseed, fun y hy hlt j next hj hn => ?_⟩
    by_contra hnext
    exact hnone ⟨y, hy, hlt, j, next, hj, hn, not_le.1 hnext⟩
  obtain ⟨hmemy, -, hseedy, -⟩ := (mem_walkHeeded_iff h).1 hy
  rcases eq_or_shadowed_of_lt_offset h hmemy hr hkey hj hn hlt hnext with ⟨rfl, hnines⟩ | hshadowed
  · obtain ⟨hmark, -, name, hkeyy, hname⟩ := id?_eq_some_iff.1 hj
    refine Or.inl ⟨⟨y, hmemy, name, hkeyy, ?_, hmark, fun hin => ?_, hseedy⟩, hnines⟩
    · rwa [← key_eq_of_descriptor hkey]
    · -- within the limits it would be the descriptor itself
      rw [hname hin] at hkeyy
      exact absurd hlt (by rw [eq_of_splitKey? hkeyy hkey]; exact lt_irrefl _)
  · exact Or.inr hshadowed

/-- Among names of one length no run is shadowed. -/
theorem OneWidth.not_shadowed {root : String} (h : OneWidth store root)
    (hid : HasRun store root id) :
    ¬ Shadowed store root id := by
  rintro ⟨j, next, hj, -, hlen, -⟩
  exact hlen (h j id hj hid)

/-- **A run behind an object of its own with an age beyond the limits is missed**, unless its `id` has nines only: then
the place of the next id comes before the descriptor. -/
theorem not_found_of_preceded (h : Canonical store route.root) (hwidth : OneWidth store route.root)
    (hpreceded : Preceded store route seed id) (hnines : ¬ AllNines id) :
    id ∉ (passFrom store route seed).1 := by
  intro hfound
  obtain ⟨r, hr, hcandidate⟩ := (mem_passFrom_iff h).1 hfound
  obtain ⟨hmem, -, -, hall⟩ := (mem_walkHeeded_iff h).1 hr
  obtain ⟨hkey, hne, hband⟩ := candidate?_eq_some_iff.1 hcandidate
  have hrun : HasRun store route.root id := ⟨r, hmem, descriptorName, hkey⟩
  -- no object of the run that comes before the descriptor is heeded
  have hnone : ∀ z ∈ walkHeeded store route seed, z.key < r.key →
      (route.decision z).id? ≠ some id := by
    intro z hz hlt hid
    obtain ⟨n, -, hn⟩ := h.exists_number hrun
    have hnext := (RunId.lt_next_iff hne hn).2 hnines
    rw [← key_lt_offset_iff hkey (RunId.allDigits_next hn)] at hnext
    exact absurd hnext (not_lt.2 (hall z hz hlt id _ hid hn))
  obtain ⟨y, hy, name, hkeyy, hbefore, hmark, hout, hseed⟩ := hpreceded
  rw [← key_eq_of_descriptor hkey] at hbefore
  have hleads : (route.decision y).id? = some id :=
    id?_eq_some_iff.2 ⟨hmark, hne, name, hkeyy, fun hin => absurd hin hout⟩
  by_cases hheeded : y ∈ walkHeeded store route seed
  · -- the object that is too old or too young would lead past the descriptor
    exact hnone y hheeded hbefore hleads
  · -- whatever leads past the object is one of the run itself
    refine hheeded ((mem_walkHeeded_iff h).2 ⟨hy, ⟨id, hleads⟩, hseed,
      fun z hz hlt j next hj hn => ?_⟩)
    by_contra hnext
    have hmemz := ((mem_walkHeeded_iff h).1 hz).1
    rcases eq_or_shadowed_of_lt_offset h hmemz hy hkeyy hj hn hlt (not_le.1 hnext) with
      ⟨rfl, -⟩ | hshadowed
    · exact hnone z hz (lt_trans hlt hbefore) hj
    · exact hwidth.not_shadowed hrun hshadowed

/-- **Among ids of one length the walk finds what it should**: `Wanted` runs, but for those that are `Preceded` and not
`AllNines`. -/
theorem found_iff_of_oneWidth (h : Canonical store route.root)
    (hwidth : OneWidth store route.root) :
    id ∈ (passFrom store route seed).1
      ↔ Wanted store route seed id ∧ (Preceded store route seed id → AllNines id) := by
  constructor
  · intro hfound
    refine ⟨wanted_of_found h hfound, fun hpreceded => ?_⟩
    by_contra hnines
    exact not_found_of_preceded h hwidth hpreceded hnines hfound
  · rintro ⟨hwanted, hpreceded⟩
    by_contra hmissed
    rcases preceded_or_shadowed_of_not_found h hwanted hmissed with ⟨hp, hnines⟩ | hshadowed
    · exact hnines (hpreceded hp)
    · obtain ⟨r, hr, hkey, -⟩ := hwanted
      exact hwidth.not_shadowed ⟨r, hr, descriptorName, hkey⟩ hshadowed

/-- The run with nines only is the one that is found although an object of its own with an age beyond the limits comes
before its descriptor. -/
theorem found_iff_not_preceded_iff (h : Canonical store route.root)
    (hwidth : OneWidth store route.root) :
    (∀ id, id ∈ (passFrom store route seed).1
        ↔ Wanted store route seed id ∧ ¬ Preceded store route seed id)
      ↔ ∀ id, Wanted store route seed id → Preceded store route seed id → ¬ AllNines id := by
  constructor
  · intro hfound id hwanted hpreceded hnines
    exact ((hfound id).1 ((found_iff_of_oneWidth h hwidth).2 ⟨hwanted, fun _ => hnines⟩)).2
      hpreceded
  · intro hnines id
    rw [found_iff_of_oneWidth h hwidth]
    refine and_congr_right fun hwanted => ⟨fun hall hpreceded => ?_,
      fun hnot hpreceded => absurd hpreceded hnot⟩
    exact hnines id hwanted hpreceded (hall hpreceded)

/-! ## Whole walks -/

/-- **What a whole walk finds** when all run directories are named by numbers as they are written:
it ends without a failure and finds runs that it should, in ascending order. A run is missed only
behind an object of its own with an age beyond the limits, or shadowed by a run with an id of
another length. Among ids of one length it finds all others, and of the former the one whose id has
nines only; so it finds exactly the others when there is no such run. -/
theorem run?_start_of_canonical {σ : Type} (store : Snapshot) (route : Route) (seed : Option String)
    (ask : ListQuery → Option String → σ → Except Failure ObjectPage × σ)
    (hserve : ∀ start, store.Serves ask (route.listing start)) (hids : Canonical store route.root)
    (s : σ) :
    ∃ enough, ∀ steps, enough ≤ steps →
      ∃ w s', (Walker.start route seed).run? ask steps s = some (w, s')
      ∧ w.stage = .ended none
      ∧ w.emitted.reverse.Pairwise (· < ·)
      ∧ (∀ id ∈ w.emitted, Wanted store route seed id)
      ∧ (∀ id, Wanted store route seed id → id ∉ w.emitted →
          Preceded store route seed id ∨ Shadowed store route.root id)
      ∧ (OneWidth store route.root →
          (∀ id, id ∈ w.emitted
            ↔ Wanted store route seed id ∧ (Preceded store route seed id → AllNines id))
          ∧ ((∀ id, id ∈ w.emitted ↔ Wanted store route seed id ∧ ¬ Preceded store route seed id)
              ↔ ∀ id, Wanted store route seed id → Preceded store route seed id →
                ¬ AllNines id)) := by
  -- what is said of the walker is said of the pass, whose ids are `w.emitted`
  obtain ⟨enough, henough⟩ := ends_start route seed hserve s
  refine ⟨enough, fun steps hsteps => ?_⟩
  obtain ⟨w, s', hrun, hids', hended⟩ := henough steps hsteps
  have hemitted : ∀ id, id ∈ w.emitted ↔ id ∈ (passFrom store route seed).1 := by
    intro id
    rw [← List.mem_reverse, hids']
    rfl
  refine ⟨w, s', hrun, ?_, ?_, fun id hid => wanted_of_found hids ((hemitted id).1 hid), ?_,
    fun hwidth => ⟨?_, ?_⟩⟩
  · rw [hended, passFrom_snd hids]
  · rw [hids']
    exact pairwise_found hids
  · intro id hwanted hmissed
    rw [hemitted] at hmissed
    exact (preceded_or_shadowed_of_not_found hids hwanted hmissed).imp_left And.left
  · intro id
    rw [hemitted]
    exact found_iff_of_oneWidth hids hwidth
  · simp only [hemitted]
    exact found_iff_not_preceded_iff hids hwidth

/-- A run with nines only, behind an object of its own that is too old. -/
def nineStore : Snapshot where
  records := [⟨"job/9/build-log.txt", ⟨0, 0⟩⟩, ⟨"job/9/prowjob.json", ⟨80, 0⟩⟩]
  ascending := by decide
  content key := .error (.notFound key)

/-- A walk with limits between which the descriptor of the run lies. -/
def nineRoute : Route := ⟨"job", ⟨50000000000, 0⟩, ⟨100, 0⟩⟩

/-- The store holds the run `9` and no other one. -/
theorem eq_of_hasRun_nineStore (h : HasRun nineStore "job" id) : id = "9" := by
  obtain ⟨r, hr, name, hkey⟩ := h
  have hrun : (splitKey? "job" r.key).map Prod.fst = some "9" := by
    rcases List.mem_cons.1 hr with rfl | hr
    · decide +kernel
    · rw [List.mem_singleton.1 hr]
      decide +kernel
  rw [hkey] at hrun
  exact Option.some.inj hrun

/-- The run has a number. -/
theorem canonical_nineStore : Canonical nineStore nineRoute.root := by
  intro id hid
  exact ⟨9, by decide, (eq_of_hasRun_nineStore hid).trans (by decide +kernel)⟩

/-- The walk over the run with nines only. -/
theorem run?_nineStore :
    ∃ enough, ∀ steps, enough ≤ steps →
      ∃ w s', (Walker.start nineRoute none).run? nineStore.onePage steps () = some (w, s')
      ∧ w.stage = .ended none
      ∧ ∀ id, id ∈ w.emitted
        ↔ Wanted nineStore nineRoute none id
          ∧ (Preceded nineStore nineRoute none id → AllNines id) := by
  obtain ⟨enough, henough⟩ := run?_start_of_canonical nineStore nineRoute none nineStore.onePage
    (fun start => nineStore.serves_onePage (nineRoute.listing start)) canonical_nineStore ()
  refine ⟨enough, fun steps hsteps => ?_⟩
  obtain ⟨w, s', hrun, hended, -, -, -, hfound⟩ := henough steps hsteps
  refine ⟨w, s', hrun, hended, (hfound fun i j hi hj => ?_).1⟩
  rw [eq_of_hasRun_nineStore hi, eq_of_hasRun_nineStore hj]

/-- **The walk finds the run with nines only behind an object of its own that is too old.** -/
theorem exists_found_preceded :
    Canonical nineStore nineRoute.root ∧ OneWidth nineStore nineRoute.root
      ∧ ∃ w, (Walker.start nineRoute none).run? nineStore.onePage 4 () = some (w, ())
        ∧ ¬ ∀ id, id ∈ w.emitted
          ↔ Wanted nineStore nineRoute none id ∧ ¬ Preceded nineStore nineRoute none id := by
  have hwidth : OneWidth nineStore nineRoute.root := by
    intro i j hi hj
    rw [eq_of_hasRun_nineStore hi, eq_of_hasRun_nineStore hj]
  have hpreceded : Preceded nineStore nineRoute none "9" := by
    refine ⟨⟨"job/9/build-log.txt", ⟨0, 0⟩⟩, List.mem_cons_self, "build-log.txt",
      by decide +kernel, by decide +kernel, by decide +kernel,
      by unfold Route.InBand; decide +kernel, fun place hplace => ?_⟩
    exact absurd hplace (by simp)
  refine ⟨canonical_nineStore, hwidth, ⟨nineRoute, some "job/10", ["9"], .ended none⟩,
    by decide +kernel, fun hall => ?_⟩
  exact ((hall "9").1 List.mem_cons_self).2 hpreceded

end PayloadGate.Walk
