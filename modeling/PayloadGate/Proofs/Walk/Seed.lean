import PayloadGate.Proofs.Store.Behind
import PayloadGate.Proofs.Walk.Found

/-! # Starting at a seed

A walk can start at the run that the catalog names instead of at the beginning of the job. When all runs before the seed
are too old, it misses nothing: the walk from the beginning comes past them one by one, and the cursor with which it
reaches the others skips none of them.

* **`pass_congr`** — only the objects that say something matter for the cursor of a pass.
* **`pass_append_of_past`** — objects that lead only past runs do not count for the objects behind all their places.
* **`key_lt_offset_iff_of_length`** — objects lie before a seed of the length of their ids as the ids do.
* **`SeedOf`**, **`OldBefore`** — a seed as long as all ids, before which all is too old.
* **`passFrom_seed`**, **`run?_start_seed`** — the walk from such a seed is the walk from the beginning. -/

namespace PayloadGate.Walk

variable {store : Snapshot} {route : Route} {cursor cursor' : Option String} {records skipped rest : List ObjectRecord}
  {seed id next name : String} {r y : ObjectRecord}

/-! ## Cursors that do not matter -/

/-- **Only the objects that say something matter**: two cursors below which the same of them lie find the same. -/
theorem pass_congr
    (h : ∀ r ∈ records, route.decision r ≠ .ignore → isBelow cursor r.key = isBelow cursor' r.key) :
    pass route cursor records = pass route cursor' records := by
  induction records generalizing cursor cursor' with
  | nil => rfl
  | cons r rest ih =>
    obtain ⟨hr, hrest⟩ := List.forall_mem_cons.1 h
    -- both cursors are raised to the same place
    have hraise : ∀ place, pass route (raise cursor place) rest = pass route (raise cursor' place) rest := by
      refine fun place => ih fun y hy hne => ?_
      rw [Bool.eq_iff_iff, isBelow_raise, isBelow_raise, hrest y hy hne]
    rw [pass_cons, pass_cons, ← Route.decision]
    cases hdecision : route.decision r with
    | ignore => simp only [ite_self, ih hrest]
    | fastForward id => simp only [hr (by simp [hdecision]), ih hrest, hraise]
    | candidate id => simp only [hr (by simp [hdecision]), ih hrest, hraise]

/-- **Objects that lead only past runs do not count** for the objects behind: those of `skipped` make no difference to
`rest`, when `rest` lies at or behind all the places to which they lead. -/
theorem pass_append_of_past
    (hskipped : ∀ y ∈ skipped, ∀ id, (route.decision y).id? = some id → route.decision y = .fastForward id
      ∧ ∃ next, RunId.next id = .ok next
        ∧ ∀ r ∈ rest, route.decision r ≠ .ignore → route.offset next ≤ r.key)
    (hcursor : ∀ r ∈ rest, route.decision r ≠ .ignore → isBelow cursor r.key = false) :
    pass route cursor (skipped ++ rest) = pass route none rest := by
  induction skipped generalizing cursor with
  | nil => exact pass_congr fun r hr hne => (hcursor r hr hne).trans (isBelow_none r.key).symm
  | cons y skipped ih =>
    obtain ⟨hy, hskipped⟩ := List.forall_mem_cons.1 hskipped
    rw [List.cons_append]
    by_cases hbelow : isBelow cursor y.key = true
    · rw [pass_cons_of_isBelow hbelow]
      exact ih hskipped hcursor
    · cases hid : (route.decision y).id? with
      | none =>
        have hignore : route.decision y = .ignore := by
          cases hdecision : route.decision y <;> simp [hdecision, Decision.id?] at hid ⊢
        rw [pass_cons_ignore hignore]
        exact ih hskipped hcursor
      | some id =>
        obtain ⟨hfast, next, hn, hplace⟩ := hy id hid
        rw [pass_cons_fastForward (Bool.eq_false_iff.2 hbelow) hfast hn]
        refine ih hskipped fun r hr hne => ?_
        -- neither the cursor nor the place skips it
        rw [← Bool.not_eq_true, isBelow_raise, not_or, Bool.not_eq_true, not_lt]
        exact ⟨hcursor r hr hne, hplace r hr hne⟩

/-! ## Objects before a seed -/

/-- **Objects lie before a place of the length of their ids** as the ids do: `r.key < route.offset seed ↔ id < seed`. -/
theorem key_lt_offset_iff_of_length (h : splitKey? route.root r.key = some (id, name))
    (hlength : id.length = seed.length) : r.key < route.offset seed ↔ id < seed := by
  rw [String.lt_iff_toList_lt, (splitKey?_eq_some_iff.1 h).1, toList_offset, Text.append_left_lt_iff,
    List.cons_lt_cons_iff, Text.append_lt_iff_of_length (by rwa [String.length_toList, String.length_toList]),
    ← String.lt_iff_toList_lt]
  simp

/-- **A `seed` as long as the ids of all runs** below `root`. -/
def SeedOf (store : Snapshot) (root seed : String) : Prop := ∀ id, HasRun store root id → id.length = seed.length

/-- **All objects of runs before the `seed` are too old.** -/
def OldBefore (store : Snapshot) (route : Route) (seed : String) : Prop :=
  ∀ r ∈ store.records, ∀ id name, splitKey? route.root r.key = some (id, name) → id < seed →
    route.bands.tooOld < route.now.since r.created

/-- With such a `seed` the ids of all runs have one length. -/
theorem SeedOf.oneWidth (h : SeedOf store route.root seed) : OneWidth store route.root :=
  fun i j hi hj => (h i hi).trans (h j hj).symm

/-- An object that is too old leads past its run `id`, if it says anything. -/
theorem decision_eq_of_tooOld (h : route.bands.tooOld < route.now.since r.created)
    (hid : (route.decision r).id? = some id) : route.decision r = .fastForward id := by
  obtain ⟨hmark, hne, name, hkey, -⟩ := id?_eq_some_iff.1 hid
  have hexcludes : route.bands.excludes (route.now.since r.created) = true := by
    rw [AgeBands.excludes, decide_eq_true h, Bool.true_or]
  rw [decision_of_splitKey? hmark hkey hne, hexcludes, if_pos rfl]

/-- **The places to which objects before the `seed` lead** are not behind any object at or behind it. -/
theorem offset_next_le_of_seed (hids : Canonical store route.root) (hseed : SeedOf store route.root seed)
    (hy : y ∈ store.records) (hylt : y.key < route.offset seed) (hid : (route.decision y).id? = some id)
    (hn : RunId.next id = .ok next) (hr : r ∈ store.records) (hrle : route.offset seed ≤ r.key)
    (hne : route.decision r ≠ .ignore) : route.offset next ≤ r.key := by
  obtain ⟨-, j, name, hkey, -⟩ := exists_splitKey?_of_decision_ne_ignore hne
  have hrun : HasRun store route.root j := ⟨r, hr, name, hkey⟩
  by_contra hlt
  rcases eq_or_shadowed_of_lt_offset hids hy hr hkey hid hn (lt_of_lt_of_le hylt hrle) (not_le.1 hlt) with
    ⟨rfl, -⟩ | hshadowed
  · -- the run would lie on both sides of the seed
    obtain ⟨-, -, name', hkey', -⟩ := id?_eq_some_iff.1 hid
    have hbefore := (key_lt_offset_iff_of_length hkey' (hseed id hrun)).1 hylt
    exact absurd ((key_lt_offset_iff_of_length hkey (hseed id hrun)).2 hbefore) (not_lt.2 hrle)
  · exact hseed.oneWidth.not_shadowed hrun hshadowed

/-- The listing from the beginning is what lies before the `seed`, and the listing from the `seed`. -/
theorem listing_none_eq (store : Snapshot) (route : Route) (seed : String) :
    store.listing (route.listing none)
      = ((store.listing (route.listing none)).filter fun r => isBelow (some (route.offset seed)) r.key)
        ++ store.listing (route.listing (some (route.offset seed))) := by
  have hfrom : store.listing (route.listing (some (route.offset seed)))
      = (store.listing (route.listing none)).filter fun r => !isBelow (some (route.offset seed)) r.key :=
    listing_of_seed_le fun key hkey => absurd hkey (by simp)
  rw [hfrom]
  have hsplit := filter_not_append_filter (p := fun r : ObjectRecord => !isBelow (some (route.offset seed)) r.key)
    ((store.ascending_listing (route.listing none)).imp fun {a b} hab ha => ?_)
  · simpa only [Bool.not_not] using hsplit.symm
  · rw [Bool.not_eq_true', isBelow_some_eq_false] at ha ⊢
    exact le_of_lt (lt_of_le_of_lt ha hab)

/-- **The walk from the `seed` has to find what the walk from the beginning has to find.** -/
theorem passFrom_seed (hids : Canonical store route.root) (hseed : SeedOf store route.root seed)
    (hold : OldBefore store route seed) : passFrom store route (some seed) = passFrom store route none := by
  have hbehind : ∀ r ∈ store.listing (route.listing (some (route.offset seed))),
      r ∈ store.records ∧ route.offset seed ≤ r.key := by
    intro r hr
    obtain ⟨hmem, -, hpast⟩ : r ∈ store.records ∧ _ ∧ PastSeed route (some seed) r := mem_listing_iff.1 hr
    exact ⟨hmem, hpast _ rfl⟩
  rw [passFrom, passFrom, Option.map_none, Option.map_some, listing_none_eq store route seed]
  -- before the seed all runs are too old, and skipping them passes over nothing behind the seed
  rw [pass_append_of_past (fun y hy id hid => ?_) fun r _ _ => isBelow_none r.key]
  · exact pass_congr fun r hr _ => (isBelow_some_eq_false.2 (hbehind r hr).2).trans (isBelow_none r.key).symm
  · obtain ⟨hlisted, hlt⟩ := List.mem_filter.1 hy
    have hmem := (Snapshot.mem_listing.1 hlisted).1
    rw [isBelow_some] at hlt
    obtain ⟨-, -, name, hkey, -⟩ := id?_eq_some_iff.1 hid
    have hrun := hasRun_of_id? hmem hid
    obtain ⟨n, -, hn⟩ := hids.exists_number hrun
    refine ⟨decision_eq_of_tooOld (hold y hmem id name hkey ?_) hid, _, hn, fun r hr hne => ?_⟩
    · exact (key_lt_offset_iff_of_length hkey (hseed id hrun)).1 hlt
    · exact offset_next_le_of_seed hids hseed hmem hlt hid hn (hbehind r hr).1 (hbehind r hr).2 hne

/-! ## Whole walks -/

/-- **The walk from the `seed` is the walk from the beginning**, when all run directories are named by numbers of the
length of the `seed` as they are written, and all objects of runs before it are too old. Both come to their end; they
have taken the same ids, in the same order, and end in the same way, whatever pages the stores cut. -/
theorem run?_start_seed {σ τ : Type} (store : Snapshot) (route : Route) (seed : String)
    (ask : ListQuery → Option String → σ → Except Failure ObjectPage × σ)
    (ask' : ListQuery → Option String → τ → Except Failure ObjectPage × τ)
    (hserve : ∀ start, store.Serves ask (route.listing start))
    (hserve' : ∀ start, store.Serves ask' (route.listing start)) (hids : Canonical store route.root)
    (hseed : SeedOf store route.root seed) (hold : OldBefore store route seed) (s : σ) (t : τ) :
    ∃ enough, ∀ steps, enough ≤ steps → ∃ w s' w' t',
      (Walker.start route (some seed)).run? ask steps s = some (w, s')
      ∧ (Walker.start route none).run? ask' steps t = some (w', t')
      ∧ w.emitted = w'.emitted ∧ w.stage = w'.stage ∧ w.hasEnded = true := by
  obtain ⟨enough, henough⟩ := ends_start route (some seed) hserve s
  obtain ⟨enough', henough'⟩ := ends_start route none hserve' t
  refine ⟨max enough enough', fun steps hsteps => ?_⟩
  -- both walks do what their pass does, and the passes are the same
  obtain ⟨w, s', hrun, hemitted, hended⟩ := henough steps (le_trans (le_max_left _ _) hsteps)
  obtain ⟨w', t', hrun', hemitted', hended'⟩ := henough' steps (le_trans (le_max_right _ _) hsteps)
  rw [passFrom_seed hids hseed hold] at hemitted hended
  refine ⟨w, s', w', t', hrun, hrun', List.reverse_injective ?_, hended.trans hended'.symm, ?_⟩
  · exact hemitted.trans hemitted'.symm
  · rw [Walker.hasEnded, hended]

/-- Three runs, of which the first one is too old. Something else lies in the directory of the job. -/
def seededStore : Snapshot where
  records := [⟨"job/7/prowjob.json", ⟨0, 0⟩⟩, ⟨"job/8/prowjob.json", ⟨80, 0⟩⟩, ⟨"job/9/build-log.txt", ⟨0, 0⟩⟩,
    ⟨"job/9/prowjob.json", ⟨80, 0⟩⟩, ⟨"job/latest-build.txt", ⟨80, 0⟩⟩]
  ascending := by decide
  content key := .error (.notFound key)

/-- Their ids. -/
theorem mem_of_hasRun_seededStore (h : HasRun seededStore "job" id) : id ∈ ["7", "8", "9"] := by
  obtain ⟨r, hr, name, hkey⟩ := h
  have hall : ∀ r ∈ seededStore.records, ∀ p ∈ splitKey? "job" r.key, p.1 ∈ ["7", "8", "9"] := by decide +kernel
  exact hall r hr _ hkey

/-- The walk from the second run is the walk from the beginning. -/
theorem run?_start_seed_second :
    Canonical seededStore nineRoute.root ∧ SeedOf seededStore nineRoute.root "8" ∧ OldBefore seededStore nineRoute "8"
      ∧ ∃ enough, ∀ steps, enough ≤ steps → ∃ w s' w' t',
        (Walker.start nineRoute (some "8")).run? seededStore.onePage steps () = some (w, s')
        ∧ (Walker.start nineRoute none).run? seededStore.onePage steps () = some (w', t')
        ∧ w.emitted = w'.emitted ∧ w.stage = w'.stage ∧ w.hasEnded = true := by
  have hids : Canonical seededStore nineRoute.root := by
    intro id hid
    have hnumber : ∀ id ∈ ["7", "8", "9"], ∃ n ∈ [7, 8, 9], id = Decimal.text n := by decide +kernel
    obtain ⟨n, hn, rfl⟩ := hnumber id (mem_of_hasRun_seededStore hid)
    exact ⟨n, (by decide : ∀ n ∈ [7, 8, 9], n + 1 < Decimal.limit64) n hn, rfl⟩
  have hseed : SeedOf seededStore nineRoute.root "8" := fun id hid =>
    (by decide +kernel : ∀ id ∈ ["7", "8", "9"], id.length = "8".length) id (mem_of_hasRun_seededStore hid)
  have hold : OldBefore seededStore nineRoute "8" := by
    have hall : ∀ r ∈ seededStore.records, ∀ p ∈ splitKey? nineRoute.root r.key, p.1 < "8" →
        nineRoute.bands.tooOld < nineRoute.now.since r.created := by decide +kernel
    exact fun r hr id name hkey => hall r hr _ hkey
  exact ⟨hids, hseed, hold, run?_start_seed seededStore nineRoute "8" seededStore.onePage seededStore.onePage
    (fun _ => seededStore.serves_onePage _) (fun _ => seededStore.serves_onePage _) hids hseed hold () ()⟩

end PayloadGate.Walk
