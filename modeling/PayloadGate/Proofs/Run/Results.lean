import PayloadGate.Analysis
import PayloadGate.Proofs.Store.Snapshot
import Mathlib.Data.List.Forall2

/-! # Results that are read back

The results of a run are those of its files, one after the other, and the runs are loaded in their order. What is judged
depends on what the calls for contents answer, and on nothing else.

* **`combinedResults_congr`**, **`loadAll_congr`** — two ways of reading that answer alike give the same results.
* **`Analysis.exists_turn_of_mem_judgedBy`** — a run `r` that is judged by `answers` has for its `r.forest` the
  `combinedResults` of its `resultKeys`, from the call at which it is its turn.
* **`Snapshot.resultsOf`**, **`Snapshot.judge`** — runs with their results from a store that does not change, whenever
  they are loaded (`Snapshot.judgedRuns_loadAll`).
* **`Snapshot.Usable`**, **`Snapshot.resultsOf_eq_ok_iff`** — a run all of whose result files can be read and parsed;
  its results are those of its files, one after the other. -/

namespace PayloadGate

open Junit (Suite forestOfBytes)

/-! ## Reading file by file -/

section Reading

variable {σ τ : Type} {read : String → σ → Except Failure (List UInt8) × σ}
  {read' : String → τ → Except Failure (List UInt8) × τ} {R : σ → τ → Prop} {s : σ} {t : τ}

/-- The file `key` is read before the others, and those only when it can be used. -/
theorem fst_combinedResults_cons (read : String → σ → Except Failure (List UInt8) × σ) (key : String)
    (keys : List String) (s : σ) :
    (combinedResults read (key :: keys) s).1 = ((read key s).1 >>= forestOfBytes) >>= fun first =>
      (combinedResults read keys (read key s).2).1.map (first ++ ·) := by
  rw [combinedResults]
  rcases read key s with ⟨reply, s'⟩
  dsimp only
  cases reply >>= forestOfBytes <;> rfl

/-- The store has been asked for the file `key`, and for the others only when that can be used. -/
theorem snd_combinedResults_cons (read : String → σ → Except Failure (List UInt8) × σ) (key : String)
    (keys : List String) (s : σ) :
    (combinedResults read (key :: keys) s).2
      = match (read key s).1 >>= forestOfBytes with
        | .error _ => (read key s).2
        | .ok _ => (combinedResults read keys (read key s).2).2 := by
  rw [combinedResults]
  rcases read key s with ⟨reply, s'⟩
  dsimp only
  cases reply >>= forestOfBytes <;> rfl

/-- **Two ways of reading that answer alike** in states related by `R`, and keep them related, give the same results of
the files `keys`. -/
theorem combinedResults_congr
    (h : ∀ key s t, R s t → (read key s).1 = (read' key t).1 ∧ R (read key s).2 (read' key t).2) (keys : List String)
    (hst : R s t) :
    (combinedResults read keys s).1 = (combinedResults read' keys t).1
      ∧ R (combinedResults read keys s).2 (combinedResults read' keys t).2 := by
  induction keys generalizing s t with
  | nil => exact ⟨rfl, hst⟩
  | cons key keys ih =>
    obtain ⟨hreply, hnext⟩ := h key s t hst
    obtain ⟨hrest, hlast⟩ := ih hnext
    rw [fst_combinedResults_cons, fst_combinedResults_cons, snd_combinedResults_cons, snd_combinedResults_cons,
      hreply, hrest]
    refine ⟨rfl, ?_⟩
    -- the files behind one that cannot be used are not asked for
    cases (read' key t).1 >>= forestOfBytes with
    | error f => exact hnext
    | ok forest => exact hlast

/-- **They give the same results of a list of runs**, too, by induction on `runs`. -/
theorem loadAll_congr
    (h : ∀ key s t, R s t → (read key s).1 = (read' key t).1 ∧ R (read key s).2 (read' key t).2) (runs : List JobRun)
    (hst : R s t) :
    (loadAll read runs s).1 = (loadAll read' runs t).1 ∧ R (loadAll read runs s).2 (loadAll read' runs t).2 := by
  induction runs generalizing s t with
  | nil => exact ⟨rfl, hst⟩
  | cons run runs ih =>
    obtain ⟨hrun, hnext⟩ := combinedResults_congr h run.resultKeys hst
    obtain ⟨hrest, hlast⟩ := ih hnext
    rw [loadAll, loadAll]
    exact ⟨congrArg₂ List.cons hrun hrest, hlast⟩

/-- Each run is loaded when it is its `turn`: its `reply` is what its files hold then. -/
theorem exists_of_mem_zip_loadAll {runs : List JobRun} {run : JobRun} {reply : Except Failure (List Suite)}
    (h : (run, reply) ∈ runs.zip (loadAll read runs s).1) :
    run ∈ runs ∧ ∃ turn, reply = (combinedResults read run.resultKeys turn).1 := by
  induction runs generalizing s with
  | nil => exact absurd h (by simp)
  | cons first runs ih =>
    rw [loadAll, List.zip_cons_cons, List.mem_cons] at h
    rcases h with heq | h
    · obtain ⟨rfl, rfl⟩ := Prod.mk.inj heq
      exact ⟨List.mem_cons_self, s, rfl⟩
    · obtain ⟨hrun, hturn⟩ := ih h
      exact ⟨List.mem_cons_of_mem _ hrun, hturn⟩

end Reading

/-! ## The runs that are judged -/

namespace Analysis

/-- The results that are judged, each with its run, are some of those that were loaded. -/
theorem mem_zip_of_mem_judgedRuns {runs : List JobRun}
    {forests : List (Except Failure (List Suite))} {r : JudgedRun}
    (h : r ∈ judgedRuns runs forests) : (r.run, .ok r.forest) ∈ runs.zip forests := by
  induction runs generalizing forests with
  | nil => exact absurd h (by simp [judgedRuns])
  | cons run runs ih =>
    cases forests with
    | nil => exact absurd h (by simp [judgedRuns])
    | cons reply forests =>
      cases reply with
      | error f => exact List.mem_cons_of_mem _ (ih h)
      | ok forest =>
        rcases List.mem_cons.1 h with rfl | h
        · exact List.mem_cons_self
        · exact List.mem_cons_of_mem _ (ih h)

/-- The runs that are judged are some of the `runs` that were taken, in their order. -/
theorem sublist_judgedRuns (runs : List JobRun) (forests : List (Except Failure (List Suite))) :
    ((judgedRuns runs forests).map (·.run)).Sublist runs := by
  induction runs generalizing forests with
  | nil => simp [judgedRuns]
  | cons run runs ih =>
    cases forests with
    | nil => exact List.nil_sublist _
    | cons reply forests =>
      cases reply with
      | error f => exact (ih forests).cons run
      | ok forest => exact (ih forests).cons_cons run

/-- The same of those that are judged when the store answers by `answers`. -/
theorem sublist_judgedBy (answers : Answers) (runs : List JobRun) :
    ((judgedBy answers runs).map (·.run)).Sublist runs := sublist_judgedRuns runs _

/-- **A run that is judged is one of those that were taken**, and its forest is what its result files hold together when
it is its turn to be loaded. -/
theorem exists_turn_of_mem_judgedBy {answers : Answers} {runs : List JobRun} {r : JudgedRun}
    (h : r ∈ judgedBy answers runs) :
    r.run ∈ runs ∧ ∃ turn, (combinedResults answers.read r.run.resultKeys turn).1 = .ok r.forest := by
  obtain ⟨hrun, turn, hturn⟩ := exists_of_mem_zip_loadAll (mem_zip_of_mem_judgedRuns h)
  exact ⟨hrun, turn, hturn.symm⟩

end Analysis

/-! ## Stores that do not change -/

section Unchanging

variable {σ : Type} {read : String → σ → Except Failure (List UInt8) × σ} {store : Snapshot} {run : JobRun}
  {keys : List String} {forest : List Suite}

namespace Snapshot

/-- **The results of a `run`** in a store that does not change. -/
def resultsOf (store : Snapshot) (run : JobRun) : Except Failure (List Suite) :=
  (combinedResults (fun key (s : Unit) => (store.content key, s)) run.resultKeys ()).1

/-- **The runs with results that could be loaded** from a store that does not change, each with its forest. -/
def judge (store : Snapshot) (runs : List JobRun) : List JudgedRun :=
  Analysis.judgedRuns runs (runs.map store.resultsOf)

/-- The `run` with its results, when they could be loaded. -/
def judged? (store : Snapshot) (run : JobRun) : Option JudgedRun :=
  match store.resultsOf run with
  | .ok forest => some ⟨run, forest⟩
  | .error _ => none

/-- Each run is judged by itself: `store.judge runs = runs.filterMap store.judged?`. -/
theorem judge_eq_filterMap (store : Snapshot) (runs : List JobRun) :
    store.judge runs = runs.filterMap store.judged? := by
  induction runs with
  | nil => rfl
  | cons run runs ih =>
    rw [judge, List.map_cons, List.filterMap_cons, judged?, ← ih]
    cases store.resultsOf run <;> rfl

/-- **Runs in another order are judged in another order.** -/
theorem judge_perm (store : Snapshot) {runs runs' : List JobRun} (h : runs.Perm runs') :
    (store.judge runs).Perm (store.judge runs') := by
  rw [judge_eq_filterMap, judge_eq_filterMap]
  exact h.filterMap _

/-- **The results of runs do not depend on when they are loaded**, as long as every call for a `key` answers
`store.content key`. -/
theorem fst_loadAll (h : ∀ key s, (read key s).1 = store.content key) (runs : List JobRun) (s : σ) :
    (loadAll read runs s).1 = runs.map store.resultsOf := by
  induction runs generalizing s with
  | nil => rfl
  | cons run runs ih =>
    have hrun : (combinedResults read run.resultKeys s).1 = store.resultsOf run :=
      (combinedResults_congr (R := fun _ _ => True) (fun key s _ _ => ⟨h key s, trivial⟩) run.resultKeys trivial).1
    rw [loadAll, List.map_cons, ← hrun, ← ih]

/-- **Nor do the runs that are judged**: they are `store.judge runs`. -/
theorem judgedRuns_loadAll (h : ∀ key s, (read key s).1 = store.content key) (runs : List JobRun) (s : σ) :
    Analysis.judgedRuns runs (loadAll read runs s).1 = store.judge runs := by
  rw [fst_loadAll h, judge]

end Snapshot

/-! ## Usable runs -/

namespace Snapshot

/-- **What a result file holds** that can be read and parsed: the `forest` of its bytes. -/
def FileHolds (store : Snapshot) (key : String) (forest : List Suite) : Prop :=
  ∃ bytes, store.content key = .ok bytes ∧ forestOfBytes bytes = .ok forest

/-- A result file is read and then parsed. -/
theorem fileHolds_iff {key : String} :
    store.FileHolds key forest ↔ (store.content key >>= forestOfBytes) = .ok forest := by
  rw [FileHolds]
  cases h : store.content key with
  | error f => simp [bind, Except.bind]
  | ok bytes => simp [bind, Except.bind]

/-- **A run is usable** when each of its result files can be read and parsed. -/
def Usable (store : Snapshot) (run : JobRun) : Prop := ∀ key ∈ run.resultKeys, ∃ forest, store.FileHolds key forest

/-- Whether a file can be read and parsed can be found out by doing so. -/
theorem exists_fileHolds_iff {key : String} :
    (∃ forest, store.FileHolds key forest) ↔ (store.content key >>= forestOfBytes).isOk = true := by
  simp only [fileHolds_iff]
  cases store.content key >>= forestOfBytes <;> simp [Except.isOk, Except.toBool]

instance (store : Snapshot) : DecidablePred store.Usable := fun run =>
  decidable_of_iff (∀ key ∈ run.resultKeys, (store.content key >>= forestOfBytes).isOk = true)
    (forall₂_congr fun _ _ => exists_fileHolds_iff.symm)

end Snapshot

/-- The results of a list of files are `parts.flatten`, where `parts` are those of each, one after the other. -/
theorem combinedResults_eq_ok_iff :
    (combinedResults (fun key (u : Unit) => (store.content key, u)) keys ()).1 = .ok forest
      ↔ ∃ parts, List.Forall₂ store.FileHolds keys parts ∧ forest = parts.flatten := by
  -- by induction on the keys: a file that cannot be read holds no forest, any other holds exactly one
  induction keys generalizing forest with
  | nil => simp [combinedResults, eq_comm]
  | cons key keys ih =>
    rw [fst_combinedResults_cons]
    cases hfile : store.content key >>= forestOfBytes with
    | error f =>
      have hnone : ∀ part, ¬ store.FileHolds key part := by
        intro part hpart
        rw [Snapshot.fileHolds_iff, hfile] at hpart
        exact absurd hpart (by simp)
      simp [List.forall₂_cons_left_iff, hnone, bind, Except.bind]
    | ok first =>
      have hfirst : ∀ part, store.FileHolds key part ↔ first = part := by
        intro part
        rw [Snapshot.fileHolds_iff, hfile, Except.ok.injEq]
      show Except.map (first ++ ·) _ = .ok forest ↔ _
      constructor
      · intro h
        cases hrest : (combinedResults (fun key (u : Unit) => (store.content key, u)) keys ()).1 with
        | error f =>
          rw [hrest] at h
          exact absurd h (by simp [Except.map])
        | ok rest =>
          rw [hrest] at h
          obtain ⟨parts, hparts, rfl⟩ := ih.1 hrest
          obtain rfl := Except.ok.inj h
          exact ⟨first :: parts, .cons ((hfirst first).2 rfl) hparts, rfl⟩
      · rintro ⟨parts, hparts, rfl⟩
        cases hparts with
        | cons hpart hrest =>
          obtain rfl := (hfirst _).1 hpart
          rw [ih.2 ⟨_, hrest, rfl⟩]
          rfl

namespace Snapshot

/-- **The results of a run are those of its files**, one after the other, when all of them can be used. -/
theorem resultsOf_eq_ok_iff :
    store.resultsOf run = .ok forest
      ↔ ∃ parts, List.Forall₂ store.FileHolds run.resultKeys parts ∧ forest = parts.flatten :=
  combinedResults_eq_ok_iff

/-- A run is usable when it has results. -/
theorem usable_iff : store.Usable run ↔ ∃ forest, store.resultsOf run = .ok forest := by
  have hparts : store.Usable run ↔ ∃ parts, List.Forall₂ store.FileHolds run.resultKeys parts := by
    rw [Usable]
    induction run.resultKeys with
    | nil => simp
    | cons key keys ih => simp [List.forall₂_cons_left_iff, ih]
  simp only [hparts, resultsOf_eq_ok_iff]
  exact ⟨fun ⟨parts, h⟩ => ⟨_, parts, h, rfl⟩, fun ⟨_, parts, h, _⟩ => ⟨parts, h⟩⟩

/-- A usable run is judged with its results, and under its own name. -/
theorem judged?_eq_some_iff {r : JudgedRun} :
    store.judged? run = some r ↔ r.run = run ∧ store.resultsOf run = .ok r.forest := by
  rw [judged?]
  cases store.resultsOf run with
  | error f => simp
  | ok forest =>
    rcases r with ⟨_, _⟩
    simp [eq_comm]

/-- A run that is not usable is not judged. -/
theorem judged?_eq_none_iff : store.judged? run = none ↔ ¬ store.Usable run := by
  rw [usable_iff, judged?]
  cases store.resultsOf run <;> simp

/-- **Runs that are not usable make no difference** to those that are judged. -/
theorem judge_filter_usable (store : Snapshot) (runs : List JobRun) :
    store.judge (runs.filter store.Usable) = store.judge runs := by
  rw [judge_eq_filterMap, judge_eq_filterMap, List.filterMap_filter]
  refine List.filterMap_congr fun run _ => ?_
  by_cases h : store.Usable run
  · simp [h]
  · simp [h, judged?_eq_none_iff.2 h]

/-- **The runs that are judged are the usable ones**, in their order:
`(store.judge runs).map (·.run) = runs.filter store.Usable`. -/
theorem map_run_judge (store : Snapshot) (runs : List JobRun) :
    (store.judge runs).map (·.run) = runs.filter store.Usable := by
  rw [judge_eq_filterMap]
  induction runs with
  | nil => rfl
  | cons run runs ih =>
    cases h : store.judged? run with
    | none =>
      have hnot := judged?_eq_none_iff.1 h
      simp [h, hnot, ih]
    | some r =>
      have hrun := (judged?_eq_some_iff.1 h).1
      have husable : store.Usable run := usable_iff.2 ⟨r.forest, (judged?_eq_some_iff.1 h).2⟩
      simp [h, husable, hrun, ih]

/-- A run that is judged was taken, and is judged with the results of its files. -/
theorem resultsOf_of_mem_judge {runs : List JobRun} {r : JudgedRun} (h : r ∈ store.judge runs) :
    r.run ∈ runs ∧ store.resultsOf r.run = .ok r.forest := by
  rw [judge_eq_filterMap, List.mem_filterMap] at h
  obtain ⟨run, hrun, hr⟩ := h
  obtain ⟨rfl, hresults⟩ := judged?_eq_some_iff.1 hr
  exact ⟨hrun, hresults⟩

end Snapshot

end Unchanging

end PayloadGate
