import PayloadGate.Proofs.Analysis.Moves
import PayloadGate.Proofs.Gate.Buckets
import PayloadGate.Proofs.Run.Results

/-! # Runs with results that cannot be used

The result files of a run are read one after the other, and those of the next run behind them. A file that is missing,
that cannot be read or that is no result file spoils its run as a whole, and no other run.

* **`ObjectStore.judge store runs v`** — the runs that are judged when `store` is asked for the results of `runs`, from
  the visit `v` on; **`ObjectStore.judgedBy_answersFrom`** — an analysis judges just these.
* **`LeavesOut`**, **`leavesOut_of_unchanging`** — the runs that are not `Snapshot.Usable` are left out, and nothing
  else comes of them. -/

namespace PayloadGate

open Decimal (Binary64)
open Junit (Suite)

/-! ## Loading the results of runs -/

namespace ObjectStore

variable {store : ObjectStore} {held : Snapshot}

/-- **The runs that are judged** when `store` is asked for the results of `runs`, one run after the other, from the
visit `v` on. -/
def judge (store : ObjectStore) (runs : List JobRun) (v : Visit) : List JudgedRun :=
  Analysis.judgedRuns runs (loadAll store.askObject runs v).1

/-- **The answers of a store, call by call**, lead to the same runs: `store.answersFrom v` answers the `n`-th call as
`store.askObject` does behind `n` calls. -/
theorem judgedBy_answersFrom (store : ObjectStore) (runs : List JobRun) (v : Visit) :
    Analysis.judgedBy (store.answersFrom v) runs = store.judge runs v := by
  have hread : ∀ key n v', v' = { v with clock := v.clock + n * store.latency } →
      ((store.answersFrom v).read key n).1 = (store.askObject key v').1
        ∧ (store.askObject key v').2
            = { v with clock := v.clock + ((store.answersFrom v).read key n).2 * store.latency } := by
    rintro key n _ rfl
    -- one call more takes its latency, and is answered at its end
    have hclock : v.clock + n * store.latency + store.latency = v.clock + (n + 1) * store.latency := by
      rw [Nat.succ_mul, Nat.add_assoc]
    simp only [Answers.read, answersFrom, askObject, hclock, and_self]
  have hstart : v = { v with clock := v.clock + 0 * store.latency } := by rw [Nat.zero_mul, Nat.add_zero]
  rw [Analysis.judgedBy, (loadAll_congr hread runs hstart).1, judge]

/-- The runs that are judged do not depend on when they are loaded, as long as every call for a `key` answers
`held.content key`. -/
theorem judge_eq (h : ∀ clock key, store.content clock key = held.content key) (runs : List JobRun) (v : Visit) :
    store.judge runs v = held.judge runs :=
  held.judgedRuns_loadAll (fun _ _ => h _ _) runs v

end ObjectStore

/-! ## Left out -/

/-- **Runs with results that cannot be used are left out**, and nothing else comes of them: `store` judges the runs that
are `held.Usable`, in their order. -/
structure LeavesOut (store : ObjectStore) (held : Snapshot) (runs : List JobRun) : Prop where
  /-- The report is that on the usable runs alone, whatever the checkers are, whatever seconds they `took`, and whenever
  the runs are loaded. -/
  report_eq : ∀ checkers took v v',
    report checkers took (store.judge runs v) = report checkers took (store.judge (runs.filter held.Usable) v')
  /-- The runs that are judged are the usable ones, in their order. -/
  runs_eq : ∀ v, (store.judge runs v).map (·.run) = runs.filter held.Usable
  /-- Each is judged by the suites of its files, one after the other. -/
  forest_eq : ∀ v, ∀ r ∈ store.judge runs v,
    ∃ parts, List.Forall₂ held.FileHolds r.run.resultKeys parts ∧ r.forest = parts.flatten
  /-- A run without files is judged by no suites, and is a skip. -/
  bare : ∀ v, ∀ run ∈ runs, run.resultKeys = [] →
    ⟨run, []⟩ ∈ store.judge runs v ∧ ∀ c : Checker, c.FiledUnder ⟨run, []⟩ .skipped
  /-- A run with a file that cannot be used is not judged. -/
  unusable : ∀ v, ∀ run, ¬ held.Usable run → ∀ r ∈ store.judge runs v, r.run ≠ run
  /-- The buckets of a checker hold the usable runs, each once. -/
  buckets : ∀ v (c : Checker), ((c.evidence (store.judge runs v)).passes ++ (c.evidence (store.judge runs v)).failures
    ++ (c.evidence (store.judge runs v)).skips).Perm ((runs.filter held.Usable).map (·.reference))
  /-- Its totals count these. -/
  total : ∀ v (c : Checker), (c.evidence (store.judge runs v)).summary
    = summaryLine (runs.filter held.Usable).length (c.evidence (store.judge runs v)).passes.length
        (c.evidence (store.judge runs v)).failures.length (c.evidence (store.judge runs v)).skips.length
  /-- An analysis that loads the runs goes on to write the report, whatever could not be loaded. -/
  checked : ∀ v took (a : Analysis), a.stage = .loading runs →
    ∃ b, a.step (.loaded (store.answersFrom v) took) = some b
      ∧ b.stage = .writing (report a.checkers took (store.judge runs v)) ∧ b.result? = none

/-- **A run with results that cannot be used affects only itself**, when the contents of the store do not change:
`store.content clock key = held.content key` at every `clock`. -/
theorem leavesOut_of_unchanging {store : ObjectStore} {held : Snapshot}
    (h : ∀ clock key, store.content clock key = held.content key) (runs : List JobRun) :
    LeavesOut store held runs := by
  -- in a store that does not change, every visit judges what the snapshot `held` judges
  have hjudge := ObjectStore.judge_eq h
  have hlength : (held.judge runs).length = (runs.filter held.Usable).length := by
    rw [← held.map_run_judge runs, List.length_map]
  refine ⟨?_, ?_, ?_, ?_, ?_, ?_, ?_, ?_⟩
  · intro checkers took v v'
    rw [hjudge, hjudge, held.judge_filter_usable]
  · intro v
    rw [hjudge, held.map_run_judge]
  · intro v r hr
    rw [hjudge] at hr
    exact Snapshot.resultsOf_eq_ok_iff.1 (Snapshot.resultsOf_of_mem_judge hr).2
  · intro v run hrun hbare
    have hresults : held.resultsOf run = .ok [] := Snapshot.resultsOf_eq_ok_iff.2 ⟨[], hbare ▸ .nil, rfl⟩
    refine ⟨?_, fun c => rfl⟩
    rw [hjudge, held.judge_eq_filterMap, List.mem_filterMap]
    exact ⟨run, hrun, Snapshot.judged?_eq_some_iff.2 ⟨rfl, hresults⟩⟩
  · rintro v run hnot r hr rfl
    rw [hjudge] at hr
    exact hnot (Snapshot.usable_iff.2 ⟨_, (Snapshot.resultsOf_of_mem_judge hr).2⟩)
  · intro v c
    rw [hjudge, c.evidence_eq, ← held.map_run_judge runs, List.map_map]
    exact c.perm_buckets (held.judge runs)
  · intro v c
    rw [hjudge, ← hlength, c.evidence_eq]
    rfl
  · intro v took a hs
    refine ⟨_, Analysis.step_of_moves (.loaded hs), ?_, rfl⟩
    rw [← store.judgedBy_answersFrom]
    rfl

/-! ### Four runs -/

/-- A store with one result file. Another one is broken, and there are no further ones. -/
def spoiledStore : Snapshot where
  records := []
  ascending := .nil
  content key :=
    if key = "good.xml" then
      .ok ("<testsuite name=\"cluster install\"><testcase name=\"install should succeed: overall\"/>"
        ++ "</testsuite>").toUTF8.toList
    else if key = "broken.xml" then .ok "<testsuite name=".toUTF8.toList
    else .error (.notFound key)

/-- A run with the result files `keys`. -/
def runWith (id : String) (keys : List String) : JobRun :=
  ⟨"e2e", id, "logs/e2e", "logs/e2e/" ++ id ++ "/prowjob.json", keys,
    ⟨"", .empty, ⟨90, 0⟩, "e2e", "build01", "success", none, some ⟨95, 0⟩⟩, "human/" ++ id, "artifacts/" ++ id⟩

/-- Runs with good files, with a broken one behind a good one, with a missing one before a good one, and without
files. -/
def spoiledRuns : List JobRun :=
  [runWith "5" ["good.xml", "good.xml"], runWith "6" ["good.xml", "broken.xml"],
    runWith "7" ["missing.xml", "good.xml"], runWith "8" []]

/-- Two of the four runs are judged. -/
theorem leavesOut_of_unchanging_spoiled :
    LeavesOut ⟨5, fun _ _ _ _ => .error (.storage "listing unavailable"), fun _ => spoiledStore.content⟩ spoiledStore
      spoiledRuns
    ∧ spoiledRuns.filter spoiledStore.Usable = [runWith "5" ["good.xml", "good.xml"], runWith "8" []] :=
  ⟨leavesOut_of_unchanging (fun _ _ => rfl) spoiledRuns, by decide +kernel⟩

end PayloadGate
