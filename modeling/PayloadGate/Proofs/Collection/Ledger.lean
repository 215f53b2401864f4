import PayloadGate.Proofs.Collection.Moves
import Mathlib.Data.List.Nodup
import Mathlib.Data.List.Range

/-! # The ledger of a collection

The results of a collection name jobs, and two jobs may have the same name. A ledger names workers by their places,
in the order in which they finished, each with its outcome.

* **`Collection.finishes?`** — the worker that an event finishes; **`Collection.shifts_of_step`** — what an event
  does to the places.
* **`Collection.Ledger`** — the results tell what the ledger tells; **`Collection.Ledger.shift`** keeps it.
* **`Collection.Guards`** — what holds of the workers and of the outcomes.
* **`Collection.Ledger.perm_range`**, **`Collection.Ledger.join_eq`** — when all workers have finished each has its
  one entry, and the outcome is read off the entries. -/

namespace PayloadGate.Collection

variable {α : Type} {c c' : Collection α} {e : Event α} {jobs : List String}
  {ledger : List (Nat × Outcome)} {i : Nat} {w : Worker α}

/-! ## Places -/

/-- **The worker that an event finishes**, with its outcome, and `none` when it finishes none. -/
def finishes? (c : Collection α) : Event α → Option (Nat × Outcome)
  | .outcome i o => do
    let w ← c.workers[i]?
    match RetryPolicy.judge w.job w.spare o with
    | .answer answer => some (i, answer)
    | .again _ => none
  | .notice i => do
    let w ← c.workers[i]?
    some (i, .error (RetryPolicy.cancellation w.job))
  | _ => none

/-- **What an event does to the places**: it is the signal, or it gets one worker on, or it finishes one. The first
argument is the entry that the ledger gets. -/
inductive Shifts (c : Collection α) : Option (Nat × Outcome) → Collection α → Prop where
  /-- The signal changes no worker. -/
  | signalled : Shifts c none { c with cancelled := true }
  /-- A worker gets on. -/
  | went {i : Nat} {w w' : Worker α} (hw : c.workers[i]? = some w) (hlive : w.isFinished = false)
      (hlive' : w'.isFinished = false) (hjob : w'.job = w.job) : Shifts c none (c.put i w')
  /-- A worker finishes. -/
  | ended {i : Nat} {w : Worker α} (answer : Outcome) (hw : c.workers[i]? = some w)
      (hlive : w.isFinished = false) : Shifts c (some (i, answer)) (c.finish i w answer)

/-- A worker that is at work has not finished. -/
theorem not_isFinished_of_isActive (h : w.isActive = true) : w.isFinished = false := by
  rw [Worker.isActive] at h
  rw [Worker.isFinished]
  cases hs : w.stage with
  | finished =>
    rw [hs] at h
    exact absurd h (by simp)
  | _ => rfl

/-- **Each event is one of the three**, with the entry of `finishes?`. -/
theorem shifts_of_step (h : c.step e = some c') : Shifts c (c.finishes? e) c' := by
  cases moves_of_step h with
  | cancel => exact .signalled
  | begun hw hs => exact .went hw (by rw [Worker.isFinished, hs]) rfl rfl
  | advanced hw hs => exact .went hw (by rw [Worker.isFinished, hs]) rfl rfl
  | @answered i w attempt o answer hw hs hj =>
    -- only a last attempt and a noticed signal finish a worker, and `finishes?` tells its answer
    have hfinishes : c.finishes? (.outcome i o) = some (i, answer) := by
      simp only [finishes?, hw, hj, Option.bind_eq_bind, Option.bind_some]
    rw [hfinishes]
    exact .ended answer hw (by rw [Worker.isFinished, hs])
  | @failed i w attempt o spare hw hs hj =>
    have hfinishes : c.finishes? (.outcome i o) = none := by
      simp only [finishes?, hw, hj, Option.bind_eq_bind, Option.bind_some]
    rw [hfinishes]
    exact .went hw (by rw [Worker.isFinished, hs]) rfl rfl
  | resumed hw hs => exact .went hw (by rw [Worker.isFinished, hs]) rfl rfl
  | @noticed i w hw hc ha =>
    have hfinishes : c.finishes? (.notice i)
        = some (i, .error (RetryPolicy.cancellation w.job)) := by
      simp only [finishes?, hw, Option.bind_eq_bind, Option.bind_some]
    rw [hfinishes]
    exact .ended _ hw (not_isFinished_of_isActive ha)

/-- What stands in place `j` when `i` was set: the new worker, or the one that was there. -/
theorem eq_or_of_get_set {ws : List (Worker α)} {j : Nat} {w' : Worker α}
    (h : (ws.set i w)[j]? = some w') : (j = i ∧ w' = w) ∨ (j ≠ i ∧ ws[j]? = some w') := by
  rw [List.getElem?_set] at h
  by_cases hij : i = j
  · subst hij
    by_cases hi : i < ws.length
    · rw [if_pos rfl, if_pos hi] at h
      exact Or.inl ⟨rfl, (Option.some.inj h).symm⟩
    · rw [if_pos rfl, if_neg hi] at h
      exact absurd h (by simp)
  · rw [if_neg hij] at h
    exact Or.inr ⟨Ne.symm hij, h⟩

/-- The worker in the place that was set is the new one. -/
theorem get_set_self {ws : List (Worker α)} {old : Worker α} (h : ws[i]? = some old)
    (w : Worker α) : (ws.set i w)[i]? = some w := by
  obtain ⟨hi, -⟩ := List.getElem?_eq_some_iff.1 h
  rw [List.getElem?_set, if_pos rfl, if_pos hi]

/-- The jobs stay when a worker is replaced by one of the same job. -/
theorem map_job_set {ws : List (Worker α)} {old : Worker α} (h : ws[i]? = some old)
    (hjob : w.job = old.job) : (ws.set i w).map Worker.job = ws.map Worker.job := by
  obtain ⟨hi, rfl⟩ := List.getElem?_eq_some_iff.1 h
  rw [List.map_set, hjob]
  exact (congrArg _ (List.getElem_map Worker.job).symm).trans (List.set_getElem_self (by simpa using hi))

/-! ## The ledger -/

/-- **The results tell what a ledger tells**: an entry `(i, o)` says that the worker of place `i` has finished with `o`.
A job alone would not do, as two workers may have the same. -/
structure Ledger (jobs : List String) (c : Collection α) (ledger : List (Nat × Outcome)) : Prop where
  /-- The workers have the jobs of the collection. -/
  jobs_eq : c.workers.map Worker.job = jobs
  /-- The results are the entries, each with the job of its worker. -/
  results_eq : c.results = ledger.map fun p => (jobs.getD p.1 "", p.2)
  /-- No worker has two entries. -/
  nodup : (ledger.map Prod.fst).Nodup
  /-- The workers that have entries are those that have finished. -/
  mem_iff : ∀ i, i ∈ ledger.map Prod.fst ↔ ∃ w, c.workers[i]? = some w ∧ w.isFinished = true

/-- At the start the ledger is empty: no worker has finished. -/
theorem ledger_start (limit : Nat) (policy : RetryPolicy) (jobs : List String) :
    Ledger jobs (start (α := α) limit policy jobs) [] := by
  refine ⟨?_, rfl, List.nodup_nil, fun i => ?_⟩
  · simp [start, Function.comp_def, Worker.queued]
  · constructor
    · intro h
      exact absurd h (by simp)
    · rintro ⟨w, hw, hfinished⟩
      -- all workers are queued
      obtain ⟨job, -, rfl⟩ := List.mem_map.1 (List.mem_of_getElem? hw)
      exact absurd hfinished (by simp [Worker.queued, Worker.isFinished])

/-- When a living worker is replaced by `w` in place `i`, the places with a finished worker are those of before, and `i`
when `w` has finished. -/
theorem finished_set_iff {ws : List (Worker α)} {old : Worker α} (h : ws[i]? = some old)
    (hold : old.isFinished = false) (j : Nat) :
    (∃ w', (ws.set i w)[j]? = some w' ∧ w'.isFinished = true)
      ↔ (j = i ∧ w.isFinished = true) ∨ ∃ w', ws[j]? = some w' ∧ w'.isFinished = true := by
  constructor
  · rintro ⟨w', hw', hfinished⟩
    rcases eq_or_of_get_set hw' with ⟨rfl, rfl⟩ | ⟨-, hj⟩
    · exact Or.inl ⟨rfl, hfinished⟩
    · exact Or.inr ⟨w', hj, hfinished⟩
  · rintro (⟨rfl, hfinished⟩ | ⟨w', hw', hfinished⟩)
    · exact ⟨w, get_set_self h w, hfinished⟩
    · have hij : i ≠ j := by
        rintro rfl
        rw [h] at hw'
        rw [Option.some.inj hw', hfinished] at hold
        exact absurd hold (by simp)
      exact ⟨w', by rw [List.getElem?_set, if_neg hij]; exact hw', hfinished⟩

/-- **The ledger after an event** is the one of before with the `entry` of the event, if there is one. -/
theorem Ledger.shift {entry : Option (Nat × Outcome)} (h : Ledger jobs c ledger)
    (hshift : Shifts c entry c') : Ledger jobs c' (ledger ++ entry.toList) := by
  cases hshift with
  | signalled =>
    rw [Option.toList_none, List.append_nil]
    exact ⟨h.jobs_eq, h.results_eq, h.nodup, h.mem_iff⟩
  | @went i w w' hw hlive hlive' hjob =>
    rw [Option.toList_none, List.append_nil]
    refine ⟨(map_job_set hw hjob).trans h.jobs_eq, h.results_eq, h.nodup, fun j => ?_⟩
    refine (h.mem_iff j).trans ((finished_set_iff hw hlive j).trans ?_).symm
    -- the worker that gets on has not finished
    simp [hlive']
  | @ended i w answer hw hlive =>
    have hnew : i ∉ ledger.map Prod.fst := by
      intro hi
      obtain ⟨w', hw', hfinished⟩ := (h.mem_iff i).1 hi
      rw [hw] at hw'
      rw [Option.some.inj hw', hfinished] at hlive
      exact absurd hlive (by simp)
    have hjob : jobs.getD i "" = w.job := by
      rw [← h.jobs_eq, List.getD_eq_getElem?_getD, List.getElem?_map, hw]
      rfl
    have hjobs : (c.finish i w answer).workers.map Worker.job = jobs :=
      (map_job_set (w := { w with stage := .finished }) hw rfl).trans h.jobs_eq
    refine ⟨hjobs, ?_, ?_, fun j => ?_⟩
    · show c.results ++ [(w.job, answer)] = _
      rw [h.results_eq, Option.toList_some, List.map_append, List.map_singleton, hjob]
    · rw [Option.toList_some, List.map_append, List.nodup_append]
      refine ⟨h.nodup, List.nodup_singleton i, ?_⟩
      rintro a ha b hb rfl
      obtain rfl : a = i := List.mem_singleton.1 hb
      exact hnew ha
    · rw [Option.toList_some, List.map_append, List.mem_append, h.mem_iff j, List.map_singleton,
        List.mem_singleton]
      refine (or_comm.trans ?_).trans (finished_set_iff hw hlive j).symm
      exact or_congr_left ⟨fun hj => ⟨hj, rfl⟩, And.left⟩

/-- Workers that are changed by an `f` that keeps their jobs, and whether they have finished, have the same ledger. -/
theorem Ledger.map_workers {f : Worker α → Worker α} (h : Ledger jobs c ledger) (hjob : ∀ w, (f w).job = w.job)
    (hlive : ∀ w, (f w).isFinished = w.isFinished) (b : Bool) :
    Ledger jobs { c with cancelled := b, workers := c.workers.map f } ledger := by
  refine ⟨?_, h.results_eq, h.nodup, fun i => (h.mem_iff i).trans ?_⟩
  · rw [← h.jobs_eq, List.map_map]
    exact List.map_congr_left fun w _ => hjob w
  · rw [List.getElem?_map]
    cases c.workers[i]? with
    | none => simp
    | some w => simp [hlive]

/-! ## What holds of workers and outcomes -/

/-- **What holds of the worker in each place, and of the outcome of each entry.** An invariant of single workers is kept
by a step when it holds of the worker that the step replaces. -/
structure Guards (holds : Nat → Worker α → Prop) (allows : Nat → Outcome → Prop)
    (c : Collection α) (ledger : List (Nat × Outcome)) : Prop where
  /-- It holds of the workers. -/
  workers : ∀ j w, c.workers[j]? = some w → holds j w
  /-- It holds of the outcomes. -/
  entries : ∀ p ∈ ledger, allows p.1 p.2

variable {holds : Nat → Worker α → Prop} {allows : Nat → Outcome → Prop}

/-- A worker gets on: `holds` of the new one is all there is to show. -/
theorem Guards.put (h : Guards holds allows c ledger) (hw : holds i w) :
    Guards holds allows (c.put i w) ledger := by
  refine ⟨fun j w' hw' => ?_, h.entries⟩
  rcases eq_or_of_get_set hw' with ⟨rfl, rfl⟩ | ⟨-, hj⟩
  · exact hw
  · exact h.workers j w' hj

/-- A worker finishes with an `answer` that is allowed. -/
theorem Guards.finish {answer : Outcome} (h : Guards holds allows c ledger)
    (hw : holds i { w with stage := .finished }) (hanswer : allows i answer) :
    Guards holds allows (c.finish i w answer) (ledger ++ [(i, answer)]) := by
  refine ⟨(h.put hw).workers, fun p hp => ?_⟩
  rcases List.mem_append.1 hp with hp | hp
  · exact h.entries p hp
  · obtain rfl := List.mem_singleton.1 hp
    exact hanswer

/-- Workers that are changed by an `f` that keeps what `holds`. -/
theorem Guards.map_workers {f : Worker α → Worker α} (h : Guards holds allows c ledger)
    (hf : ∀ j w, holds j w → holds j (f w)) (b : Bool) :
    Guards holds allows { c with cancelled := b, workers := c.workers.map f } ledger := by
  refine ⟨fun j w hw => ?_, h.entries⟩
  rw [List.getElem?_map] at hw
  obtain ⟨old, hold, rfl⟩ := Option.map_eq_some_iff.1 hw
  exact hf j old (h.workers j old hold)

/-! ## When all have finished -/

/-- There are as many workers as jobs, at any time. -/
theorem Ledger.length_workers (h : Ledger jobs c ledger) : c.workers.length = jobs.length := by
  rw [← h.jobs_eq, List.length_map]

/-- **When all workers have finished each has its one entry**: the places of the ledger are those below `jobs.length`,
in some order. -/
theorem Ledger.perm_range (h : Ledger jobs c ledger) (hall : c.workers.all Worker.isFinished = true) :
    (ledger.map Prod.fst).Perm (List.range jobs.length) := by
  rw [List.perm_ext_iff_of_nodup h.nodup List.nodup_range]
  intro j
  rw [h.mem_iff j, List.mem_range, ← h.length_workers]
  constructor
  · rintro ⟨w, hw, -⟩
    exact (List.getElem?_eq_some_iff.1 hw).1
  · intro hj
    exact ⟨c.workers[j], List.getElem?_eq_getElem hj, List.all_eq_true.1 hall _ (List.getElem_mem hj)⟩

/-- The `join` of the results is read off the entries. -/
theorem Ledger.join_eq (h : Ledger jobs c ledger) :
    join c.results = match ledger.findSome? fun p => fatal? p.2 with
      | some f => .error f
      | none => .ok (ledger.flatMap fun p => runsOf p.2) := by
  rw [join, h.results_eq, List.findSome?_map, List.flatMap_map]
  rfl

/-- The outcome of a collection that was not cancelled and whose workers have all finished is read off the entries. -/
theorem Ledger.outcome?_eq (h : Ledger jobs c ledger)
    (hall : c.workers.all Worker.isFinished = true) (hcancelled : c.cancelled = false) :
    c.outcome? = some (match ledger.findSome? fun p => fatal? p.2 with
      | some f => .error f
      | none => .ok (ledger.flatMap fun p => runsOf p.2)) := by
  rw [outcome?, if_pos hall, hcancelled, if_neg Bool.false_ne_true, h.join_eq]

/-- A collection with an outcome has finished: `outcome?` is `none` before. -/
theorem all_isFinished_of_outcome? {o : Outcome} (h : c.outcome? = some o) :
    c.workers.all Worker.isFinished = true := by
  by_contra hall
  rw [outcome?, if_neg hall] at h
  exact absurd h (by simp)

/-- **After the signal there is only one outcome**, the failure that says so. -/
theorem eq_cancelled_of_outcome? {o : Outcome} (hc : c.cancelled = true) (h : c.outcome? = some o) :
    o = .error (.cancelled "job run collection cancelled") := by
  rw [outcome?, if_pos (all_isFinished_of_outcome? h), if_pos hc] at h
  exact (Option.some.inj h).symm

/-- **Runs are an outcome only without the signal**, and then they are those of all searches that succeeded,
`c.results.flatMap fun r => runsOf r.2`. -/
theorem eq_of_outcome?_ok {runs : List JobRun} (h : c.outcome? = some (.ok runs)) :
    c.cancelled = false ∧ runs = c.results.flatMap fun r => runsOf r.2 := by
  cases hc : c.cancelled with
  | true => exact absurd (eq_cancelled_of_outcome? hc h) (by simp)
  | false =>
    refine ⟨rfl, ?_⟩
    rw [outcome?, if_pos (all_isFinished_of_outcome? h), hc, if_neg Bool.false_ne_true, join] at h
    cases hfind : c.results.findSome? fun r => fatal? r.2 with
    | none =>
      rw [hfind] at h
      exact (Except.ok.inj (Option.some.inj h)).symm
    | some f =>
      rw [hfind] at h
      exact absurd h (by simp)

/-- A failure is an outcome only behind the signal, or when a search has met it and it is fatal. -/
theorem cancelled_or_of_outcome?_error {f : Failure} (h : c.outcome? = some (.error f)) :
    f = .cancelled "job run collection cancelled" ∨ ∃ r ∈ c.results, fatal? r.2 = some f := by
  cases hc : c.cancelled with
  | true => exact .inl (Except.error.inj (eq_cancelled_of_outcome? hc h))
  | false =>
    right
    rw [outcome?, if_pos (all_isFinished_of_outcome? h), hc, if_neg Bool.false_ne_true, join] at h
    cases hfind : c.results.findSome? fun r => fatal? r.2 with
    | none =>
      rw [hfind] at h
      exact absurd h (by simp)
    | some g =>
      rw [hfind] at h
      obtain rfl := Except.error.inj (Option.some.inj h)
      exact List.exists_of_findSome?_eq_some hfind

end PayloadGate.Collection
