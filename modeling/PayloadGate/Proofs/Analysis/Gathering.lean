import PayloadGate.Proofs.Analysis.Moves
import PayloadGate.Proofs.Collection.Ledger
import PayloadGate.Proofs.Search.Finds

/-! # The runs that an analysis collects

An analysis of a release payload searches each job by a plan of its own. What its searches find is what its collection
answers, and no run is among it twice.

* **`Analysis.Given`** — the bytes that the store has given for a key in answer to a search.
* **`Analysis.OfPayload`**, **`Analysis.Collected`** — runs of the payload, none of them twice.
* **`Analysis.Searched`** — a collection with what its searches have found; **`Analysis.Searched.of_carries`** keeps it.
* **`Analysis.Gathering`** — one for a release payload; **`Analysis.Gathering.collected`** reads its outcome. -/

namespace PayloadGate.Analysis

open Collection (Ledger Guards runsOf)

variable {a b first : Analysis} {e : Event} {events : List Event} {o : Options} {tag : String}
  {given given' : String → List UInt8 → Prop} {plans : List SearchPlan} {c c' : Collection Search}
  {ce : Collection.Event Search} {ledger : List (Nat × Outcome)}

/-! ## The answers of the store -/

/-- The key that the search of the `i`-th worker has asked the store for. -/
def asked? (a : Analysis) (i : Nat) : Option String :=
  match a.stage with
  | .collecting _ _ c => (searchOf? c i).bind Search.asked?
  | _ => none

/-- **The store has given `bytes` for `key`** in answer to a search: somewhere in `events`, a search that had asked for
`key` got these `bytes`. -/
def Given (first : Analysis) (events : List Event) (key : String) (bytes : List UInt8) : Prop :=
  ∃ before i after a, events = before ++ .search i (.readerObject (.ok bytes)) :: after
    ∧ playAll step before first = some a ∧ a.asked? i = some key

/-- What has been given stays given behind one more event `e`. -/
theorem Given.concat (e : Event) (key : String) (bytes : List UInt8) (h : Given first events key bytes) :
    Given first (events ++ [e]) key bytes := by
  obtain ⟨before, i, after, a, rfl, hplay, hasked⟩ := h
  exact ⟨before, i, after ++ [e], a, by rw [List.append_assoc, List.cons_append], hplay, hasked⟩

/-- What is given with the last event, when `a` stands behind `events`, and its `i`-th worker has asked for `key`. -/
theorem given_concat {key : String} {bytes : List UInt8} {i : Nat} (hplay : playAll step events first = some a)
    (hasked : a.asked? i = some key) :
    Given first (events ++ [.search i (.readerObject (.ok bytes))]) key bytes :=
  ⟨events, i, [], a, rfl, hplay, hasked⟩

/-! ## Runs of a payload -/

/-- **A run of a release payload**: its descriptor was `given` for its own directory, it carries the `tag`, and it was
not created behind the window of `o`. -/
structure OfPayload (o : Options) (tag : String) (given : String → List UInt8 → Prop) (run : JobRun) : Prop where
  /-- Its descriptor lies in its directory. -/
  key_eq : run.descriptorKey = "logs/" ++ run.jobName ++ "/" ++ run.runId ++ "/prowjob.json"
  /-- Its descriptor was read there. -/
  read : ∃ bytes, given run.descriptorKey bytes ∧ Descriptor.ofBytes bytes = .ok run.descriptor
  /-- The tag. -/
  label_eq : run.descriptor.label? "release.openshift.io/analysis" = some tag
  /-- The window. -/
  in_window : ¬ o.estimate.plus o.window.after < run.descriptor.created

/-- **Runs of a release payload, none of them twice**: each of `runs` is `OfPayload`, and no two have both job and id in
common. -/
structure Collected (o : Options) (tag : String) (given : String → List UInt8 → Prop) (runs : List JobRun) : Prop where
  /-- No two of them have the same job and the same id. -/
  nodup : (runs.map fun r => (r.jobName, r.runId)).Nodup
  /-- Each of them is one. -/
  of_payload : ∀ run ∈ runs, OfPayload o tag given run

/-- More answers of the store, `given'` for `given`, collect the same `runs`. -/
theorem Collected.mono (hgiven : ∀ key bytes, given key bytes → given' key bytes) {runs : List JobRun}
    (h : Collected o tag given runs) : Collected o tag given' runs := by
  refine ⟨h.nodup, fun run hrun => ?_⟩
  have hpayload := h.of_payload run hrun
  obtain ⟨bytes, hbytes, hread⟩ := hpayload.read
  exact ⟨hpayload.key_eq, ⟨bytes, hgiven _ _ hbytes, hread⟩, hpayload.label_eq, hpayload.in_window⟩

/-! ## Plans -/

/-- A plan for a job of a release payload with the given `tag`: window and label are those of `o`, and the directory is
that of the job. -/
structure PlanFor (o : Options) (tag : String) (plan : SearchPlan) : Prop where
  /-- The runs of the job are below the logs. -/
  root_eq : plan.root = "logs/" ++ plan.job
  /-- They carry the tag. -/
  matcher_eq : plan.matcher = .payloadTag tag
  /-- The end of the window. -/
  windowEnd_eq : plan.windowEnd = o.estimate.plus o.window.after

/-- Each of the `jobs` of a release payload has its plan, in their order. -/
theorem plansFor_eq (htag : a.options.selector = .tag tag) (jobs : List Job) :
    (a.plansFor jobs).map (·.job) = jobs.map (·.name) ∧ ∀ plan ∈ a.plansFor jobs, PlanFor a.options tag plan := by
  have hplan : ∀ job : Job, a.options.searchPlan? a.links job
      = some ⟨job.name, "logs/" ++ job.name, .payloadTag tag, a.options.estimate, a.options.window, a.links⟩ := by
    intro job
    rw [Options.searchPlan?, htag]
    rfl
  constructor
  · rw [plansFor, List.map_filterMap]
    simp only [hplan, Option.map_some, List.filterMap_eq_map']
  · intro plan hmem
    obtain ⟨job, -, hjob⟩ := List.mem_filterMap.1 hmem
    rw [hplan] at hjob
    obtain rfl := Option.some.inj hjob
    exact ⟨rfl, rfl, rfl⟩

/-- A run that belongs to a `PlanFor` a job of a release payload is `OfPayload`. -/
theorem ofPayload_of_belongs {plan : SearchPlan} {run : JobRun} (hplan : PlanFor o tag plan)
    (h : Belongs given plan run) : OfPayload o tag given run := by
  refine ⟨?_, h.read, ?_, hplan.windowEnd_eq ▸ h.in_window⟩
  · rw [h.key_eq, hplan.root_eq, ← h.jobName_eq, descriptorName, String.append_assoc]
    rfl
  · have hmarked := h.marked
    rw [hplan.matcher_eq, RunMatcher.accepts, beq_iff_eq] at hmarked
    exact hmarked

/-! ## Collections -/

/-- What the search of the `i`-th worker has found, by the plan in its place. -/
def WorkerFinds (given : String → List UInt8 → Prop) (plans : List SearchPlan) (i : Nat) (w : Worker Search) : Prop :=
  ∀ s, w.stage = .attempting s → ∃ plan, plans[i]? = some plan ∧ Finds given plan s

/-- What the `i`-th worker has answered: runs that were found by the plan in its place. -/
def AnswerFound (given : String → List UInt8 → Prop) (plans : List SearchPlan) (i : Nat) (answer : Outcome) : Prop :=
  ∀ runs, answer = .ok runs → ∃ plan, plans[i]? = some plan ∧ Found given plan runs

/-- **A collection with what its searches have found**: workers and `ledger` tell of runs that the plans in their places
have found. -/
structure Searched (given : String → List UInt8 → Prop) (plans : List SearchPlan) (c : Collection Search)
    (ledger : List (Nat × Outcome)) : Prop where
  /-- The results tell what the ledger tells. -/
  told : Ledger (plans.map (·.job)) c ledger
  /-- The searches and the answers. -/
  guards : Guards (WorkerFinds given plans) (AnswerFound given plans) c ledger

/-- **A collection for a release payload** with what its searches have found: it is `Searched`, each of its `plans` is a
`PlanFor` the `tag`, and no two of them are for the same job. -/
structure Gathering (o : Options) (tag : String) (given : String → List UInt8 → Prop) (plans : List SearchPlan)
    (c : Collection Search) (ledger : List (Nat × Outcome)) : Prop extends Searched given plans c ledger where
  /-- No two plans are for the same job. -/
  plans_nodup : (plans.map (·.job)).Nodup
  /-- Each of them is for the payload. -/
  plans_for : ∀ plan ∈ plans, PlanFor o tag plan

/-- A collection by `plans` at its start has found nothing, and its ledger is empty. -/
theorem searched_newCollection (given : String → List UInt8 → Prop) (a : Analysis) (plans : List SearchPlan) :
    Searched given plans (a.newCollection plans) [] := by
  have hledger := Collection.ledger_start (α := Search) a.options.maxJobs a.options.retry (plans.map (·.job))
  refine ⟨⟨hledger.jobs_eq, hledger.results_eq, hledger.nodup, hledger.mem_iff⟩,
    ⟨fun i w hw s hs => ?_, fun p hp => absurd hp (by simp)⟩⟩
  -- all workers are queued
  obtain ⟨job, -, rfl⟩ := List.mem_map.1 (List.mem_of_getElem? hw)
  exact absurd hs (by simp [Worker.queued])

/-- A collection for `jobs` of different names at its start. -/
theorem gathering_newCollection (htag : a.options.selector = .tag tag) {jobs : List Job}
    (hjobs : (jobs.map (·.name)).Nodup) (given : String → List UInt8 → Prop) :
    Gathering a.options tag given (a.plansFor jobs) (a.newCollection (a.plansFor jobs)) [] := by
  obtain ⟨hnames, hplans⟩ := plansFor_eq htag jobs
  exact ⟨searched_newCollection given a _, hnames ▸ hjobs, hplans⟩

/-- More answers of the store, `given'` for `given`, find the same. -/
theorem Searched.mono (hgiven : ∀ key bytes, given key bytes → given' key bytes)
    (h : Searched given plans c ledger) : Searched given' plans c ledger := by
  refine ⟨h.told, ⟨fun i w hw s hs => ?_, fun p hp runs hruns => ?_⟩⟩
  · obtain ⟨plan, hplan, hfinds⟩ := h.guards.workers i w hw s hs
    exact ⟨plan, hplan, hfinds.mono hgiven⟩
  · obtain ⟨plan, hplan, hfound⟩ := h.guards.entries p hp runs hruns
    exact ⟨plan, hplan, hfound.mono hgiven⟩

/-- More answers of the store, `given'` for `given`, find the same. -/
theorem Gathering.mono (hgiven : ∀ key bytes, given key bytes → given' key bytes)
    (h : Gathering o tag given plans c ledger) : Gathering o tag given' plans c ledger :=
  ⟨h.toSearched.mono hgiven, h.plans_nodup, h.plans_for⟩

/-- The signal changes nothing in what the searches have found. -/
theorem Searched.signalled (h : Searched given plans c ledger) :
    Searched given plans { c with cancelled := true, workers := c.workers.map cancelWorker } ledger := by
  have hjob : ∀ w, (cancelWorker w).job = w.job := by
    intro w
    rw [cancelWorker]
    cases w.stage <;> rfl
  -- the signal reaches the search of a worker and leaves its job and whether it has finished
  have hlive : ∀ w, (cancelWorker w).isFinished = w.isFinished := by
    intro w
    rw [cancelWorker]
    cases hs : w.stage <;> simp [Worker.isFinished, hs]
  refine ⟨h.told.map_workers hjob hlive true, h.guards.map_workers (fun i w hw s hs => ?_) true⟩
  cases hstage : w.stage with
  | attempting old =>
    rw [cancelWorker, hstage] at hs
    obtain rfl := WorkerStage.attempting.inj hs
    obtain ⟨plan, hplan, hfinds⟩ := hw old hstage
    exact ⟨plan, hplan, hfinds.cancel true⟩
  | _ =>
    rw [cancelWorker, hstage] at hs
    exact absurd hs (by simp [hstage])

/-- The signal changes nothing in what the searches have found. -/
theorem Gathering.signalled (h : Gathering o tag given plans c ledger) :
    Gathering o tag given plans { c with cancelled := true, workers := c.workers.map cancelWorker } ledger :=
  ⟨h.toSearched.signalled, h.plans_nodup, h.plans_for⟩

/-- `searchOf? c i = some s` when the `i`-th worker is attempting the search `s`. -/
theorem searchOf?_eq_some_iff {i : Nat} {s : Search} :
    searchOf? c i = some s ↔ ∃ w, c.workers[i]? = some w ∧ w.stage = .attempting s := by
  rw [searchOf?]
  cases c.workers[i]? with
  | none => simp
  | some w => cases hs : w.stage <;> simp [hs]

/-- **Each step of the collection keeps what the searches have found**, when what the store gives in `e` is noted in
`given`. -/
theorem Searched.of_carries (h : Searched given plans c ledger) (hce : Carries a plans c e ce)
    (hstep : c.step ce = some c')
    (hgiven : ∀ i s key bytes, searchOf? c i = some s → s.asked? = some key →
      e = .search i (.readerObject (.ok bytes)) → given key bytes) :
    ∃ ledger', Searched given plans c' ledger' := by
  -- a worker gets on with a search that has found such runs
  have hput : ∀ {i : Nat} {w w' : Worker Search}, c.workers[i]? = some w → w.isFinished = false →
      w'.isFinished = false → w'.job = w.job → WorkerFinds given plans i w' →
      ∃ ledger', Searched given plans (c.put i w') ledger' := by
    intro i w w' hw hlive hlive' hjob hfinds
    have htold := h.told.shift (.went hw hlive hlive' hjob)
    rw [Option.toList_none, List.append_nil] at htold
    exact ⟨ledger, htold, h.guards.put hfinds⟩
  -- a worker finishes with such runs
  have hfinish : ∀ {i : Nat} {w : Worker Search} {answer : Outcome}, c.workers[i]? = some w →
      w.isFinished = false → AnswerFound given plans i answer →
      ∃ ledger', Searched given plans (c.finish i w answer) ledger' := by
    intro i w answer hw hlive hanswer
    have hfinished : WorkerFinds given plans i { w with stage := .finished } :=
      fun s hs => absurd hs (by simp)
    exact ⟨_, h.told.shift (.ended answer hw hlive), h.guards.finish hfinished hanswer⟩
  -- a new search has found nothing yet
  have hnew : ∀ {i : Nat} {plan : SearchPlan} {w : Worker Search}, plans[i]? = some plan →
      WorkerFinds given plans i { w with attempts := w.attempts + 1, stage := .attempting (a.newSearch plan) } := by
    intro i plan w hplan s hs
    obtain rfl := WorkerStage.attempting.inj hs
    exact ⟨plan, hplan, .seeding rfl rfl⟩
  cases hce with
  | launch hplan =>
    cases Collection.moves_of_step hstep with
    | begun hw hs => exact hput hw (by rw [Worker.isFinished, hs]) rfl rfl (hnew hplan)
  | resume hplan =>
    cases Collection.moves_of_step hstep with
    | resumed hw hs => exact hput hw (by rw [Worker.isFinished, hs]) rfl rfl (hnew hplan)
  | @search i se s s' he hsearch hse =>
    cases Collection.moves_of_step hstep with
    | @advanced i w old attempt hw hs =>
      refine hput hw (by rw [Worker.isFinished, hs]) rfl rfl fun s₁ hs₁ => ?_
      obtain rfl := WorkerStage.attempting.inj hs₁
      obtain ⟨v, hv, hvs⟩ := searchOf?_eq_some_iff.1 hsearch
      obtain rfl : v = w := Option.some.inj (hv.symm.trans hw)
      obtain ⟨plan, hplan, hfinds⟩ := h.guards.workers i v hw s hvs
      exact ⟨plan, hplan, hfinds.of_step hse fun key bytes hasked heq =>
        hgiven i s key bytes hsearch hasked (by rw [heq])⟩
  | @settle i s outcome hsearch ho =>
    obtain ⟨v, hv, hvs⟩ := searchOf?_eq_some_iff.1 hsearch
    cases Collection.moves_of_step hstep with
    | @answered i w attempt _ answer hw hs hj =>
      refine hfinish hw (by rw [Worker.isFinished, hs]) fun runs hruns => ?_
      subst hruns
      obtain rfl := RetryPolicy.eq_ok_of_judge hj
      obtain ⟨plan, hplan, hfinds⟩ := h.guards.workers i v hv s hvs
      exact ⟨plan, hplan, hfinds.found_of_result? ho⟩
    | failed hw hs hj =>
      exact hput hw (by rw [Worker.isFinished, hs]) rfl rfl fun s hs => absurd hs (by simp)
  | notice =>
    cases Collection.moves_of_step hstep with
    | noticed hw hc hactive =>
      exact hfinish hw (Collection.not_isFinished_of_isActive hactive) fun runs hruns => absurd hruns (by simp)

/-- Each step of the collection keeps that it is one for a release payload: the plans stay as they are. -/
theorem Gathering.of_carries (h : Gathering o tag given plans c ledger) (hce : Carries a plans c e ce)
    (hstep : c.step ce = some c')
    (hgiven : ∀ i s key bytes, searchOf? c i = some s → s.asked? = some key →
      e = .search i (.readerObject (.ok bytes)) → given key bytes) :
    ∃ ledger', Gathering o tag given plans c' ledger' :=
  (h.toSearched.of_carries hce hstep hgiven).imp fun _ hsearched => ⟨hsearched, h.plans_nodup, h.plans_for⟩

/-! ## What is collected -/

/-- No run of a job is found twice: the runs of one search have one job and different ids. -/
theorem nodup_of_found {plan : SearchPlan} {runs : List JobRun} (h : Found given plan runs) :
    (runs.map fun r => (r.jobName, r.runId)).Nodup := by
  have hid := h.nodup
  rw [show (fun r : JobRun => r.runId) = Prod.snd ∘ fun r => (r.jobName, r.runId) from rfl, ← List.map_map] at hid
  exact hid.of_map _

/-- An entry `p` of the ledger with runs has found them by the plan in its place, `plans[p.1]?`. -/
theorem Searched.found (h : Searched given plans c ledger) {p : Nat × Outcome} (hp : p ∈ ledger)
    {run : JobRun} (hrun : run ∈ runsOf p.2) : ∃ plan, plans[p.1]? = some plan ∧ Found given plan (runsOf p.2) := by
  cases hanswer : p.2 with
  | error f =>
    rw [hanswer] at hrun
    exact absurd hrun (by simp [runsOf])
  | ok runs => exact h.guards.entries p hp runs hanswer

/-- A `run` that a collection answers was found by one of its `plans`, together with the other runs of that search. -/
theorem Searched.exists_found (h : Searched given plans c ledger) {runs : List JobRun}
    (ho : c.outcome? = some (.ok runs)) {run : JobRun} (hrun : run ∈ runs) :
    ∃ plan ∈ plans, ∃ found, run ∈ found ∧ Found given plan found := by
  obtain ⟨-, rfl⟩ := Collection.eq_of_outcome?_ok ho
  rw [h.told.results_eq, List.flatMap_map] at hrun
  obtain ⟨p, hp, hrun⟩ := List.mem_flatMap.1 hrun
  obtain ⟨plan, hplan, hf⟩ := h.found hp hrun
  exact ⟨plan, List.mem_of_getElem? hplan, _, hrun, hf⟩

/-- A `run` that a collection answers belongs to one of its `plans`. -/
theorem Searched.exists_plan (h : Searched given plans c ledger) {runs : List JobRun}
    (ho : c.outcome? = some (.ok runs)) {run : JobRun} (hrun : run ∈ runs) :
    ∃ plan ∈ plans, Belongs given plan run := by
  obtain ⟨plan, hplan, found, hmem, hfound⟩ := h.exists_found ho hrun
  exact ⟨plan, hplan, hfound.belongs run hmem⟩

/-- Runs of two different entries `p` and `q` are runs of two jobs, when no two plans are for the same one. -/
theorem Searched.jobName_ne (h : Searched given plans c ledger) (hplans : (plans.map (·.job)).Nodup)
    {p q : Nat × Outcome} (hp : p ∈ ledger) (hq : q ∈ ledger) (hne : p.1 ≠ q.1) {run run' : JobRun}
    (hrun : run ∈ runsOf p.2) (hrun' : run' ∈ runsOf q.2) : run.jobName ≠ run'.jobName := by
  obtain ⟨plan, hplan, hf⟩ := h.found hp hrun
  obtain ⟨plan', hplan', hf'⟩ := h.found hq hrun'
  rw [(hf.belongs run hrun).jobName_eq, (hf'.belongs run' hrun').jobName_eq]
  obtain ⟨hi, rfl⟩ := List.getElem?_eq_some_iff.1 hplan
  obtain ⟨hj, rfl⟩ := List.getElem?_eq_some_iff.1 hplan'
  have hlength : (plans.map (·.job)).length = plans.length := List.length_map _
  intro hjob
  have hsame : (plans.map (·.job))[p.1] = (plans.map (·.job))[q.1] := by
    rw [List.getElem_map, List.getElem_map]
    exact hjob
  exact hne (hplans.getElem_inj_iff.1 hsame)

/-- **No run of a job is answered twice**, when no two plans are for the same job: the pairs of `jobName` and `runId`
differ. -/
theorem Searched.nodup (h : Searched given plans c ledger) (hplans : (plans.map (·.job)).Nodup)
    {runs : List JobRun} (ho : c.outcome? = some (.ok runs)) : (runs.map fun r => (r.jobName, r.runId)).Nodup := by
  obtain ⟨-, rfl⟩ := Collection.eq_of_outcome?_ok ho
  rw [h.told.results_eq, List.flatMap_map, List.map_flatMap, List.nodup_flatMap]
  refine ⟨fun p hp => ?_, ?_⟩
  · by_cases hnone : runsOf p.2 = []
    · rw [hnone]
      exact List.nodup_nil
    · obtain ⟨run, hrun⟩ := List.exists_mem_of_ne_nil _ hnone
      obtain ⟨plan, -, hf⟩ := h.found hp hrun
      exact nodup_of_found hf
  · have hpairwise : ledger.Pairwise fun p q => p.1 ≠ q.1 := List.pairwise_map.1 h.told.nodup
    refine hpairwise.imp_of_mem fun {p q} hp hq hne => ?_
    rintro ⟨job, id⟩ hmemp hmemq
    obtain ⟨run, hrun, heq⟩ := List.mem_map.1 hmemp
    obtain ⟨run', hrun', heq'⟩ := List.mem_map.1 hmemq
    exact h.jobName_ne hplans hp hq hne hrun hrun' ((Prod.mk.inj heq).1.trans (Prod.mk.inj heq').1.symm)

/-- **What a collection answers is collected**: `c.outcome? = some (.ok runs)` gives `Collected o tag given runs`. -/
theorem Gathering.collected (h : Gathering o tag given plans c ledger) {runs : List JobRun}
    (ho : c.outcome? = some (.ok runs)) : Collected o tag given runs := by
  refine ⟨h.nodup h.plans_nodup ho, fun run hrun => ?_⟩
  obtain ⟨plan, hplan, hbelongs⟩ := h.exists_plan ho hrun
  exact ofPayload_of_belongs (h.plans_for plan hplan) hbelongs

end PayloadGate.Analysis
