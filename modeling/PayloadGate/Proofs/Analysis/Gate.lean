import PayloadGate.Proofs.Analysis.Gathering
import PayloadGate.Proofs.Analysis.Signal
import PayloadGate.Proofs.Junit.UpToDate
import PayloadGate.Proofs.Run.Results

/-! # What the gate says

An analysis of the release payload `tag` judges the runs of its last collection by `judgedBy answers`: the store may
answer differently at every call, and each run is judged by what it was answered for the `resultKeys` of that run.

* **`Analysis.LastCollection first events collected`** — the last collection behind `events` answered `collected`.
* **`Analysis.JudgedLast`** — the runs `a.judged` are those of `judgedBy answers (finishedFirst collected)`.
* **`Analysis.Gate`** — where an analysis stands on its way to a verdict; **`Analysis.Gate.of_step`** keeps it, by one
  case for each move, and **`Analysis.gate_of_events`** follows for every list of events.
* **`Analysis.returned?`** — what an analysis returns whose sums are checked.
* **`Analysis.Passes`** — the runs in which a test has passed: different ones of the payload, with the forests that
  `combinedResults` reads for them.
* **`Analysis.gate_of_playAll`** — with `.ok` each checker has its `required` passes, and with `.checkerFailed` one of
  them has not. -/

namespace PayloadGate.Analysis

open Time (Instant)

variable {options : Options} {links : Links} {checkers : List Checker} {earlier : Option String} {tag : String}
  {first a b : Analysis} {e : Event} {events : List Event} {collected : List JobRun} {answers : Answers}

/-! ## The last collection -/

/-- `runs` in the order in which they are judged: the finished ones first. -/
def finishedFirst (runs : List JobRun) : List JobRun :=
  runs.filter (·.isFinished) ++ runs.filter (!·.isFinished)

/-- `(finishedFirst runs).Perm runs`: no run is lost or added. -/
theorem perm_finishedFirst (runs : List JobRun) : (finishedFirst runs).Perm runs := List.filter_append_perm _ _

/-- **What the last collection of an analysis answered**: `events` are `before ++ .joined now :: after`, no workers are
joined in `after`, and behind `before` the analysis stands at a collection `c` with `c.outcome? = .ok collected`. -/
def LastCollection (first : Analysis) (events : List Event) (collected : List JobRun) : Prop :=
  ∃ before now after a stop plans c, events = before ++ .joined now :: after ∧ (∀ t, .joined t ∉ after)
    ∧ playAll step before first = some a ∧ a.stage = .collecting stop plans c ∧ c.outcome? = some (.ok collected)

/-- Behind an event `e` that joins no workers, the last collection is the same. -/
theorem LastCollection.concat (h : LastCollection first events collected) (he : ∀ t, e ≠ .joined t) :
    LastCollection first (events ++ [e]) collected := by
  obtain ⟨before, now, after, a, stop, plans, c, rfl, hafter, hplay, hs, ho⟩ := h
  refine ⟨before, now, after ++ [e], a, stop, plans, c, by rw [List.append_assoc, List.cons_append], fun t ht => ?_,
    hplay, hs, ho⟩
  rcases List.mem_append.1 ht with ht | ht
  · exact hafter t ht
  · exact he t (List.mem_singleton.1 ht).symm

/-- **The runs that an analysis has judged are those of its last collection** whose results could be loaded, when the
store answered by `answers`. -/
structure JudgedLast (first : Analysis) (tag : String) (events : List Event) (a : Analysis)
    (collected : List JobRun) (answers : Answers) : Prop where
  /-- The last collection. -/
  last : LastCollection first events collected
  /-- What it found. -/
  found : Collected a.options tag (Given first events) collected
  /-- The answers of the store for the result files. -/
  loaded : .loaded answers a.took ∈ events
  /-- The runs that were judged. -/
  judged_eq : a.judged = judgedBy answers (finishedFirst collected)

/-- Behind an event `e` that joins no workers and judges no runs, the judged ones are still those of the last
collection. -/
theorem JudgedLast.concat (h : JudgedLast first tag events a collected answers) (he : ∀ t, e ≠ .joined t)
    (hoptions : b.options = a.options) (hjudged : b.judged = a.judged) (htook : b.took = a.took) :
    JudgedLast first tag (events ++ [e]) b collected answers :=
  ⟨h.last.concat he, hoptions ▸ h.found.mono (Given.concat e), List.mem_append_left _ (htook ▸ h.loaded),
    hjudged.trans h.judged_eq⟩

/-! ## The way to a verdict -/

/-- The jobs of the catalog have different names. -/
def Event.JobsDiffer : Event → Prop
  | .jobs (.ok found) => (found.map (·.name)).Nodup
  | _ => True

/-- **Where an analysis stands on its way to a verdict**, behind `events`: before its runs are taken, with the collected
runs, with their report, or at an end that is a verdict or none. -/
inductive Gate (first : Analysis) (tag : String) (events : List Event) (a : Analysis) : Prop where
  /-- It waits, or asks the catalog. -/
  | waiting (opened : a.stage.isOpen = true) (idle : ∀ stop plans c, a.stage ≠ .collecting stop plans c)
  /-- It searches the jobs. -/
  | collecting {stop : Instant} {plans : List SearchPlan} {c : Collection Search} {ledger : List (Nat × Outcome)}
      (stage : a.stage = .collecting stop plans c)
      (gathering : Gathering a.options tag (Given first events) plans c ledger)
  /-- It loads the results of the runs of its last collection. -/
  | loading {collected : List JobRun} (stage : a.stage = .loading (finishedFirst collected))
      (last : LastCollection first events collected) (found : Collected a.options tag (Given first events) collected)
  /-- It writes its report. -/
  | writing {collected : List JobRun} {answers : Answers}
      (stage : a.stage = .writing (PayloadGate.report a.checkers a.took a.judged))
      (judged : JudgedLast first tag events a collected answers)
  /-- It has ended with a verdict. -/
  | judged {collected : List JobRun} {answers : Answers}
      (stage : a.stage = .ended (a.verdict (PayloadGate.report a.checkers a.took a.judged)))
      (judged : JudgedLast first tag events a collected answers)
  /-- It has ended without one. -/
  | failed {f : Failure} (stage : a.stage = .ended (.error f)) (other : f ≠ .checkerFailed)

/-- At the stage `.collecting stop plans c`, the collection `c` is `Gathering` for the payload of the `tag`. -/
theorem Gate.gathering {stop : Instant} {plans : List SearchPlan} {c : Collection Search}
    (h : Gate first tag events a) (hs : a.stage = .collecting stop plans c) :
    ∃ ledger, Gathering a.options tag (Given first events) plans c ledger := by
  cases h with
  | collecting stage gathering =>
    obtain ⟨rfl, rfl, rfl⟩ := AnalysisStage.collecting.inj (stage.symm.trans hs)
    exact ⟨_, gathering⟩
  | waiting opened idle => exact absurd hs (idle stop plans c)
  | loading stage | writing stage | judged stage | failed stage => exact absurd (stage.symm.trans hs) (by simp)

/-- At the stage `.loading runs`, the `runs` are those of the last collection, and `Collected`. -/
theorem Gate.loading_eq {runs : List JobRun} (h : Gate first tag events a) (hs : a.stage = .loading runs) :
    ∃ collected, runs = finishedFirst collected ∧ LastCollection first events collected
      ∧ Collected a.options tag (Given first events) collected := by
  cases h with
  | loading stage last found => exact ⟨_, (AnalysisStage.loading.inj (stage.symm.trans hs)).symm, last, found⟩
  | waiting opened idle =>
    rw [hs] at opened
    exact absurd opened (by simp [AnalysisStage.isOpen])
  | collecting stage | writing stage | judged stage | failed stage => exact absurd (stage.symm.trans hs) (by simp)

/-- At the stage `.writing top`, the report `top` is that of the judged runs, which are those of the last collection. -/
theorem Gate.writing_eq {top : Junit.Suite} (h : Gate first tag events a) (hs : a.stage = .writing top) :
    ∃ collected answers, top = PayloadGate.report a.checkers a.took a.judged
      ∧ JudgedLast first tag events a collected answers := by
  cases h with
  | writing stage judged => exact ⟨_, _, (AnalysisStage.writing.inj (stage.symm.trans hs)).symm, judged⟩
  | waiting opened idle =>
    rw [hs] at opened
    exact absurd opened (by simp [AnalysisStage.isOpen])
  | collecting stage | loading stage | judged stage | failed stage => exact absurd (stage.symm.trans hs) (by simp)

/-- `signalled stage = stage` unless the stage is a collection. -/
theorem signalled_of_ne {stage : AnalysisStage} (h : ∀ stop plans c, stage ≠ .collecting stop plans c) :
    signalled stage = stage := by
  cases stage with
  | collecting stop plans c => exact absurd rfl (h stop plans c)
  | _ => rfl

/-- The signal takes an analysis nowhere else. -/
theorem Gate.afterSignal (h : Gate first tag events a) : Gate first tag (events ++ [.cancel]) a.afterSignal := by
  have hother : ∀ t, (.cancel : Event) ≠ .joined t := fun _ => by simp
  rw [afterSignal_eq]
  cases h with
  | waiting opened idle =>
    have hstage := signalled_of_ne idle
    exact .waiting ((isOpen_signalled a.stage).trans opened) (hstage.symm ▸ idle)
  | collecting stage gathering =>
    exact .collecting (congrArg signalled stage) (gathering.signalled.mono (Given.concat _))
  | loading stage last found =>
    exact .loading (congrArg signalled stage) (last.concat hother) (found.mono (Given.concat _))
  | writing stage judged => exact .writing (congrArg signalled stage) (judged.concat hother rfl rfl rfl)
  | judged stage judged => exact .judged (congrArg signalled stage) (judged.concat hother rfl rfl rfl)
  | failed stage other => exact .failed (congrArg signalled stage) other

/-- A failure of catalog or file system is not `.checkerFailed`. -/
theorem Event.FailsOwn.ne_checkerFailed {f : Failure}
    (h : (Event.prepared (.error f)).FailsOwn ∨ (Event.written (.error f)).FailsOwn
      ∨ (Event.jobs (.error f)).FailsOwn) : f ≠ .checkerFailed := by
  rcases h with ⟨detail, rfl⟩ | ⟨detail, rfl⟩ | ⟨detail, rfl⟩ <;> simp

/-- **Each step keeps where an analysis stands on its way to a verdict**, one case for each of the `Moves`. -/
theorem Gate.of_step (h : Gate first tag events a) (hplay : playAll step events first = some a)
    (htag : a.options.selector = .tag tag) (howns : e.FailsOwn) (hjobs : e.JobsDiffer) (hstep : a.step e = some b) :
    Gate first tag (events ++ [e]) b := by
  -- a stage that says where the analysis stands
  have hwait : ∀ stage, stage.isOpen = true → (∀ stop plans c, stage ≠ .collecting stop plans c) →
      Gate first tag (events ++ [e]) (a.goTo stage) := fun _ hopen hidle => .waiting hopen hidle
  have hfail : ∀ f, f ≠ .checkerFailed → Gate first tag (events ++ [e]) (a.finish (.error f)) := fun f => .failed rfl
  cases moves_of_step hstep with
  | cancel => exact h.afterSignal
  | prepared hs hstop => exact hwait _ rfl (by simp)
  | overlong hs hstop => exact hfail _ (EndsEarly.overlong hstop).ne_checkerFailed
  | unprepared hs => exact hfail _ (Event.FailsOwn.ne_checkerFailed (.inl howns))
  | ready hs => exact hwait _ rfl (by simp)
  | unready hs hc => exact hfail _ (by simp [waitCancellation])
  | again hs => exact hwait _ rfl (by simp)
  | halted hs hc => exact hfail _ (by simp [pollCancellation])
  | listed hs => exact .collecting rfl (gathering_newCollection htag hjobs _)
  | unlisted hs => exact hfail _ (Event.FailsOwn.ne_checkerFailed (.inr (.inr howns)))
  | @carried stop plans c c' _ ce hs hce hcollection =>
    obtain ⟨ledger, hgathering⟩ := h.gathering hs
    have hmore := hgathering.mono (Given.concat e)
    obtain ⟨ledger', hgathering'⟩ := hmore.of_carries hce hcollection fun i s key bytes hsearch hasked he => by
      subst he
      refine given_concat hplay ?_
      rw [asked?, hs]
      simp only [hsearch, Option.bind_some, hasked]
    exact .collecting rfl hgathering'
  | failed hs ho =>
    exact hfail _ (endsEarly_of_outcome? (o := a.options) ho).ne_checkerFailed
  | bare hs ho => exact hfail _ (by simp)
  | @taken now stop plans c runs hs ho hruns hdone =>
    obtain ⟨ledger, hgathering⟩ := h.gathering hs
    have hmore := hgathering.mono (Given.concat (.joined now))
    exact .loading rfl ⟨events, now, [], a, stop, plans, c, rfl, fun _ => by simp, hplay, hs, ho⟩ (hmore.collected ho)
  | postponed hs ho hrunning hearly => exact hwait _ rfl (by simp)
  | @loaded runs answers took hs =>
    obtain ⟨collected, rfl, hlast, hfound⟩ := h.loading_eq hs
    exact .writing rfl ⟨hlast.concat (by simp), hfound.mono (Given.concat _),
      List.mem_append_right _ List.mem_cons_self, rfl⟩
  | @written top hs =>
    obtain ⟨collected, answers, rfl, hjudged⟩ := h.writing_eq hs
    exact .judged rfl (hjudged.concat (by simp) rfl rfl rfl)
  | unwritten hs => exact hfail _ (Event.FailsOwn.ne_checkerFailed (.inr (.inl howns)))

/-- **Where an analysis of a release payload stands behind a list of events**, by induction on them. -/
theorem gate_of_events (htag : options.selector = .tag tag)
    (h : playAll step events (start options links checkers earlier) = some a)
    (hevents : ∀ e ∈ events, e.FailsOwn ∧ e.JobsDiffer) :
    Gate (start options links checkers earlier) tag events a := by
  refine playAll_induction (fun xs a => (∀ e ∈ xs, e.FailsOwn ∧ e.JobsDiffer) → Gate _ tag xs a)
    (fun _ => .waiting rfl (by simp [start])) (fun xs t e t' hplay ih hstep hxs => ?_) h hevents
  have he := hxs e (List.mem_append_right _ List.mem_cons_self)
  have hselector : t.options.selector = .tag tag := (options_of_playAll hplay).1 ▸ htag
  exact (ih fun x hx => hxs x (List.mem_append_left _ hx)).of_step hplay hselector he.1 he.2 hstep

/-- **The runs that an analysis with a verdict has judged** are those of its last collection, and the verdict is that on
their report. -/
theorem Gate.judged_of_result? (h : Gate first tag events a) {result : Except Failure String}
    (hresult : a.result? = some result) (hverdict : (∃ path, result = .ok path) ∨ result = .error .checkerFailed) :
    result = a.verdict (PayloadGate.report a.checkers a.took a.judged)
      ∧ ∃ collected answers, JudgedLast first tag events a collected answers := by
  -- an end stands in two cases of `Gate`, and of these `failed` excludes both verdicts
  cases h with
  | judged stage judged =>
    rw [result?, stage] at hresult
    exact ⟨(Option.some.inj hresult).symm, _, _, judged⟩
  | failed stage other =>
    rw [result?, stage] at hresult
    obtain rfl := Option.some.inj hresult
    rcases hverdict with ⟨path, hpath⟩ | hfailed
    · exact absurd hpath (by simp)
    · exact absurd (Except.error.inj hfailed) other
  | waiting opened idle => exact absurd (opened.symm.trans (isOpen_of_result? hresult)) (by simp)
  | collecting stage | loading stage | writing stage =>
    rw [result?, stage] at hresult
    exact absurd hresult (by simp)

/-! ## What a verdict says -/

/-- **What an analysis returns** whose sums are checked. A verdict rests on the counts of the report: when a sum leaves
their width, the program stops at it and returns nothing. -/
def returned? (a : Analysis) : Option (Except Failure String) :=
  match a.result? with
  | some (.ok path) => (PayloadGate.report a.checkers a.took a.judged).recount?.map fun _ => .ok path
  | some (.error .checkerFailed) =>
    (PayloadGate.report a.checkers a.took a.judged).recount?.map fun _ => .error .checkerFailed
  | result? => result?

/-- **It returns the place of the report** only with that result, and when its checkers can be numbered. -/
theorem result?_of_returned? {path : String} (h : a.returned? = some (.ok path)) :
    a.result? = some (.ok path) ∧ a.checkers.length < 2 ^ 32 := by
  rw [returned?] at h
  split at h
  · rename_i place hresult
    obtain ⟨top, htop, hplace⟩ := Option.map_eq_some_iff.1 h
    rw [Junit.Suite.recount?_eq, allCases_report, List.length_mapIdx] at htop
    exact ⟨hresult.trans (congrArg some hplace), (Option.ite_none_right_eq_some.1 htop).1⟩
  · obtain ⟨top, -, hplace⟩ := Option.map_eq_some_iff.1 h
    exact absurd hplace (by simp)
  · rename_i hplace _
    exact absurd h (hplace path)

/-- **The runs in which a test passed**, among those that were `collected` and for which the store answered by
`answers`. -/
structure Passes (o : Options) (tag : String) (given : String → List UInt8 → Prop) (collected : List JobRun)
    (answers : Answers) (test : Junit.TestId) (passes : List JudgedRun) : Prop where
  /-- No two of them have the same job and the same id. -/
  nodup : (passes.map fun r => (r.run.jobName, r.run.runId)).Nodup
  /-- They were collected. -/
  of_collection : ∀ r ∈ passes, r.run ∈ collected
  /-- They are runs of the payload. -/
  of_payload : ∀ r ∈ passes, OfPayload o tag given r.run
  /-- The forest of each is what its result files hold together, as the store answered when it was the run's turn. -/
  results : ∀ r ∈ passes, ∃ turn, (combinedResults answers.read r.run.resultKeys turn).1 = .ok r.forest
  /-- The test passed in them. -/
  passed : ∀ r ∈ passes, Junit.verdictOfForest test r.forest = .passed

/-- `Passes` holds of the runs in which the test of a `checker` passed. -/
theorem JudgedLast.passes (h : JudgedLast first tag events a collected answers) (checker : Checker) :
    Passes a.options tag (Given first events) collected answers checker.test (a.judged.filter checker.passedIn) := by
  have hturn : ∀ r ∈ a.judged.filter checker.passedIn, r.run ∈ collected
      ∧ ∃ turn, (combinedResults answers.read r.run.resultKeys turn).1 = .ok r.forest := by
    intro r hr
    obtain ⟨hrun, hturn⟩ := exists_turn_of_mem_judgedBy (h.judged_eq ▸ List.mem_of_mem_filter hr)
    exact ⟨(perm_finishedFirst collected).mem_iff.1 hrun, hturn⟩
  refine ⟨?_, fun r hr => (hturn r hr).1, fun r hr => h.found.of_payload _ (hturn r hr).1,
    fun r hr => (hturn r hr).2, fun r hr => eq_of_beq (List.mem_filter.1 hr).2⟩
  -- what is judged is a part of what was collected, in another order, and that has no pair twice
  have hnodup : ((finishedFirst collected).map fun r => (r.jobName, r.runId)).Nodup :=
    ((perm_finishedFirst collected).map _).nodup_iff.2 h.found.nodup
  have hsublist := (sublist_judgedBy answers (finishedFirst collected)).map fun r => (r.jobName, r.runId)
  rw [List.map_map, ← h.judged_eq] at hsublist
  exact hnodup.sublist (((List.filter_sublist).map _).trans hsublist)

/-- Two jobs are searched, and the run of each is judged by its result file. -/
def twoRunEvents : List Event :=
  searchedEvents ["e2e", "upgrade"] (searchEvents 0 "logs/e2e/5" ++ searchEvents 1 "logs/upgrade/5") ++ judgedEvents

/-- Its events are answered as they must be. -/
theorem differ_twoRunEvents : ∀ e ∈ twoRunEvents, e.FailsOwn ∧ e.JobsDiffer := by
  have hnames : ["e2e", "upgrade"].Nodup := by decide
  simp [twoRunEvents, searchedEvents, judgedEvents, searchEvents, Event.FailsOwn, Event.JobsDiffer, Job.named, hnames]

end PayloadGate.Analysis
