import PayloadGate.Analysis
import PayloadGate.Proofs.System.Course

/-! # What can happen to an analysis

What a step of an analysis keeps is read off one list, which holds all that can happen.

* **`Analysis.Carries`** — the events that are steps of the collection of an analysis.
* **`Analysis.Moves`**, **`Analysis.step_eq_some_iff`** — the steps of an analysis.
* **`Analysis.afterSignal_eq`**, **`Analysis.options_of_step`** — what stays. -/

namespace PayloadGate.Analysis

open Time (Instant)

variable {a b : Analysis} {e : Event}

-- events that a stage does not admit are closed by evaluation
attribute [local simp] step

/-! ## What steps are made of -/

/-- The plans for `jobs`, in their order. A job without a directory is not searched. -/
def plansFor (a : Analysis) (jobs : List Job) : List SearchPlan :=
  jobs.filterMap (a.options.searchPlan? a.links)

/-- The collection by `plans`. It has the signal when the analysis `a` has it. -/
def newCollection (a : Analysis) (plans : List SearchPlan) : Collection Search :=
  { Collection.start a.options.maxJobs a.options.retry (plans.map (·.job)) with cancelled := a.cancelled }

/-! ## The steps -/

/-- **The events that are steps of the collection of an analysis**: `Carries a plans c e ce` when `e` happens to the
collection `c` as `ce`. -/
inductive Carries (a : Analysis) (plans : List SearchPlan) (c : Collection Search) :
    Event → Collection.Event Search → Prop where
  /-- A worker gets a permit and begins its first search. -/
  | launch {i : Nat} {plan : SearchPlan} (hplan : plans[i]? = some plan) :
      Carries a plans c (.launch i) (.begin i (a.newSearch plan))
  /-- Something other than the signal happens to the search of a worker. -/
  | search {i : Nat} {se : Search.Event} {s s' : Search} (he : se.isCancel = false)
      (hs : searchOf? c i = some s) (hstep : s.step se = some s') :
      Carries a plans c (.search i se) (.advance i s')
  /-- A worker takes the outcome of its search. -/
  | settle {i : Nat} {s : Search} {o : Outcome} (hs : searchOf? c i = some s) (ho : s.result? = some o) :
      Carries a plans c (.settle i) (.outcome i o)
  /-- A worker begins its next search. -/
  | resume {i : Nat} {plan : SearchPlan} (hplan : plans[i]? = some plan) :
      Carries a plans c (.resume i) (.resume i (a.newSearch plan))
  /-- A worker notices the signal. -/
  | notice {i : Nat} : Carries a plans c (.notice i) (.notice i)

/-- None of them gives the signal to the collection. -/
theorem Carries.ne_cancel {plans : List SearchPlan} {c : Collection Search} {ce : Collection.Event Search}
    (h : Carries a plans c e ce) : ce ≠ .cancel := by
  cases h <;> simp

/-- **The steps of an analysis**: `Moves a e b`, with one constructor for each stage and each event that is possible
there. -/
inductive Moves (a : Analysis) : Event → Analysis → Prop where
  /-- The signal is given. -/
  | cancel : Moves a .cancel a.afterSignal
  /-- The output directory is there. -/
  | prepared {stop : Instant} (hs : a.stage = .preparing) (hstop : a.options.stopAt = .ok stop) :
      Moves a (.prepared (.ok ())) (a.goTo (.readying stop))
  /-- The output directory is there, but the timeout is too long. -/
  | overlong {f : Failure} (hs : a.stage = .preparing) (hstop : a.options.stopAt = .error f) :
      Moves a (.prepared (.ok ())) (a.finish (.error f))
  /-- The output directory could not be made. -/
  | unprepared {f : Failure} (hs : a.stage = .preparing) : Moves a (.prepared (.error f)) (a.finish (.error f))
  /-- The time has come. -/
  | ready {stop : Instant} (hs : a.stage = .readying stop) : Moves a .ready (a.goTo (.polling stop))
  /-- The signal is noticed in the wait. -/
  | unready {stop : Instant} (hs : a.stage = .readying stop) (hc : a.cancelled = true) :
      Moves a .stop (a.finish (.error (waitCancellation a.options.readyAt)))
  /-- The pause between polls is over. -/
  | again {stop : Instant} (hs : a.stage = .pausing stop) : Moves a .again (a.goTo (.polling stop))
  /-- The signal is noticed in the pause. -/
  | halted {stop : Instant} (hs : a.stage = .pausing stop) (hc : a.cancelled = true) :
      Moves a .stop (a.finish (.error pollCancellation))
  /-- The catalog has told the jobs. -/
  | listed {stop : Instant} {jobs : List Job} (hs : a.stage = .polling stop) :
      Moves a (.jobs (.ok jobs))
        (a.goTo (.collecting stop (a.plansFor jobs) (a.newCollection (a.plansFor jobs))))
  /-- The catalog has failed. -/
  | unlisted {stop : Instant} {f : Failure} (hs : a.stage = .polling stop) :
      Moves a (.jobs (.error f)) (a.finish (.error f))
  /-- The collection takes a step. -/
  | carried {stop : Instant} {plans : List SearchPlan} {c c' : Collection Search} {e : Event}
      {ce : Collection.Event Search} (hs : a.stage = .collecting stop plans c) (hce : Carries a plans c e ce)
      (hstep : c.step ce = some c') : Moves a e (a.goTo (.collecting stop plans c'))
  /-- The collection has failed. -/
  | failed {now stop : Instant} {plans : List SearchPlan} {c : Collection Search} {f : Failure}
      (hs : a.stage = .collecting stop plans c) (ho : c.outcome? = some (.error f)) :
      Moves a (.joined now) (a.finish (.error f))
  /-- No runs were found. -/
  | bare {now stop : Instant} {plans : List SearchPlan} {c : Collection Search}
      (hs : a.stage = .collecting stop plans c) (ho : c.outcome? = some (.ok [])) :
      Moves a (.joined now) (a.finish (.error .noRelatedJobs))
  /-- All runs are finished, or it is too late to wait for the others. -/
  | taken {now stop : Instant} {plans : List SearchPlan} {c : Collection Search} {runs : List JobRun}
      (hs : a.stage = .collecting stop plans c) (ho : c.outcome? = some (.ok runs)) (hruns : runs ≠ [])
      (hdone : runs.filter (!·.isFinished) = [] ∨ stop < now) :
      Moves a (.joined now)
        (a.goTo (.loading (runs.filter (·.isFinished) ++ runs.filter (!·.isFinished))))
  /-- Some runs are not finished, and there is time to wait for them. -/
  | postponed {now stop : Instant} {plans : List SearchPlan} {c : Collection Search} {runs : List JobRun}
      (hs : a.stage = .collecting stop plans c) (ho : c.outcome? = some (.ok runs))
      (hrunning : runs.filter (!·.isFinished) ≠ []) (hearly : ¬ stop < now) :
      Moves a (.joined now) (a.goTo (.pausing stop))
  /-- The results of the runs are loaded, and checked. -/
  | loaded {runs : List JobRun} {answers : Answers} {took : Nat → Decimal.Binary64} (hs : a.stage = .loading runs) :
      Moves a (.loaded answers took) (a.afterLoading took (judgedBy answers runs))
  /-- The report is written. -/
  | written {top : Junit.Suite} (hs : a.stage = .writing top) :
      Moves a (.written (.ok ()))
        (({ a with report := some top.document } : Analysis).finish
          (if 0 < top.failures then .error .checkerFailed else .ok a.options.reportPath))
  /-- The report could not be written. -/
  | unwritten {top : Junit.Suite} {f : Failure} (hs : a.stage = .writing top) :
      Moves a (.written (.error f)) (a.finish (.error f))

/-- Each `Moves a e b` is a step: `a.step e = some b`. -/
theorem step_of_moves (h : Moves a e b) : a.step e = some b := by
  cases h with
  | cancel => simp only [step]
  | prepared hs hstop => simp only [step, hs, hstop, Except.bind, bind]
  | overlong hs hstop => simp only [step, hs, hstop, Except.bind, bind]
  | unprepared hs => simp only [step, hs, Except.bind, bind]
  | ready hs => simp only [step, hs]
  | unready hs hc => simp only [step, hs, hc, if_true]
  | again hs => simp only [step, hs]
  | halted hs hc => simp only [step, hs, hc, if_true]
  | listed hs => simp only [step, hs]; rfl
  | unlisted hs => simp only [step, hs]
  | carried hs hce hstep =>
    -- an event of the collection is looked up twice: at the plans or the search, and in `Collection.step`
    cases hce with
    | launch hplan =>
      simp only [step, hs, hplan, hstep, collect, Option.bind_eq_bind, Option.bind_some, Option.map_some]
    | search he hsearch hse =>
      simp only [step, hs, he, hsearch, hse, hstep, collect, Option.bind_eq_bind, Option.bind_some,
        Option.map_some, Bool.false_eq_true, if_false]
    | settle hsearch ho =>
      simp only [step, hs, hsearch, ho, hstep, collect, Option.bind_eq_bind, Option.bind_some, Option.map_some]
    | resume hplan =>
      simp only [step, hs, hplan, hstep, collect, Option.bind_eq_bind, Option.bind_some, Option.map_some]
    | notice => simp only [step, hs, hstep, collect, Option.map_some]
  | failed hs ho => simp only [step, hs, ho, Option.map_some, judgePoll, afterPoll]
  | bare hs ho => simp only [step, hs, ho, Option.map_some, judgePoll, judgeRuns_nil, afterPoll]
  | taken hs ho hruns hdone =>
    simp only [step, hs, ho, Option.map_some, judgePoll, judgeRuns_of_done hruns hdone, afterPoll]
  | postponed hs ho hrunning hearly =>
    simp only [step, hs, ho, Option.map_some, judgePoll, judgeRuns_of_running hrunning hearly, afterPoll]
  | loaded hs => simp only [step, hs]
  | written hs => simp only [step, hs]
  | unwritten hs => simp only [step, hs]

/-- `a.collect stop plans c? = some b` only when the event was possible, and then `b` has the collection `c'` that it
made. -/
theorem exists_of_collect {stop : Instant} {plans : List SearchPlan} {c? : Option (Collection Search)}
    (h : a.collect stop plans c? = some b) : ∃ c', c? = some c' ∧ b = a.goTo (.collecting stop plans c') := by
  obtain ⟨c', hc', rfl⟩ := Option.map_eq_some_iff.1 h
  exact ⟨c', hc', rfl⟩

/-- `c.outcome? = some o`, all workers have finished: the poll is judged by `judgePoll stop now o`. -/
theorem moves_of_outcome {stop now : Instant} {plans : List SearchPlan} {c : Collection Search} {o : Outcome}
    (hs : a.stage = .collecting stop plans c) (ho : c.outcome? = some o) :
    Moves a (.joined now) (a.afterPoll stop (judgePoll stop now o)) := by
  cases o with
  | error f => exact .failed hs ho
  | ok runs =>
    by_cases hruns : runs = []
    · subst hruns
      exact .bare hs ho
    · rw [judgePoll]
      by_cases hdone : runs.filter (!·.isFinished) = [] ∨ stop < now
      · rw [judgeRuns_of_done hruns hdone]
        exact .taken hs ho hruns hdone
      · obtain ⟨hrunning, hearly⟩ := not_or.1 hdone
        rw [judgeRuns_of_running hrunning hearly]
        exact .postponed hs ho hrunning hearly

/-- What happens at the stage `.collecting stop plans c`, while the jobs are searched. -/
theorem moves_of_collecting {stop : Instant} {plans : List SearchPlan} {c : Collection Search}
    (hs : a.stage = .collecting stop plans c) (he : e ≠ .cancel) (h : a.step e = some b) : Moves a e b := by
  cases e with
  | launch i =>
    simp only [step, hs] at h
    obtain ⟨plan, hplan, h⟩ := Option.bind_eq_some_iff.1 h
    obtain ⟨c', hstep, rfl⟩ := exists_of_collect h
    exact .carried hs (.launch hplan) hstep
  | search i se =>
    simp only [step, hs] at h
    by_cases hcancel : se.isCancel = true
    · simp only [hcancel, if_true] at h
      exact absurd h (by simp)
    · simp only [Bool.eq_false_iff.2 hcancel, Bool.false_eq_true, if_false] at h
      obtain ⟨s, hsearch, h⟩ := Option.bind_eq_some_iff.1 h
      obtain ⟨s', hse, h⟩ := Option.bind_eq_some_iff.1 h
      obtain ⟨c', hstep, rfl⟩ := exists_of_collect h
      exact .carried hs (.search (Bool.eq_false_iff.2 hcancel) hsearch hse) hstep
  | settle i =>
    simp only [step, hs] at h
    obtain ⟨s, hsearch, h⟩ := Option.bind_eq_some_iff.1 h
    obtain ⟨o, ho, h⟩ := Option.bind_eq_some_iff.1 h
    obtain ⟨c', hstep, rfl⟩ := exists_of_collect h
    exact .carried hs (.settle hsearch ho) hstep
  | resume i =>
    simp only [step, hs] at h
    obtain ⟨plan, hplan, h⟩ := Option.bind_eq_some_iff.1 h
    obtain ⟨c', hstep, rfl⟩ := exists_of_collect h
    exact .carried hs (.resume hplan) hstep
  | notice i =>
    simp only [step, hs] at h
    obtain ⟨c', hstep, rfl⟩ := exists_of_collect h
    exact .carried hs .notice hstep
  | joined now =>
    simp only [step, hs] at h
    obtain ⟨o, ho, rfl⟩ := Option.map_eq_some_iff.1 h
    exact moves_of_outcome hs ho
  | cancel => exact absurd rfl he
  | _ => simp [hs] at h

/-- What happens at the stage `.preparing`, when the output directory is made. -/
theorem moves_of_preparing (hs : a.stage = .preparing) (he : e ≠ .cancel)
    (h : a.step e = some b) : Moves a e b := by
  cases e with
  | prepared reply =>
    cases reply with
    | error f =>
      simp only [step, hs, Except.bind, bind] at h
      obtain rfl := Option.some.inj h
      exact .unprepared hs
    | ok u =>
      cases hstop : a.options.stopAt with
      | error f =>
        simp only [step, hs, hstop, Except.bind, bind] at h
        obtain rfl := Option.some.inj h
        exact .overlong hs hstop
      | ok stop =>
        simp only [step, hs, hstop, Except.bind, bind] at h
        obtain rfl := Option.some.inj h
        exact .prepared hs hstop
  | cancel => exact absurd rfl he
  | _ => simp [hs] at h

/-- What happens at the stage `.readying stop`, in the wait for `a.options.readyAt`. -/
theorem moves_of_readying {stop : Instant} (hs : a.stage = .readying stop) (he : e ≠ .cancel)
    (h : a.step e = some b) : Moves a e b := by
  cases e with
  | ready =>
    simp only [step, hs] at h
    obtain rfl := Option.some.inj h
    exact .ready hs
  | stop =>
    simp only [step, hs] at h
    obtain ⟨hc, h⟩ := Option.ite_none_right_eq_some.1 h
    obtain rfl := Option.some.inj h
    exact .unready hs hc
  | cancel => exact absurd rfl he
  | _ => simp [hs] at h

/-- What happens at the stage `.polling stop`, when the catalog is asked. -/
theorem moves_of_polling {stop : Instant} (hs : a.stage = .polling stop) (he : e ≠ .cancel)
    (h : a.step e = some b) : Moves a e b := by
  cases e with
  | jobs reply =>
    cases reply with
    | error f =>
      simp only [step, hs] at h
      obtain rfl := Option.some.inj h
      exact .unlisted hs
    | ok jobs =>
      simp only [step, hs] at h
      obtain rfl := Option.some.inj h
      exact .listed hs
  | cancel => exact absurd rfl he
  | _ => simp [hs] at h

/-- What happens at the stage `.pausing stop`, in the pause between polls. -/
theorem moves_of_pausing {stop : Instant} (hs : a.stage = .pausing stop) (he : e ≠ .cancel)
    (h : a.step e = some b) : Moves a e b := by
  cases e with
  | again =>
    simp only [step, hs] at h
    obtain rfl := Option.some.inj h
    exact .again hs
  | stop =>
    simp only [step, hs] at h
    obtain ⟨hc, h⟩ := Option.ite_none_right_eq_some.1 h
    obtain rfl := Option.some.inj h
    exact .halted hs hc
  | cancel => exact absurd rfl he
  | _ => simp [hs] at h

/-- What happens at the stage `.loading runs`, when the results of `runs` are loaded. -/
theorem moves_of_loading {runs : List JobRun} (hs : a.stage = .loading runs) (he : e ≠ .cancel)
    (h : a.step e = some b) : Moves a e b := by
  cases e with
  | loaded answers took =>
    simp only [step, hs] at h
    obtain rfl := Option.some.inj h
    exact .loaded hs
  | cancel => exact absurd rfl he
  | _ => simp [hs] at h

/-- What happens at the stage `.writing top`, when the report `top` is written. -/
theorem moves_of_writing {top : Junit.Suite} (hs : a.stage = .writing top) (he : e ≠ .cancel)
    (h : a.step e = some b) : Moves a e b := by
  cases e with
  | written reply =>
    cases reply with
    | error f =>
      simp only [step, hs] at h
      obtain rfl := Option.some.inj h
      exact .unwritten hs
    | ok u =>
      simp only [step, hs] at h
      obtain rfl := Option.some.inj h
      exact .written hs
  | cancel => exact absurd rfl he
  | _ => simp [hs] at h

/-- **Each step of an analysis is one of the list**: `a.step e = some b` gives `Moves a e b`. -/
theorem moves_of_step (h : a.step e = some b) : Moves a e b := by
  by_cases he : e = .cancel
  · -- the signal may be given at any time
    subst he
    rw [step] at h
    obtain rfl := Option.some.inj h
    exact .cancel
  · cases hs : a.stage with
    | preparing => exact moves_of_preparing hs he h
    | readying stop => exact moves_of_readying hs he h
    | polling stop => exact moves_of_polling hs he h
    | collecting stop plans c => exact moves_of_collecting hs he h
    | pausing stop => exact moves_of_pausing hs he h
    | loading runs => exact moves_of_loading hs he h
    | writing top => exact moves_of_writing hs he h
    | ended result =>
      cases e with
      | cancel => exact absurd rfl he
      | _ => simp [hs] at h

/-- **These are all the steps of an analysis**: `a.step e = some b ↔ Moves a e b`. -/
theorem step_eq_some_iff : a.step e = some b ↔ Moves a e b := ⟨moves_of_step, step_of_moves⟩

/-! ## What stays -/

/-- A stage after the signal. At `.collecting stop plans c` it reaches `c` and the searches of its workers, and at all
others it changes nothing. -/
def signalled : AnalysisStage → AnalysisStage
  | .collecting stop plans c =>
    .collecting stop plans { c with cancelled := true, workers := c.workers.map cancelWorker }
  | stage => stage

/-- The signal changes `a.cancelled` and nothing else but the stage, to `signalled a.stage`. -/
theorem afterSignal_eq (a : Analysis) :
    a.afterSignal = { a with cancelled := true, stage := signalled a.stage } := by
  rw [afterSignal]
  cases hs : a.stage <;> rfl

/-- **What is analyzed does not change**: a step keeps `options`, `links` and `checkers`. -/
theorem options_of_step (h : a.step e = some b) :
    b.options = a.options ∧ b.links = a.links ∧ b.checkers = a.checkers := by
  cases moves_of_step h with
  | cancel =>
    rw [afterSignal_eq]
    exact ⟨rfl, rfl, rfl⟩
  | _ => exact ⟨rfl, rfl, rfl⟩

/-- At the stage `.ended result` nothing but the signal is noticed. -/
theorem eq_afterSignal_of_ended {result : Except Failure String} (hs : a.stage = .ended result)
    (h : a.step e = some b) : e = .cancel ∧ b = a.afterSignal := by
  cases e with
  | cancel =>
    rw [step] at h
    exact ⟨rfl, (Option.some.inj h).symm⟩
  | _ => simp [hs] at h

end PayloadGate.Analysis
