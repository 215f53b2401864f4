import PayloadGate.Proofs.Analysis.Moves
import PayloadGate.Proofs.Analysis.Report
import PayloadGate.Proofs.Collection.Signal
import Mathlib.Data.Prod.Lex

/-! # An analysis behind the signal

* **`AnalysisStage.isOpen`** — the stages before the runs are taken to be judged.
* **`Analysis.Awaiting`** — an analysis in one of them; **`Analysis.Awaiting.of_step`** says where it goes.
* **`Analysis.Unjudged`** — an analysis that is never judged; behind the signal it is one.
* **`Analysis.never_judged_behind_signal`** — a collection that meets the signal is never judged. -/

namespace PayloadGate

/-- **Whether the runs have not been taken yet**: the stage is before `.loading`. -/
def AnalysisStage.isOpen : AnalysisStage → Bool
  | .loading _ | .writing _ | .ended _ => false
  | _ => true

namespace Analysis

open Time (Instant)

variable {options : Options} {links : Links} {checkers : List Checker} {earlier : Option String}
  {a b : Analysis} {e : Event} {events : List Event}

/-! ## Before the runs are taken -/

/-- **What holds of the collection of an analysis** with or without the `signal`: it has the signal when the analysis
has it, and a worker for each of its `plans`. -/
structure Sound (signal : Bool) (plans : List SearchPlan) (c : Collection Search) : Prop where
  /-- It has the signal when the analysis has it. -/
  cancelled_eq : c.cancelled = signal
  /-- There is a permit. -/
  permits : 1 ≤ c.permits
  /-- There is a plan for each worker. -/
  length_eq : plans.length = c.workers.length

/-- **An analysis whose runs have not been taken yet**: its stage is open, nothing was judged or logged, and the report
is the `earlier` one. -/
structure Awaiting (earlier : Option String) (a : Analysis) : Prop where
  /-- Its stage. -/
  stage : a.stage.isOpen = true
  /-- No run has been judged. -/
  judged_eq : a.judged = []
  /-- No failed case has been logged. -/
  log_eq : a.log = []
  /-- The output directory holds what it held. -/
  report_eq : a.report = earlier
  /-- Its collection. -/
  sound : ∀ stop plans c, a.stage = .collecting stop plans c → Sound a.cancelled plans c

/-- At the start the runs have not been taken. -/
theorem awaiting_start (options : Options) (links : Links) (checkers : List Checker) (earlier : Option String) :
    Awaiting earlier (start options links checkers earlier) :=
  ⟨rfl, rfl, rfl, rfl, fun _ _ _ h => absurd h (by simp [start])⟩

/-- A new collection by `plans` has the signal when the analysis has it, and has a worker for each plan. -/
theorem sound_newCollection (a : Analysis) (plans : List SearchPlan) :
    Sound a.cancelled plans (a.newCollection plans) :=
  ⟨rfl, Collection.one_le_permits_start (α := Search) a.options.maxJobs a.options.retry (plans.map (·.job)),
    by simp [newCollection, Collection.start]⟩

/-- A step of the collection keeps the number of workers. -/
theorem length_workers_of_step {c c' : Collection Search} {ce : Collection.Event Search} (h : c.step ce = some c') :
    c'.workers.length = c.workers.length := by
  cases Collection.moves_of_step h with
  | cancel => rfl
  | _ => exact List.length_set

/-- A step of the collection keeps it `Sound`, since none of them gives the signal. -/
theorem Sound.of_carries {plans : List SearchPlan} {c c' : Collection Search} {ce : Collection.Event Search}
    {signal : Bool} (h : Sound signal plans c) (hce : Carries a plans c e ce) (hstep : c.step ce = some c') :
    Sound signal plans c' :=
  ⟨(Collection.cancelled_eq_of_step hstep hce.ne_cancel).trans h.cancelled_eq,
    Collection.permits_of_step hstep ▸ h.permits, h.length_eq.trans (length_workers_of_step hstep).symm⟩

/-- The signal takes no runs: `(signalled stage).isOpen = stage.isOpen`. -/
theorem isOpen_signalled (stage : AnalysisStage) : (signalled stage).isOpen = stage.isOpen := by
  cases stage <;> rfl

/-- Behind the signal the runs still have not been taken. -/
theorem Awaiting.afterSignal (h : Awaiting earlier a) : Awaiting earlier a.afterSignal := by
  rw [afterSignal_eq]
  refine ⟨(isOpen_signalled a.stage).trans h.stage, h.judged_eq, h.log_eq, h.report_eq, fun stop plans c hs => ?_⟩
  change signalled a.stage = _ at hs
  cases hs' : a.stage with
  | collecting stop' plans' c' =>
    rw [hs', signalled] at hs
    obtain ⟨rfl, rfl, rfl⟩ := AnalysisStage.collecting.inj hs
    have hsound := h.sound _ _ _ hs'
    exact ⟨rfl, hsound.permits, by rw [List.length_map]; exact hsound.length_eq⟩
  | _ =>
    rw [hs'] at hs
    exact absurd hs (by simp [signalled])

/-- **Where an analysis goes** whose runs are not taken: they still are not, or it ends with a failure `f`, or they are
taken, and then `a.cancelled = false`. They are never taken behind the signal. -/
theorem Awaiting.of_step (h : Awaiting earlier a) (hstep : a.step e = some b) :
    Awaiting earlier b ∨ (∃ f, b = a.finish (.error f)) ∨ ∃ runs, b = a.goTo (.loading runs) ∧ a.cancelled = false := by
  have hgo : ∀ next, next.isOpen = true →
      (∀ stop plans c, next = .collecting stop plans c → Sound a.cancelled plans c) →
      Awaiting earlier (a.goTo next) :=
    fun next hopen hsound => ⟨hopen, h.judged_eq, h.log_eq, h.report_eq, hsound⟩
  -- these stages come only behind the ones of an analysis whose runs are not taken yet
  have hshut : ∀ stage, a.stage = stage → stage.isOpen = false → False := by
    rintro _ rfl hshut
    exact absurd (hshut.symm.trans h.stage) (by simp)
  cases moves_of_step hstep with
  | cancel => exact .inl h.afterSignal
  | prepared hs hstop => exact .inl (hgo _ rfl (by simp))
  | overlong hs hstop => exact .inr (.inl ⟨_, rfl⟩)
  | unprepared hs => exact .inr (.inl ⟨_, rfl⟩)
  | ready hs => exact .inl (hgo _ rfl (by simp))
  | unready hs hc => exact .inr (.inl ⟨_, rfl⟩)
  | again hs => exact .inl (hgo _ rfl (by simp))
  | halted hs hc => exact .inr (.inl ⟨_, rfl⟩)
  | listed hs =>
    refine .inl (hgo _ rfl fun stop plans c heq => ?_)
    obtain ⟨rfl, rfl, rfl⟩ := AnalysisStage.collecting.inj heq
    exact sound_newCollection a _
  | unlisted hs => exact .inr (.inl ⟨_, rfl⟩)
  | carried hs hce hcollection =>
    refine .inl (hgo _ rfl fun stop plans c heq => ?_)
    obtain ⟨rfl, rfl, rfl⟩ := AnalysisStage.collecting.inj heq
    exact (h.sound _ _ _ hs).of_carries hce hcollection
  | failed hs ho => exact .inr (.inl ⟨_, rfl⟩)
  | bare hs ho => exact .inr (.inl ⟨_, rfl⟩)
  | @taken now stop plans c runs hs ho hruns hdone =>
    refine .inr (.inr ⟨_, rfl, ?_⟩)
    cases hc : a.cancelled with
    | false => rfl
    | true =>
      have hcollection := (h.sound _ _ _ hs).cancelled_eq.trans hc
      exact absurd (Collection.eq_cancelled_of_outcome? hcollection ho) (by simp)
  | postponed hs ho hrunning hearly => exact .inl (hgo _ rfl (by simp))
  | loaded hs => exact (hshut _ hs rfl).elim
  | written hs => exact (hshut _ hs rfl).elim
  | unwritten hs => exact (hshut _ hs rfl).elim

/-- An analysis with a `result` has taken its runs, or has ended before. -/
theorem isOpen_of_result? {result : Except Failure String} (h : a.result? = some result) :
    a.stage.isOpen = false := by
  rw [result?] at h
  cases hs : a.stage with
  | ended r => rfl
  | _ =>
    rw [hs] at h
    exact absurd h (by simp)

/-- An analysis whose runs have been taken does not go back: `b.stage.isOpen` only if `a.stage.isOpen`. -/
theorem isOpen_of_step (hstep : a.step e = some b) (hb : b.stage.isOpen = true) : a.stage.isOpen = true := by
  cases moves_of_step hstep with
  | cancel =>
    rw [afterSignal_eq] at hb
    exact (isOpen_signalled a.stage).symm.trans hb
  | loaded hs => exact absurd hb (by simp [afterLoading, AnalysisStage.isOpen])
  | written hs => exact absurd hb (by simp [finish, goTo, AnalysisStage.isOpen])
  | unwritten hs => exact absurd hb (by simp [finish, goTo, AnalysisStage.isOpen])
  | prepared hs | overlong hs | unprepared hs | ready hs | unready hs | again hs | halted hs | listed hs | unlisted hs
  | carried hs | failed hs | bare hs | taken hs | postponed hs =>
    rw [hs]
    rfl

/-- **Each analysis whose runs have not been taken is one**, behind any `events` that were possible. -/
theorem awaiting_of_playAll (h : playAll step events (start options links checkers earlier) = some a)
    (hopen : a.stage.isOpen = true) : Awaiting earlier a := by
  refine playAll_induction (fun _ a => a.stage.isOpen = true → Awaiting earlier a)
    (fun _ => awaiting_start options links checkers earlier) (fun xs t e t' _ ih hstep hopen => ?_) h hopen
  rcases (ih (isOpen_of_step hstep hopen)).of_step hstep with hawaiting | ⟨f, rfl⟩ | ⟨runs, rfl, -⟩
  · exact hawaiting
  · exact absurd hopen (by simp [finish, goTo, AnalysisStage.isOpen])
  · exact absurd hopen (by simp [goTo, AnalysisStage.isOpen])

/-! ## Behind the signal -/

/-- The signal cannot be taken back. -/
theorem cancelled_of_step (h : a.step e = some b) (hc : a.cancelled = true) : b.cancelled = true := by
  cases moves_of_step h with
  | cancel => rw [afterSignal_eq]
  | _ => exact hc

/-- **An analysis that is never judged**: its runs have not been taken and it has the signal, or it has ended with a
failure and has left all as it was. -/
inductive Unjudged (earlier : Option String) (a : Analysis) : Prop where
  /-- It has the signal. -/
  | signalled (awaiting : Awaiting earlier a) (cancelled_eq : a.cancelled = true)
  /-- It has ended. -/
  | ended {f : Failure} (stage : a.stage = .ended (.error f)) (judged_eq : a.judged = []) (log_eq : a.log = [])
      (report_eq : a.report = earlier)

/-- Behind the signal it has the signal, or it has ended with a failure. -/
theorem Awaiting.behind_signal (h : Awaiting earlier a) (hc : a.cancelled = true) (hstep : a.step e = some b) :
    (∃ f, b = a.finish (.error f)) ∨ Awaiting earlier b ∧ b.cancelled = true := by
  rcases h.of_step hstep with hb | hb | ⟨runs, -, hnot⟩
  · exact .inr ⟨hb, cancelled_of_step hstep hc⟩
  · exact .inl hb
  · rw [hc] at hnot
    exact absurd hnot (by simp)

/-- **It stays one**, and its runs are not loaded: `e` is no `.loaded`. -/
theorem Unjudged.of_step (h : Unjudged earlier a) (hstep : a.step e = some b) :
    Unjudged earlier b ∧ ∀ answers took, e ≠ .loaded answers took := by
  cases h with
  | signalled hawaiting hc =>
    constructor
    · rcases hawaiting.behind_signal hc hstep with ⟨f, rfl⟩ | ⟨hb, hcb⟩
      · exact .ended rfl hawaiting.judged_eq hawaiting.log_eq hawaiting.report_eq
      · exact .signalled hb hcb
    · rintro answers took rfl
      -- only runs that have been taken are loaded
      cases moves_of_step hstep with
      | loaded hs =>
        have hopen := hawaiting.stage
        rw [hs] at hopen
        exact absurd hopen (by simp [AnalysisStage.isOpen])
      | carried hs hce => cases hce
  | @ended f stage judged_eq log_eq report_eq =>
    obtain ⟨rfl, rfl⟩ := eq_afterSignal_of_ended stage hstep
    refine ⟨?_, fun _ _ => by simp⟩
    rw [afterSignal_eq]
    have hstage : Analysis.signalled a.stage = .ended (.error f) := by
      rw [stage]
      rfl
    exact .ended hstage judged_eq log_eq report_eq

/-- **Behind any further events it is one**, and its runs have not been loaded. -/
theorem Unjudged.of_playAll (h : Unjudged earlier a) (hplay : playAll step events a = some b) :
    Unjudged earlier b ∧ ∀ answers took, .loaded answers took ∉ events := by
  refine playAll_induction (fun xs b => Unjudged earlier b ∧ ∀ answers took, .loaded answers took ∉ xs)
    ⟨h, fun _ _ => by simp⟩ (fun xs t e t' _ ih hstep => ?_) hplay
  obtain ⟨hunjudged, hunloaded⟩ := ih.1.of_step hstep
  refine ⟨hunjudged, fun answers took hmem => ?_⟩
  rcases List.mem_append.1 hmem with hmem | hmem
  · exact ih.2 answers took hmem
  · exact hunloaded answers took (List.mem_singleton.1 hmem).symm

/-- Its result, when it has one, is a failure. -/
theorem Unjudged.result_eq (h : Unjudged earlier a) {result : Except Failure String}
    (hresult : a.result? = some result) : ∃ f, result = .error f := by
  cases h with
  | signalled hawaiting => exact absurd (hawaiting.stage.symm.trans (isOpen_of_result? hresult)) (by simp)
  | ended stage =>
    rw [result?, stage] at hresult
    exact ⟨_, (Option.some.inj hresult).symm⟩

/-- It leaves all as it was: no runs judged, no lines logged, and the `earlier` report. -/
theorem Unjudged.left (h : Unjudged earlier a) : a.judged = [] ∧ a.log = [] ∧ a.report = earlier := by
  cases h with
  | signalled hawaiting => exact ⟨hawaiting.judged_eq, hawaiting.log_eq, hawaiting.report_eq⟩
  | ended stage judged_eq log_eq report_eq => exact ⟨judged_eq, log_eq, report_eq⟩

/-! ## The end -/

/-- Whether an event is only the progress of a search, or the signal; there may be any number of these in a row. -/
def Event.isIdle : Event → Bool
  | .search _ _ | .cancel => true
  | _ => false

/-- A step by an event that `isIdle`: a search gets on, or the signal is given. -/
def Idles (a b : Analysis) : Prop := ∃ e : Event, e.isIdle = true ∧ a.step e = some b

/-- A step by any other event. -/
def Works (a b : Analysis) : Prop := ∃ e : Event, e.isIdle = false ∧ a.step e = some b

/-- **The steps ahead behind the signal**: those of the parts of the analysis, and in the collection those of its
workers, in the lexicographic order of the pairs. -/
def ahead : AnalysisStage → Nat ×ₗ Nat
  | .preparing => toLex (5, 0)
  | .readying _ => toLex (4, 0)
  | .pausing _ => toLex (3, 0)
  | .polling _ => toLex (2, 0)
  | .collecting _ _ c => toLex (1, c.weight)
  | .loading _ | .writing _ | .ended _ => toLex (0, 0)

/-- The worker that gives the signal to its search has as much ahead as before. -/
theorem weight_cancelWorker (w : Worker Search) : (cancelWorker w).weight = w.weight := by
  rw [cancelWorker]
  cases hs : w.stage <;> simp [Worker.weight, hs]

/-- The signal keeps what is ahead: `ahead (signalled stage) = ahead stage`. -/
theorem ahead_signalled (stage : AnalysisStage) : ahead (signalled stage) = ahead stage := by
  cases stage with
  | collecting stop plans c =>
    have hsame : (c.workers.map cancelWorker).map Worker.weight = c.workers.map Worker.weight := by
      rw [List.map_map]
      exact List.map_congr_left fun w _ => weight_cancelWorker w
    simp only [signalled, ahead, Collection.weight, hsame]
  | _ => rfl

/-- A step in which a search gets on keeps what is ahead. -/
theorem ahead_of_idles (h : Idles a b) : ahead b.stage = ahead a.stage := by
  obtain ⟨e, he, hstep⟩ := h
  cases moves_of_step hstep with
  | cancel =>
    rw [afterSignal_eq]
    exact ahead_signalled a.stage
  | carried hs hce hcollection =>
    cases hce with
    | search hsignal hsearch hse =>
      rw [hs]
      exact congrArg (fun n => toLex (1, n)) (Collection.weight_eq_of_isIdle hcollection rfl)
    | _ => exact absurd he (by simp [Event.isIdle])
  | _ => exact absurd he (by simp [Event.isIdle])

/-- A step in which a search gets on takes no runs. -/
theorem isOpen_of_idles (h : Idles a b) : b.stage.isOpen = a.stage.isOpen := by
  obtain ⟨e, he, hstep⟩ := h
  cases moves_of_step hstep with
  | cancel =>
    rw [afterSignal_eq]
    exact isOpen_signalled a.stage
  | carried hs =>
    rw [hs]
    rfl
  | _ => exact absurd he (by simp [Event.isIdle])

/-- **Any other step of an analysis with the signal leaves less ahead**, unless it ends the analysis:
`ahead b.stage < ahead a.stage`. -/
theorem ahead_lt_of_works (hawaiting : Awaiting earlier a) (hc : a.cancelled = true) (h : Works a b) :
    (∃ f, b = a.finish (.error f)) ∨ (Awaiting earlier b ∧ b.cancelled = true) ∧ ahead b.stage < ahead a.stage := by
  obtain ⟨e, he, hstep⟩ := h
  refine (hawaiting.behind_signal hc hstep).imp_right fun hb => ⟨hb, ?_⟩
  have hopen := hb.1.stage
  cases moves_of_step hstep with
  | cancel => exact absurd he (by simp [Event.isIdle])
  | prepared hs | ready hs | again hs | listed hs =>
    rw [hs]
    exact Prod.Lex.toLex_lt_toLex.2 (.inl (by simp))
  | @carried stop plans c c' _ ce hs hce hcollection =>
    have hidle : ce.isIdle = false := by
      cases hce with
      | search => exact absurd he (by simp [Event.isIdle])
      | _ => rfl
    rw [hs]
    exact Prod.Lex.toLex_lt_toLex.2 (.inr ⟨rfl, Collection.weight_lt_of_step hcollection hidle⟩)
  | @postponed now stop plans c runs hs ho =>
    -- the collection has the signal, and no runs are its outcome
    have hcollection := (hawaiting.sound _ _ _ hs).cancelled_eq.trans hc
    exact absurd (Collection.eq_cancelled_of_outcome? hcollection ho) (by simp)
  | overlong | unprepared | unready | halted | unlisted | failed | bare | taken | loaded | written | unwritten =>
    exact absurd hopen (by simp [finish, goTo, afterLoading, AnalysisStage.isOpen])

/-- **With the signal there is a step** that `Works` as long as the runs have not been taken and the analysis has not
ended. -/
theorem exists_works (hawaiting : Awaiting earlier a) (hc : a.cancelled = true) : ∃ b, Works a b := by
  have hopen := hawaiting.stage
  cases hs : a.stage with
  | preparing =>
    cases hstop : a.options.stopAt with
    | ok stop => exact ⟨_, .prepared (.ok ()), rfl, step_of_moves (.prepared hs hstop)⟩
    | error f => exact ⟨_, .prepared (.ok ()), rfl, step_of_moves (.overlong hs hstop)⟩
  | readying stop => exact ⟨_, .ready, rfl, step_of_moves (.ready hs)⟩
  | polling stop => exact ⟨_, .jobs (.ok []), rfl, step_of_moves (.listed hs)⟩
  | pausing stop => exact ⟨_, .again, rfl, step_of_moves (.again hs)⟩
  | collecting stop plans c =>
    have hsound := hawaiting.sound _ _ _ hs
    have hcollection := hsound.cancelled_eq.trans hc
    -- behind the signal a collection goes on by notices alone, until all workers have finished and it is joined
    cases hall : c.workers.all Worker.isFinished with
    | true =>
      exact ⟨_, .joined ⟨0, 0⟩, rfl, step_of_moves (.failed hs (Collection.outcome?_of_cancelled hcollection hall))⟩
    | false =>
      rcases Collection.exists_ready hsound.permits hall with ⟨i, w, hw, hactive⟩ | ⟨i, w, hw, hqueued, hpermit⟩
      · exact ⟨_, .notice i, rfl,
          step_of_moves (.carried hs .notice (Collection.step_of_moves (.noticed hw hcollection hactive)))⟩
      · have hi : i < plans.length := hsound.length_eq ▸ (List.getElem?_eq_some_iff.1 hw).1
        exact ⟨_, .launch i, rfl, step_of_moves (.carried hs (.launch (List.getElem?_eq_getElem hi))
          (Collection.step_of_moves (.begun hw hqueued hpermit)))⟩
  | _ =>
    rw [hs] at hopen
    exact absurd hopen (by simp [AnalysisStage.isOpen])

/-- **With the signal an analysis comes to a failure**, since only finitely many steps that work are `ahead`. -/
theorem inDueCourse_failed (hawaiting : Awaiting earlier a) (hc : a.cancelled = true) :
    InDueCourse Idles Works (fun b => ∃ f, b.result? = some (.error f)) a := by
  refine inDueCourse_of_rank wellFounded_lt (fun a => Awaiting earlier a ∧ a.cancelled = true)
    (fun a => ahead a.stage) ?_ ?_ ?_ ⟨hawaiting, hc⟩
  · rintro a b ⟨hawaiting, hc⟩ hidles
    refine ⟨?_, ahead_of_idles hidles⟩
    have hopen := (isOpen_of_idles hidles).trans hawaiting.stage
    obtain ⟨e, he, hstep⟩ := hidles
    rcases hawaiting.behind_signal hc hstep with ⟨f, rfl⟩ | hb
    · exact absurd hopen (by simp [finish, goTo, AnalysisStage.isOpen])
    · exact hb
  · rintro a ⟨hawaiting, hc⟩
    exact exists_works hawaiting hc
  · rintro a b ⟨hawaiting, hc⟩ hworks
    refine (ahead_lt_of_works hawaiting hc hworks).imp_left ?_
    rintro ⟨f, rfl⟩
    exact ⟨f, rfl⟩

/-- **A collection that meets the signal is never judged.** A collection to which the signal is given comes to one
outcome, which is a failure, whatever its jobs find, for any number of jobs and permits, and whenever the signal is
given; runs are an outcome only when the signal was neither given nor noticed, and then no job is left out. An
analysis to which the signal is given before it takes its runs, be it in a wait, while jobs are searched, or in a pause,
loads no results, logs and reports nothing, and comes to a failure. -/
theorem never_judged_behind_signal {α : Type} [Inhabited α] (limit : Nat) (policy : RetryPolicy) (jobs : List String)
    (options : Options) (links : Links) (checkers : List Checker) (earlier : Option String) :
    (∀ (events : List (Collection.Event α)) (c : Collection α),
      playAll Collection.step events (.start limit policy jobs) = some c →
        (.cancel ∈ events →
          (∀ o, c.outcome? = some o → o = .error (.cancelled "job run collection cancelled"))
          ∧ InDueCourse Collection.Idles Collection.Works
              (fun d => d.outcome? = some (.error (.cancelled "job run collection cancelled"))) c)
        ∧ ∀ runs, c.outcome? = some (.ok runs) →
          (∀ e ∈ events, e ≠ .cancel ∧ ∀ i, e ≠ .notice i) ∧ (c.results.map Prod.fst).Perm jobs
            ∧ runs = c.results.flatMap fun r => Collection.runsOf r.2)
    ∧ ∀ (before : List Event) (a : Analysis),
      playAll step before (start options links checkers earlier) = some a → a.stage.isOpen = true →
        (∀ (after : List Event) (b : Analysis), playAll step after a.afterSignal = some b →
          (∀ answers took, .loaded answers took ∉ after) ∧ b.judged = [] ∧ b.log = [] ∧ b.report = earlier
            ∧ ∀ result, b.result? = some result → ∃ f, result = .error f)
        ∧ InDueCourse Idles Works (fun b => ∃ f, b.result? = some (.error f)) a.afterSignal := by
  refine ⟨fun events c hplay => ⟨fun hsignal => ?_, fun runs ho => Collection.unsignalled_of_playAll hplay ho⟩,
    fun before a hplay hopen => ?_⟩
  · -- the collection by itself: the signal is in `events` exactly when `c.cancelled`
    have hc := (Collection.cancelled_iff_of_playAll hplay).2 hsignal
    exact ⟨fun o ho => Collection.eq_cancelled_of_outcome? hc ho,
      Collection.inDueCourse_cancelled (Collection.one_le_permits_of_playAll hplay) hc⟩
  · -- the analysis: from the signal on `Unjudged` holds of every state that is reached
    have hawaiting := (awaiting_of_playAll hplay hopen).afterSignal
    have hc : a.afterSignal.cancelled = true := by rw [afterSignal_eq]
    refine ⟨fun after b hafter => ?_, inDueCourse_failed hawaiting hc⟩
    obtain ⟨hb, hunloaded⟩ := (Unjudged.signalled hawaiting hc).of_playAll hafter
    obtain ⟨hjudged, hlog, hreport⟩ := hb.left
    exact ⟨hunloaded, hjudged, hlog, hreport, fun result => hb.result_eq⟩

/-- The signal comes when the only search has found its run, and the analysis fails all the same. -/
theorem never_judged_behind_signal_payload :
    ∃ a, playAll step (payloadEvents.take 12) (payloadStart 1) = some a
      ∧ InDueCourse Idles Works (fun b => ∃ f, b.result? = some (.error f)) a.afterSignal := by
  have hplay : ((playAll step (payloadEvents.take 12) (payloadStart 1)).filter (·.stage.isOpen)).isSome = true := by
    decide +kernel
  obtain ⟨a, ha⟩ := Option.isSome_iff_exists.1 hplay
  obtain ⟨ha, hopen⟩ := Option.filter_eq_some_iff.1 ha
  exact ⟨a, ha, ((never_judged_behind_signal (α := Unit) 1 ⟨0, 0⟩ [] _ _ _ _).2 _ a ha hopen).2⟩

end Analysis

end PayloadGate
