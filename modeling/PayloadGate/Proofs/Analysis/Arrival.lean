import PayloadGate.Proofs.Analysis.Report
import PayloadGate.Proofs.Collection.Signal
import PayloadGate.Proofs.Gate.Arrival
import PayloadGate.Proofs.Run.Results

/-! # Searches that complete in another order

The searches of a collection complete in any order, and their runs come in that order. The verdict does not depend on
it: two analyses whose searches have come to the same outcomes, in different orders, go on side by side and end alike.

* **`Collection.Course`**, **`Collection.results_perm`** — the order is all in which the results of two courses differ.
* **`AlikeOutcomes`**, **`Collection.alike_of_perm`** — what two collections answer whose results differ in their order.
* **`Analysis.OnTime`** — what an analysis keeps while it polls.
* **`Analysis.stepOver`** — the steps of an analysis over a store that does not change.
* **`Analysis.Abreast`** — two analyses side by side; **`Analysis.Abreast.exists_step`** keeps it.
* **`IndependentOfArrival`**, **`report_independent_of_arrival`** — reports, results and verdicts do not
  depend on the order. -/

namespace PayloadGate

open Time (Instant)

/-! ## Collections -/

namespace Collection

variable {α : Type} {c c' : Collection α} {limit : Nat} {p : RetryPolicy} {jobs : List String}
  {attempts : Nat → Nat → Outcome} {results results' : List (String × Outcome)}

/-- **A course of a collection** in which the attempts have the outcomes `attempts i n`: `c` is reached from the start
by steps that `Plays` or `Advances`. -/
def Course (limit : Nat) (p : RetryPolicy) (jobs : List String) (attempts : Nat → Nat → Outcome) (c : Collection α) :
    Prop :=
  Relation.ReflTransGen (fun c c' => Plays attempts c c' ∨ Advances c c') (start limit p jobs) c

/-- Each worker comes to its outcome in every course. -/
theorem Course.exists_gathers (h : Course limit p jobs attempts c) : ∃ ledger, Gathers p jobs attempts c ledger := by
  induction h with
  | refl => exact ⟨[], gathers_start limit p jobs attempts⟩
  | tail _ hstep ih =>
    obtain ⟨ledger, hgathers⟩ := ih
    rcases hstep with hplays | hadvances
    · exact hgathers.of_plays hplays
    · exact ⟨ledger, hgathers.of_advances hadvances⟩

/-- **The results of two courses differ in their order only**, when all workers have finished:
`c.results.Perm c'.results`. -/
theorem results_perm (h : Course limit p jobs attempts c) (hall : c.workers.all Worker.isFinished = true)
    (h' : Course limit p jobs attempts c') (hall' : c'.workers.all Worker.isFinished = true) :
    c.results.Perm c'.results := by
  obtain ⟨ledger, hgathers⟩ := h.exists_gathers
  obtain ⟨ledger', hgathers'⟩ := h'.exists_gathers
  have hgathered := hgathers.gathered hall
  have hgathered' := hgathers'.gathered hall'
  rw [hgathered.results_eq, hgathered'.results_eq]
  exact (hgathered.perm.trans hgathered'.perm.symm).map _

end Collection

/-- **Two outcomes that differ in the order of their runs**, or in which of several fatal failures they name. -/
inductive AlikeOutcomes : Outcome → Outcome → Prop where
  /-- They have the same runs. -/
  | runs {runs runs' : List JobRun} (h : runs.Perm runs') : AlikeOutcomes (.ok runs) (.ok runs')
  /-- They are the same failure. -/
  | failed (f : Failure) : AlikeOutcomes (.error f) (.error f)
  /-- They are fatal failures. -/
  | fatal (id id' : String) : AlikeOutcomes (.error (.invalidRunId id)) (.error (.invalidRunId id'))

namespace Collection

variable {α : Type} {c c' : Collection α} {results results' : List (String × Outcome)}

/-- Whether `results` are joined to a failure depends on whether one of them is fatal. -/
theorem join_cases (results : List (String × Outcome)) :
    (∃ r ∈ results, (fatal? r.2).isSome) ∧ (∃ id, join results = .error (.invalidRunId id))
    ∨ (∀ r ∈ results, fatal? r.2 = none) ∧ join results = .ok (results.flatMap fun r => runsOf r.2) := by
  rw [join]
  cases hfind : results.findSome? fun r => fatal? r.2 with
  | none => exact .inr ⟨List.findSome?_eq_none_iff.1 hfind, rfl⟩
  | some f =>
    obtain ⟨r, hr, hf⟩ := List.exists_of_findSome?_eq_some hfind
    obtain ⟨id, rfl, -⟩ := fatal?_eq_some_iff.1 hf
    exact .inl ⟨⟨r, hr, by rw [hf]; rfl⟩, id, rfl⟩

/-- **Results in another order** are joined to an outcome that is alike: `results.Perm results'` gives
`AlikeOutcomes (join results) (join results')`. -/
theorem join_perm (h : results.Perm results') : AlikeOutcomes (join results) (join results') := by
  rcases join_cases results with ⟨⟨r, hr, hfatal⟩, id, hjoin⟩ | ⟨hnone, hjoin⟩ <;>
    rcases join_cases results' with ⟨⟨r', hr', hfatal'⟩, id', hjoin'⟩ | ⟨hnone', hjoin'⟩
  · rw [hjoin, hjoin']
    exact .fatal id id'
  · rw [hnone' r (h.mem_iff.1 hr)] at hfatal
    exact absurd hfatal (by simp)
  · rw [hnone r' (h.mem_iff.2 hr')] at hfatal'
    exact absurd hfatal' (by simp)
  · rw [hjoin, hjoin']
    exact .runs (h.flatMap_right _)

/-- **Collections whose results differ in their order** have outcomes `o` and `o'` that are alike. -/
theorem alike_of_perm (hcancelled : c'.cancelled = c.cancelled) (hresults : c.results.Perm c'.results) {o o' : Outcome}
    (ho : c.outcome? = some o) (ho' : c'.outcome? = some o') : AlikeOutcomes o o' := by
  rw [outcome?, if_pos (all_isFinished_of_outcome? ho)] at ho
  rw [outcome?, if_pos (all_isFinished_of_outcome? ho'), hcancelled] at ho'
  obtain rfl := Option.some.inj ho
  obtain rfl := Option.some.inj ho'
  cases c.cancelled with
  | true => exact .failed _
  | false => exact join_perm hresults

end Collection

/-! ## Polls -/

/-- **Runs in another order are polled alike**: they are taken in another order, or what follows is the same. -/
theorem judgeRuns_perm (stop now : Instant) {runs runs' : List JobRun} (h : runs.Perm runs') :
    judgeRuns stop now runs' = judgeRuns stop now runs
    ∨ ∃ finished unfinished finished' unfinished', judgeRuns stop now runs = .take finished unfinished
      ∧ judgeRuns stop now runs' = .take finished' unfinished'
      ∧ (finished ++ unfinished).Perm (finished' ++ unfinished') := by
  have hunfinished : (runs.filter (!·.isFinished)).Perm (runs'.filter (!·.isFinished)) := h.filter _
  have hnone : runs.filter (!·.isFinished) = [] ↔ runs'.filter (!·.isFinished) = [] := by
    rw [← List.length_eq_zero_iff, hunfinished.length_eq, List.length_eq_zero_iff]
  by_cases hruns : runs = []
  · subst hruns
    rw [h.nil_eq]
    exact .inl rfl
  · have hruns' : runs' ≠ [] := by
      rwa [Ne, ← List.length_eq_zero_iff, ← h.length_eq, List.length_eq_zero_iff]
    -- whether runs are judged hangs on the clock and on there being unfinished ones, both the same for either order
    by_cases hdone : runs.filter (!·.isFinished) = [] ∨ stop < now
    · exact .inr ⟨_, _, _, _, judgeRuns_of_done hruns hdone,
        judgeRuns_of_done hruns' (hdone.imp_left hnone.1), (h.filter _).append hunfinished⟩
    · obtain ⟨hrunning, hearly⟩ := not_or.1 hdone
      rw [judgeRuns_of_running hrunning hearly, judgeRuns_of_running (mt hnone.2 hrunning) hearly]
      exact .inl rfl

/-! ## Analyses -/

/-- The time `stop` at which a stage stops waiting, as long as it waits. -/
def AnalysisStage.stop? : AnalysisStage → Option Instant
  | .readying stop | .polling stop | .collecting stop _ _ | .pausing stop => some stop
  | _ => none

namespace Analysis

variable {options : Options} {links : Links} {checkers : List Checker} {earlier : Option String} {store : Snapshot}
  {a a' b b' : Analysis} {e : Event} {events : List Event}

/-- **What an analysis keeps while it polls**: the `stop` of its stage is that of its options. -/
structure OnTime (a : Analysis) : Prop where
  /-- It waits as long as it is told. -/
  stop_eq : ∀ stop, a.stage.stop? = some stop → a.options.stopAt = .ok stop
  /-- Its collection has the signal when it has it. -/
  signal_eq : ∀ stop plans c, a.stage = .collecting stop plans c → c.cancelled = a.cancelled

/-- The signal leaves the time: `(signalled stage).stop? = stage.stop?`. -/
theorem stop?_signalled (stage : AnalysisStage) : (signalled stage).stop? = stage.stop? := by
  cases stage <;> rfl

/-- **Each step keeps it**, one case for each of the `Moves`. -/
theorem OnTime.of_step (h : OnTime a) (hstep : a.step e = some b) : OnTime b := by
  have hgo : ∀ stage, (∀ stop, stage.stop? = some stop → a.options.stopAt = .ok stop) →
      (∀ stop plans c, stage = .collecting stop plans c → c.cancelled = a.cancelled) → OnTime (a.goTo stage) :=
    fun _ hstop hsignal => ⟨hstop, hsignal⟩
  -- a stage that waits as long as the one before
  have hwait : ∀ {stage : AnalysisStage} {stop : Instant}, a.stage.stop? = some stop → stage.stop? = some stop →
      (∀ stop plans c, stage = .collecting stop plans c → c.cancelled = a.cancelled) → OnTime (a.goTo stage) := by
    intro stage stop hs hstage hsignal
    refine hgo stage (fun stop' hstop' => ?_) hsignal
    obtain rfl := Option.some.inj (hstage.symm.trans hstop')
    exact h.stop_eq stop hs
  have hend : ∀ result, OnTime (a.finish result) := fun _ => hgo _ (by simp [AnalysisStage.stop?]) (by simp)
  cases moves_of_step hstep with
  | cancel =>
    rw [afterSignal_eq]
    refine ⟨fun stop hstop => h.stop_eq stop ((stop?_signalled a.stage).symm.trans hstop), fun stop plans c hs => ?_⟩
    cases hstage : a.stage with
    | collecting stop' plans' c' =>
      rw [hstage] at hs
      obtain ⟨-, -, rfl⟩ := AnalysisStage.collecting.inj hs
      rfl
    | _ =>
      rw [hstage] at hs
      exact absurd hs (by simp [signalled])
  | prepared hs hstop =>
    refine hgo _ (fun stop hstop' => ?_) (by simp)
    obtain rfl := Option.some.inj hstop'
    exact hstop
  | ready hs | again hs | postponed hs => exact hwait (by rw [hs]; rfl) rfl (by simp)
  | listed hs =>
    refine hwait (by rw [hs]; rfl) rfl fun stop plans c heq => ?_
    obtain ⟨-, -, rfl⟩ := AnalysisStage.collecting.inj heq
    rfl
  | carried hs hce hcollection =>
    refine hwait (by rw [hs]; rfl) rfl fun stop plans c heq => ?_
    obtain ⟨-, -, rfl⟩ := AnalysisStage.collecting.inj heq
    exact (Collection.cancelled_eq_of_step hcollection hce.ne_cancel).trans (h.signal_eq _ _ _ hs)
  | taken | loaded | written =>
    exact ⟨by simp [goTo, finish, afterLoading, AnalysisStage.stop?], by simp [goTo, finish, afterLoading]⟩
  | overlong | unprepared | unready | halted | unlisted | failed | bare | unwritten => exact hend _

/-- At the start there is no time yet. -/
theorem onTime_start (options : Options) (links : Links) (checkers : List Checker) (earlier : Option String) :
    OnTime (start options links checkers earlier) :=
  ⟨by simp [start, AnalysisStage.stop?], by simp [start]⟩

/-! ## Analyses over a store that does not change -/

/-- The event in which the store answers for result files by what it holds, at every call by `store.content`. -/
def Event.over (store : Snapshot) : Event → Event
  | .loaded _ took => .loaded (fun _ key => store.content key) took
  | e => e

/-- An event that is not the signal does not become it over a `store`. -/
theorem Event.over_ne_cancel (h : e ≠ .cancel) : e.over store ≠ .cancel := by
  cases e with
  | cancel => exact absurd rfl h
  | _ => simp [Event.over]

/-- **What an event does to an analysis over a store that does not change**: it answers for result files by what it
holds. -/
def stepOver (store : Snapshot) (a : Analysis) (e : Event) : Option Analysis := a.step (e.over store)

/-- **The runs that are judged over a store that does not change** are those of `store.judge`. -/
theorem judgedBy_content (store : Snapshot) (runs : List JobRun) :
    judgedBy (fun _ key => store.content key) runs = store.judge runs :=
  store.judgedRuns_loadAll (fun _ _ => rfl) runs 0

/-- What an analysis keeps while it polls, and what is analyzed, behind any `events` over the `store`. -/
theorem onTime_of_playAll
    (h : playAll (stepOver store) events (start options links checkers earlier) = some a) :
    OnTime a ∧ a.options = options ∧ a.links = links ∧ a.checkers = checkers := by
  refine playAll_induction
    (fun _ a => OnTime a ∧ a.options = options ∧ a.links = links ∧ a.checkers = checkers)
    ⟨onTime_start options links checkers earlier, rfl, rfl, rfl⟩ (fun xs t e t' _ ih hstep => ?_) h
  obtain ⟨hoptions, hlinks, hcheckers⟩ := options_of_step hstep
  exact ⟨ih.1.of_step hstep, hoptions.trans ih.2.1, hlinks.trans ih.2.2.1, hcheckers.trans ih.2.2.2⟩

/-! ## Side by side -/

/-- **Two analyses of the same**, both with the signal or both without it. Their stages may differ, and what they have
judged, logged and written. -/
structure Agrees (a a' : Analysis) : Prop where
  /-- What is analyzed. -/
  options_eq : a'.options = a.options
  /-- Where runs can be looked at. -/
  links_eq : a'.links = a.links
  /-- The gates. -/
  checkers_eq : a'.checkers = a.checkers
  /-- The signal. -/
  cancelled_eq : a'.cancelled = a.cancelled

/-- **What an analysis does depends on its stage and on what is analyzed**, and not on what it has judged, logged or
written: what `a` does at `e`, `a'` does at the same stage, and both agree again. -/
theorem Agrees.exists_moves (h : Agrees a a') (hstage : a'.stage = a.stage) (hmoves : Moves a e b) :
    ∃ b', Moves a' e b' ∧ Agrees b b' ∧ b'.stage = b.stage := by
  obtain ⟨options, links, checkers, cancelled, judged, took, log, report, stage⟩ := a
  obtain ⟨options', links', checkers', cancelled', judged', took', log', report', stage'⟩ := a'
  obtain ⟨rfl, rfl, rfl, rfl⟩ := h
  obtain rfl := hstage
  -- a move looks at nothing but the stage and the fields that `h` equates, so each one is taken over as it is
  cases hmoves with
  | cancel =>
    refine ⟨_, .cancel, ?_, ?_⟩ <;> rw [afterSignal_eq, afterSignal_eq]
    exact ⟨rfl, rfl, rfl, rfl⟩
  | prepared hs hstop => exact ⟨_, .prepared hs hstop, ⟨rfl, rfl, rfl, rfl⟩, rfl⟩
  | overlong hs hstop => exact ⟨_, .overlong hs hstop, ⟨rfl, rfl, rfl, rfl⟩, rfl⟩
  | unprepared hs => exact ⟨_, .unprepared hs, ⟨rfl, rfl, rfl, rfl⟩, rfl⟩
  | ready hs => exact ⟨_, .ready hs, ⟨rfl, rfl, rfl, rfl⟩, rfl⟩
  | unready hs hc => exact ⟨_, .unready hs hc, ⟨rfl, rfl, rfl, rfl⟩, rfl⟩
  | again hs => exact ⟨_, .again hs, ⟨rfl, rfl, rfl, rfl⟩, rfl⟩
  | halted hs hc => exact ⟨_, .halted hs hc, ⟨rfl, rfl, rfl, rfl⟩, rfl⟩
  | listed hs => exact ⟨_, .listed hs, ⟨rfl, rfl, rfl, rfl⟩, rfl⟩
  | unlisted hs => exact ⟨_, .unlisted hs, ⟨rfl, rfl, rfl, rfl⟩, rfl⟩
  | carried hs hce hstep =>
    refine ⟨_, .carried hs ?_ hstep, ⟨rfl, rfl, rfl, rfl⟩, rfl⟩
    cases hce with
    | launch hplan => exact .launch hplan
    | search he hsearch hse => exact .search he hsearch hse
    | settle hsearch ho => exact .settle hsearch ho
    | resume hplan => exact .resume hplan
    | notice => exact .notice
  | failed hs ho => exact ⟨_, .failed hs ho, ⟨rfl, rfl, rfl, rfl⟩, rfl⟩
  | bare hs ho => exact ⟨_, .bare hs ho, ⟨rfl, rfl, rfl, rfl⟩, rfl⟩
  | taken hs ho hruns hdone => exact ⟨_, .taken hs ho hruns hdone, ⟨rfl, rfl, rfl, rfl⟩, rfl⟩
  | postponed hs ho hrunning hearly => exact ⟨_, .postponed hs ho hrunning hearly, ⟨rfl, rfl, rfl, rfl⟩, rfl⟩
  | loaded hs => exact ⟨_, .loaded hs, ⟨rfl, rfl, rfl, rfl⟩, rfl⟩
  | written hs => exact ⟨_, .written hs, ⟨rfl, rfl, rfl, rfl⟩, rfl⟩
  | unwritten hs => exact ⟨_, .unwritten hs, ⟨rfl, rfl, rfl, rfl⟩, rfl⟩

/-- The signal given to both keeps that they agree. -/
theorem Agrees.afterSignal (h : Agrees a a') : Agrees a.afterSignal a'.afterSignal := by
  rw [afterSignal_eq, afterSignal_eq]
  exact ⟨h.options_eq, h.links_eq, h.checkers_eq, rfl⟩

/-- **Two analyses side by side** whose searches have completed in different orders: they are at the same stage, or have
the same runs in different orders, or reports with as many failures, or ended alike. -/
inductive Abreast (a a' : Analysis) : Prop where
  /-- They stand in the same place. -/
  | same (h : Agrees a a') (stage_eq : a'.stage = a.stage)
  /-- They load the results of the same runs, in different orders. -/
  | loading {runs runs' : List JobRun} (h : Agrees a a') (hs : a.stage = .loading runs)
      (hs' : a'.stage = .loading runs') (perm : runs.Perm runs')
  /-- They write reports with as many failures. -/
  | writing {top top' : Junit.Suite} (h : Agrees a a') (hs : a.stage = .writing top) (hs' : a'.stage = .writing top')
      (failures_eq : top'.failures = top.failures)
  /-- They have ended with fatal failures. -/
  | fatal {id id' : String} (hs : a.stage = .ended (.error (.invalidRunId id)))
      (hs' : a'.stage = .ended (.error (.invalidRunId id')))

/-- Two analyses that come to the same `stage` are side by side. -/
theorem Agrees.abreast_goTo (h : Agrees a a') (stage : AnalysisStage) : Abreast (a.goTo stage) (a'.goTo stage) :=
  .same ⟨h.options_eq, h.links_eq, h.checkers_eq, h.cancelled_eq⟩ rfl

/-- The signal given to both keeps them side by side. -/
theorem Abreast.afterSignal (h : Abreast a a') : Abreast a.afterSignal a'.afterSignal := by
  have hstage : ∀ {x : Analysis}, x.afterSignal.stage = signalled x.stage := fun {x} => by rw [afterSignal_eq]
  cases h with
  | same h stage_eq => exact .same h.afterSignal (by rw [hstage, hstage, stage_eq])
  | loading h hs hs' perm => exact .loading h.afterSignal (by rw [hstage, hs]; rfl) (by rw [hstage, hs']; rfl) perm
  | writing h hs hs' heq => exact .writing h.afterSignal (by rw [hstage, hs]; rfl) (by rw [hstage, hs']; rfl) heq
  | fatal hs hs' => exact .fatal (by rw [hstage, hs]; rfl) (by rw [hstage, hs']; rfl)

/-- Two analyses at the same stage take the same step. -/
theorem Agrees.exists_step (h : Agrees a a') (hstage : a'.stage = a.stage) (hb : a.step e = some b) :
    ∃ b', a'.step e = some b' ∧ Abreast b b' := by
  obtain ⟨b', hmoves, hagrees, hstage'⟩ := h.exists_moves hstage (moves_of_step hb)
  exact ⟨b', step_of_moves hmoves, .same hagrees hstage'⟩

/-- **The same runs in different orders** are judged to reports with as many failures: `runs.Perm runs'` at the stages
`.loading runs` and `.loading runs'`. -/
theorem Agrees.exists_step_of_loading {runs runs' : List JobRun} (h : Agrees a a') (hs : a.stage = .loading runs)
    (hs' : a'.stage = .loading runs') (perm : runs.Perm runs') (hcancel : e ≠ .cancel)
    (hb : stepOver store a e = some b) : ∃ b', stepOver store a' e = some b' ∧ Abreast b b' := by
  cases e with
  | cancel => exact absurd rfl hcancel
  | loaded answers took =>
    simp only [stepOver, Event.over, step, hs, judgedBy_content] at hb
    obtain rfl := Option.some.inj hb
    have halike := reportedAlike_of_perm a.checkers (store.judge_perm perm)
    refine ⟨a'.afterLoading took (store.judge runs'), ?_,
      .writing ⟨h.options_eq, h.links_eq, h.checkers_eq, h.cancelled_eq⟩ rfl rfl ?_⟩
    · simp only [stepOver, Event.over, step, hs', judgedBy_content]
    · rw [h.checkers_eq]
      exact (halike.failures_eq took took).symm
  | _ => simp [stepOver, Event.over, step, hs] at hb

/-- **Reports with as many failures** lead to the same verdict. -/
theorem Agrees.exists_step_of_writing {top top' : Junit.Suite} (h : Agrees a a') (hs : a.stage = .writing top)
    (hs' : a'.stage = .writing top') (hfailures : top'.failures = top.failures) (hcancel : e ≠ .cancel)
    (hb : a.step e = some b) : ∃ b', a'.step e = some b' ∧ Abreast b b' := by
  cases e with
  | cancel => exact absurd rfl hcancel
  | written reply =>
    cases reply with
    | error f =>
      simp only [step, hs] at hb
      obtain rfl := Option.some.inj hb
      exact ⟨_, step_of_moves (.unwritten hs'), h.abreast_goTo _⟩
    | ok u =>
      simp only [step, hs] at hb
      obtain rfl := Option.some.inj hb
      refine ⟨_, step_of_moves (.written hs'), ?_⟩
      rw [hfailures, h.options_eq]
      exact .same ⟨rfl, h.links_eq, h.checkers_eq, h.cancelled_eq⟩ rfl
  | _ => simp [step, hs] at hb

/-- **Each step keeps two analyses side by side**: what happens to `a` can happen to `a'`. -/
theorem Abreast.exists_step (h : Abreast a a') (hb : stepOver store a e = some b) :
    ∃ b', stepOver store a' e = some b' ∧ Abreast b b' := by
  by_cases hcancel : e = .cancel
  · subst hcancel
    obtain rfl := Option.some.inj hb
    exact ⟨_, rfl, h.afterSignal⟩
  · cases h with
    | same h stage_eq => exact h.exists_step stage_eq hb
    | loading h hs hs' perm => exact h.exists_step_of_loading hs hs' perm hcancel hb
    | writing h hs hs' heq => exact h.exists_step_of_writing hs hs' heq (Event.over_ne_cancel hcancel) hb
    | fatal hs hs' => exact absurd (eq_afterSignal_of_ended hs hb).1 (Event.over_ne_cancel hcancel)

/-- **Two analyses side by side stay so** behind a list of events, by induction on it. -/
theorem Abreast.exists_playAll (h : Abreast a a') (hb : playAll (stepOver store) events a = some b) :
    ∃ b', playAll (stepOver store) events a' = some b' ∧ Abreast b b' := by
  induction events generalizing a a' with
  | nil =>
    obtain rfl := Option.some.inj hb
    exact ⟨a', rfl, h⟩
  | cons e events ih =>
    obtain ⟨t, ht, hb⟩ := Option.bind_eq_some_iff.1 hb
    obtain ⟨t', ht', habreast⟩ := h.exists_step ht
    obtain ⟨b', hb', hend⟩ := ih habreast hb
    exact ⟨b', by rw [playAll, ht', Option.bind_some, hb'], hend⟩

/-- **Searches that have completed in different orders** are joined to two analyses side by side, when
`c.results.Perm c'.results`. -/
theorem Agrees.exists_step_of_joined {stop now : Instant} {plans plans' : List SearchPlan} {c c' : Collection Search}
    (h : Agrees a a') (hs : a.stage = .collecting stop plans c) (hs' : a'.stage = .collecting stop plans' c')
    (hall : c'.workers.all Worker.isFinished = true) (hcancelled : c'.cancelled = c.cancelled)
    (hresults : c.results.Perm c'.results) (hb : a.step (.joined now) = some b) :
    ∃ b', a'.step (.joined now) = some b' ∧ Abreast b b' := by
  simp only [step, hs] at hb
  obtain ⟨o, ho, rfl⟩ := Option.map_eq_some_iff.1 hb
  obtain ⟨o', ho'⟩ : ∃ o', c'.outcome? = some o' := ⟨_, by rw [Collection.outcome?, if_pos hall]⟩
  refine ⟨a'.afterPoll stop (judgePoll stop now o'), by simp only [step, hs', ho', Option.map_some], ?_⟩
  -- results in another order give another outcome in two ways only: another fatal failure, or the runs in another order
  cases Collection.alike_of_perm hcancelled hresults ho ho' with
  | failed f => exact h.abreast_goTo _
  | fatal id id' => exact .fatal rfl rfl
  | @runs runs runs' perm =>
    rw [judgePoll, judgePoll]
    rcases judgeRuns_perm stop now perm with heq | ⟨_, _, _, _, htake, htake', hperm⟩
    · rw [heq]
      cases judgeRuns stop now runs <;> exact h.abreast_goTo _
    · rw [htake, htake']
      exact .loading ⟨h.options_eq, h.links_eq, h.checkers_eq, h.cancelled_eq⟩ rfl rfl hperm

/-- **Two analyses side by side end alike**, if they end: with the same result, or with fatal failures of two ids. -/
theorem Abreast.result?_eq_or (h : Abreast a a') :
    a'.result? = a.result?
    ∨ ∃ id id', a.result? = some (.error (.invalidRunId id)) ∧ a'.result? = some (.error (.invalidRunId id')) := by
  cases h with
  | same h stage_eq => exact .inl (by rw [result?, result?, stage_eq])
  | loading h hs hs' => exact .inl (by rw [result?, result?, hs, hs'])
  | writing h hs hs' => exact .inl (by rw [result?, result?, hs, hs'])
  | fatal hs hs' => exact .inr ⟨_, _, by rw [result?, hs], by rw [result?, hs']⟩

end Analysis

/-! ## The order does not matter -/

/-- **What does not depend on the order in which searches complete**, over a store that does not change. -/
structure IndependentOfArrival (store : Snapshot) (checkers : List Checker) : Prop where
  /-- Runs in another order are reported alike. -/
  reports : ∀ runs runs' : List JobRun, runs.Perm runs' → ReportedAlike checkers (store.judge runs) (store.judge runs')
  /-- Searches with given outcomes have the same results, in the order in which they complete. -/
  results : ∀ limit policy jobs attempts (c c' : Collection Search),
    c.Course limit policy jobs attempts → c.workers.all Worker.isFinished = true →
    c'.Course limit policy jobs attempts → c'.workers.all Worker.isFinished = true → c.results.Perm c'.results
  /-- Two analyses of the same whose searches have come to the same results, in different orders, and which are joined
  at the same time with or without the signal: what can happen to one of them can happen to the other one, and they end
  in the same way, if they end, but for the id of a fatal failure. -/
  outcomes : ∀ (options : Options) (links : Links) (earlier : Option String)
    (before before' after : List Analysis.Event) (now : Instant) (a a' b : Analysis) (stop stop' : Instant)
    (plans plans' : List SearchPlan) (c c' : Collection Search),
    playAll (Analysis.stepOver store) before (.start options links checkers earlier) = some a →
    playAll (Analysis.stepOver store) before' (.start options links checkers earlier) = some a' →
    a.stage = .collecting stop plans c → a'.stage = .collecting stop' plans' c' →
    c'.workers.all Worker.isFinished = true → a'.cancelled = a.cancelled → c.results.Perm c'.results →
    playAll (Analysis.stepOver store) (.joined now :: after) a = some b →
    ∃ b', playAll (Analysis.stepOver store) (.joined now :: after) a' = some b'
      ∧ (b'.result? = b.result?
        ∨ ∃ id id', b.result? = some (.error (.invalidRunId id)) ∧ b'.result? = some (.error (.invalidRunId id')))

/-- **The order in which searches complete does not matter**: runs in another order are reported alike, and the analysis
passes its gate, or does not pass it, in any order. -/
theorem report_independent_of_arrival (store : Snapshot) (checkers : List Checker) :
    IndependentOfArrival store checkers := by
  refine ⟨fun runs runs' h => reportedAlike_of_perm checkers (store.judge_perm h),
    fun limit policy jobs attempts c c' h hall h' hall' => Collection.results_perm h hall h' hall', ?_⟩
  intro options links earlier before before' after now a a' b stop stop' plans plans' c c' ha ha' hs hs' hall hcancelled
    hresults hb
  obtain ⟨htime, hoptions, hlinks, hcheckers⟩ := Analysis.onTime_of_playAll ha
  obtain ⟨htime', hoptions', hlinks', hcheckers'⟩ := Analysis.onTime_of_playAll ha'
  have hagrees : Analysis.Agrees a a' :=
    ⟨hoptions'.trans hoptions.symm, hlinks'.trans hlinks.symm, hcheckers'.trans hcheckers.symm, hcancelled⟩
  -- both stop waiting at the same time, and their collections have the signal when they have it
  obtain rfl : stop = stop' := by
    have hstop := htime.stop_eq stop (by rw [hs]; rfl)
    have hstop' := htime'.stop_eq stop' (by rw [hs']; rfl)
    rw [hoptions] at hstop
    rw [hoptions', hstop] at hstop'
    exact Except.ok.inj hstop'
  have hsignal : c'.cancelled = c.cancelled := by
    rw [htime.signal_eq _ _ _ hs, htime'.signal_eq _ _ _ hs', hcancelled]
  obtain ⟨t, ht, hb⟩ := Option.bind_eq_some_iff.1 hb
  obtain ⟨t', ht', habreast⟩ := hagrees.exists_step_of_joined hs hs' hall hsignal hresults ht
  obtain ⟨b', hb', hend⟩ := habreast.exists_playAll hb
  refine ⟨b', ?_, hend.result?_eq_or⟩
  rw [playAll, Option.bind_eq_some_iff]
  exact ⟨t', ht', hb'⟩

namespace Analysis

/-- Two jobs are searched, and the events of the searches come one after the other. -/
def twoJobsEvents (first second : List Event) : List Event := searchedEvents ["e2e", "upgrade"] (first ++ second)

/-- A store in which one of the two runs has results. -/
def twoJobsStore : Snapshot where
  records := [⟨"logs/e2e/5/artifacts/junit.xml", ⟨90, 0⟩⟩]
  ascending := by decide
  content key := if key = "logs/e2e/5/artifacts/junit.xml" then .ok installResults.document.toUTF8.toList
    else .error (.notFound key)

/-- The results of the searches of an analysis, when all of them have completed. -/
def results? (a : Analysis) : Option (List (String × Outcome)) :=
  match a.stage with
  | .collecting _ _ c => if c.workers.all Worker.isFinished then some c.results else none
  | _ => none

/-- They are those of its collection. -/
theorem exists_of_results? {a : Analysis} {results : List (String × Outcome)} (h : a.results? = some results) :
    ∃ stop plans c, a.stage = .collecting stop plans c ∧ c.workers.all Worker.isFinished = true
      ∧ c.results = results := by
  rw [results?] at h
  split at h
  · rename_i stop plans c hs
    obtain ⟨hall, h⟩ := Option.ite_none_right_eq_some.1 h
    exact ⟨stop, plans, c, hs, hall, Option.some.inj h⟩
  · exact absurd h (by simp)

end Analysis

open Analysis in
/-- The gate of one pass is passed in both orders of two searches. -/
theorem report_independent_of_arrival_twoJobs :
    ∃ b b', playAll (stepOver twoJobsStore)
        (twoJobsEvents (searchEvents 0 "logs/e2e/5") (searchEvents 1 "logs/upgrade/5")
          ++ judgedEvents) (payloadStart 1) = some b
      ∧ playAll (stepOver twoJobsStore)
        (twoJobsEvents (searchEvents 1 "logs/upgrade/5") (searchEvents 0 "logs/e2e/5")
          ++ judgedEvents) (payloadStart 1) = some b'
      ∧ b.result? = some (.ok "work/4.11/junit-test-case-analysis.xml") ∧ b'.result? = b.result? := by
  let play (before : List Event) := playAll (stepOver twoJobsStore) before (payloadStart 1)
  let before := twoJobsEvents (searchEvents 0 "logs/e2e/5") (searchEvents 1 "logs/upgrade/5")
  let before' := twoJobsEvents (searchEvents 1 "logs/upgrade/5") (searchEvents 0 "logs/e2e/5")
  -- the two runs before the judging are compared by what they collected: the reversed results of each other
  have hresults : ((play before).bind results?).isSome = true
      ∧ (play before').bind results? = ((play before).bind results?).map List.reverse := by decide +kernel
  have hcancelled : (play before).map (·.cancelled) = some false ∧ (play before').map (·.cancelled) = some false := by
    decide +kernel
  have hresult : (play (before ++ judgedEvents)).bind result?
      = some (.ok "work/4.11/junit-test-case-analysis.xml") := by decide +kernel
  obtain ⟨results, hsome⟩ := Option.isSome_iff_exists.1 hresults.1
  have hreversed := hresults.2
  rw [hsome, Option.map_some] at hreversed
  obtain ⟨a, ha, hs⟩ := Option.bind_eq_some_iff.1 hsome
  obtain ⟨a', ha', hs'⟩ := Option.bind_eq_some_iff.1 hreversed
  obtain ⟨stop, plans, c, hstage, -, rfl⟩ := exists_of_results? hs
  obtain ⟨stop', plans', c', hstage', hall', hreverse⟩ := exists_of_results? hs'
  obtain ⟨b, hb, hpath⟩ := Option.bind_eq_some_iff.1 hresult
  have hagree : a'.cancelled = a.cancelled := by
    rw [ha, ha', Option.map_some, Option.map_some] at hcancelled
    exact (Option.some.inj hcancelled.2).trans (Option.some.inj hcancelled.1).symm
  have hafter : playAll (stepOver twoJobsStore) judgedEvents a = some b := by
    have hboth : (play before).bind _ = some b := (playAll_append ..).symm.trans hb
    rwa [ha] at hboth
  -- from there on `report_independent_of_arrival` carries the ends over; only a fatal failure could part them
  obtain ⟨b', hb', hend⟩ := (report_independent_of_arrival twoJobsStore [⟨.install, "", 1⟩]).outcomes payloadOptions
    ⟨"bucket", "human", "artifacts"⟩ (some "earlier") before before' (judgedEvents.drop 1) ⟨100, 0⟩ a a' b
    stop stop' plans plans' c c' ha ha' hstage hstage' hall' hagree (hreverse ▸ (List.reverse_perm _).symm) hafter
  refine ⟨b, b', hb, ?_, hpath, hend.resolve_right ?_⟩
  · rw [playAll_append]
    exact (congrArg (Option.bind · _) ha').trans hb'
  · rintro ⟨id, id', hfatal, -⟩
    exact absurd (hpath.symm.trans hfatal) (by simp)

end PayloadGate
