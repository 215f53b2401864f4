import PayloadGate.Proofs.Analysis.Moves
import PayloadGate.Proofs.Collection.Gather
import PayloadGate.Proofs.Gate.Report
import PayloadGate.Proofs.Search.Answer

/-! # When the report is written

* **`Analysis.Event.FailsOwn`**, **`Analysis.Event.FilesSucceed`** — how catalog and file system answer.
* **`Analysis.EndsEarly`** — the failures with which an analysis ends before its report.
* **`Analysis.Reported`** — where the report of an analysis stands; **`Analysis.Reported.of_step`** keeps it.
* **`Analysis.report_of_playAll`** — the report is written exactly when the analysis was judged. -/

namespace PayloadGate.Analysis

open Decimal (Binary64)

variable {options : Options} {links : Links} {checkers : List Checker} {earlier : Option String}
  {a b : Analysis} {e : Event} {events : List Event}

/-! ## The answers of catalog and file system -/

/-- **Catalog and file system fail with failures of their own**: `.database` and `.fileSystem`. -/
def Event.FailsOwn : Event → Prop
  | .prepared (.error f) | .written (.error f) => ∃ detail, f = .fileSystem detail
  | .jobs (.error f) | .search _ (.seed (.error f) _) => ∃ detail, f = .database detail
  | _ => True

/-- The output directory is made, and the report is written: `e` is neither `.prepared (.error _)` nor
`.written (.error _)`. -/
def Event.FilesSucceed : Event → Prop
  | .prepared (.error _) | .written (.error _) => False
  | _ => True

/-- **The failures with which an analysis ends before its report**, each for what can fail until then. -/
inductive EndsEarly (o : Options) : Failure → Prop where
  /-- The payload has no runs. -/
  | noRelatedJobs : EndsEarly o .noRelatedJobs
  /-- The signal was given. -/
  | cancelled (activity : String) : EndsEarly o (.cancelled activity)
  /-- A run directory is named by something that is not a run id. -/
  | invalidRunId (id : String) : EndsEarly o (.invalidRunId id)
  /-- The catalog has failed. -/
  | database (detail : String) : EndsEarly o (.database detail)
  /-- The timeout is longer than any span. -/
  | overlong {f : Failure} (h : o.stopAt = .error f) : EndsEarly o f

/-- A timeout that is longer than any span is invalid, with this message. -/
theorem eq_invalidInput_of_stopAt {o : Options} {f : Failure} (h : o.stopAt = .error f) :
    f = .invalidInput "Invalid timeout: longer than any span" := by
  rw [Options.stopAt] at h
  by_cases hspan : o.timeout - o.margin ≤ longestSpan
  · rw [if_pos hspan] at h
    exact absurd h (by simp)
  · rw [if_neg hspan] at h
    exact (Except.error.inj h).symm

/-- None of them is `.checkerFailed`, the verdict of the gate. -/
theorem EndsEarly.ne_checkerFailed {o : Options} {f : Failure} (h : EndsEarly o f) : f ≠ .checkerFailed := by
  cases h with
  | overlong h =>
    rw [eq_invalidInput_of_stopAt h]
    simp
  | _ => simp

/-- A collection fails by the first fatal failure, or by the signal. -/
theorem endsEarly_of_outcome? {o : Options} {c : Collection Search} {f : Failure}
    (h : c.outcome? = some (.error f)) : EndsEarly o f := by
  rcases Collection.cancelled_or_of_outcome?_error h with rfl | ⟨r, -, hr⟩
  · exact .cancelled _
  · obtain ⟨id, rfl, -⟩ := Collection.fatal?_eq_some_iff.1 hr
    exact .invalidRunId id

/-! ## Where the report stands -/

/-- The result of an analysis that was judged with the report `top`: the place of the report, unless `top` counts
failures. -/
def verdict (a : Analysis) (top : Junit.Suite) : Except Failure String :=
  if 0 < top.failures then .error .checkerFailed else .ok a.options.reportPath

/-- **Where the report of an analysis stands**, behind `events`: it has not been written and the directory holds the
`earlier` one, or it has, and the directory holds that of `a.judged`. -/
inductive Reported (earlier : Option String) (events : List Event) (a : Analysis) : Prop where
  /-- It has not been written, and the analysis goes on. -/
  | pending (stage : a.result? = none)
      (top_eq : ∀ top, a.stage = .writing top → top = PayloadGate.report a.checkers a.took a.judged)
      (report_eq : a.report = earlier) (unwritten : ∀ reply, .written reply ∉ events)
  /-- It has not been written, and the analysis has ended. -/
  | early {f : Failure} (stage : a.stage = .ended (.error f)) (ends : EndsEarly a.options f)
      (report_eq : a.report = earlier) (unwritten : ∀ reply, .written reply ∉ events)
  /-- It has been written. -/
  | written (stage : a.stage = .ended (a.verdict (PayloadGate.report a.checkers a.took a.judged)))
      (report_eq : a.report = some (PayloadGate.report a.checkers a.took a.judged).document)
      (written : .written (.ok ()) ∈ events)

/-- At the start no report has been written, and the `earlier` one is there. -/
theorem reported_start (options : Options) (links : Links) (checkers : List Checker) (earlier : Option String) :
    Reported earlier [] (start options links checkers earlier) :=
  .pending rfl (fun _ h => absurd h (by simp [start])) rfl (fun _ => by simp)

/-- Behind an event `e` other than the writing of the report it is still not written. -/
theorem unwritten_concat {reply : Except Failure Unit} (h : ∀ reply, .written reply ∉ events)
    (he : ∀ reply, e ≠ .written reply) : .written reply ∉ events ++ [e] := by
  rw [List.mem_append, List.mem_singleton]
  rintro (hmem | heq)
  · exact h reply hmem
  · exact he reply heq.symm

/-- The signal ends no analysis: `a.afterSignal.result? = a.result?`. -/
theorem result?_afterSignal (a : Analysis) : a.afterSignal.result? = a.result? := by
  rw [afterSignal_eq, result?, result?]
  cases a.stage <;> rfl

/-- The signal changes nothing at the stage `.writing top`. -/
theorem stage_eq_of_afterSignal_writing {top : Junit.Suite} (h : a.afterSignal.stage = .writing top) :
    a.stage = .writing top := by
  rw [afterSignal_eq] at h
  cases hs : a.stage with
  | writing top' =>
    rw [hs] at h
    exact h
  | _ =>
    rw [hs] at h
    exact absurd h (by simp [signalled])

/-- The signal leaves the report where it stands. -/
theorem Reported.afterSignal (h : Reported earlier events a) :
    Reported earlier (events ++ [.cancel]) a.afterSignal := by
  have hother : ∀ reply, (.cancel : Event) ≠ .written reply := fun _ => by simp
  have hkeeps : a.afterSignal.report = a.report ∧ a.afterSignal.judged = a.judged ∧ a.afterSignal.took = a.took
      ∧ a.afterSignal.checkers = a.checkers ∧ a.afterSignal.options = a.options := by
    rw [afterSignal_eq]
    exact ⟨rfl, rfl, rfl, rfl, rfl⟩
  obtain ⟨hreport, hjudged, htook, hcheckers, hoptions⟩ := hkeeps
  -- the signal ends waits and pauses only, so an analysis that has ended keeps its end
  have hended : ∀ result, a.stage = .ended result → a.afterSignal.stage = .ended result := by
    intro result hs
    rw [afterSignal_eq, hs]
    rfl
  cases h with
  | pending stage top_eq report_eq unwritten =>
    refine .pending ((result?_afterSignal a).trans stage) (fun top hs => ?_) (hreport.trans report_eq)
      fun _ => unwritten_concat unwritten hother
    rw [hcheckers, htook, hjudged]
    exact top_eq top (stage_eq_of_afterSignal_writing hs)
  | early stage ends report_eq unwritten =>
    exact .early (hended _ stage) (hoptions ▸ ends) (hreport.trans report_eq)
      fun _ => unwritten_concat unwritten hother
  | written stage report_eq written =>
    refine .written ?_ (by rw [hreport, hcheckers, htook, hjudged, report_eq]) (List.mem_append_left _ written)
    rw [hended _ stage, hcheckers, htook, hjudged, verdict, verdict, hoptions]

/-- **Each step keeps where the report stands**, one case for each of the `Moves`. -/
theorem Reported.of_step (h : Reported earlier events a) (howns : e.FailsOwn) (hfiles : e.FilesSucceed)
    (hstep : a.step e = some b) : Reported earlier (events ++ [e]) b := by
  cases h with
  | early stage ends report_eq unwritten =>
    obtain ⟨rfl, rfl⟩ := eq_afterSignal_of_ended stage hstep
    exact (Reported.early stage ends report_eq unwritten).afterSignal
  | written stage report_eq written =>
    obtain ⟨rfl, rfl⟩ := eq_afterSignal_of_ended stage hstep
    exact (Reported.written stage report_eq written).afterSignal
  | pending stage top_eq report_eq unwritten =>
    -- a step to a stage in which nothing is written, and one to an early end
    have hgo : ∀ next, (∀ reply, e ≠ .written reply) → (∀ top, next ≠ .writing top) →
        (∀ result, next ≠ .ended result) → Reported earlier (events ++ [e]) (a.goTo next) := by
      intro next he hwriting hended
      refine .pending ?_ (fun top hs => absurd hs (hwriting top)) report_eq fun _ => unwritten_concat unwritten he
      cases next with
      | ended result => exact absurd rfl (hended result)
      | _ => rfl
    have hend : ∀ f, (∀ reply, e ≠ .written reply) → EndsEarly a.options f →
        Reported earlier (events ++ [e]) (a.finish (.error f)) :=
      fun f he hf => .early rfl hf report_eq fun _ => unwritten_concat unwritten he
    cases moves_of_step hstep with
    | cancel => exact (Reported.pending stage top_eq report_eq unwritten).afterSignal
    | prepared hs hstop => exact hgo _ (by simp) (by simp) (by simp)
    | overlong hs hstop => exact hend _ (by simp) (.overlong hstop)
    | unprepared hs => exact hfiles.elim
    | ready hs => exact hgo _ (by simp) (by simp) (by simp)
    | unready hs hc => exact hend _ (by simp) (.cancelled _)
    | again hs => exact hgo _ (by simp) (by simp) (by simp)
    | halted hs hc => exact hend _ (by simp) (.cancelled _)
    | listed hs => exact hgo _ (by simp) (by simp) (by simp)
    | unlisted hs =>
      obtain ⟨detail, rfl⟩ := howns
      exact hend _ (by simp) (.database detail)
    | carried hs hce hstep => exact hgo _ (by cases hce <;> simp) (by simp) (by simp)
    | failed hs ho => exact hend _ (by simp) (endsEarly_of_outcome? ho)
    | bare hs ho => exact hend _ (by simp) .noRelatedJobs
    | taken hs ho hruns hdone => exact hgo _ (by simp) (by simp) (by simp)
    | postponed hs ho hrunning hearly => exact hgo _ (by simp) (by simp) (by simp)
    | loaded hs =>
      refine .pending rfl (fun top hs => ?_) report_eq fun _ => unwritten_concat unwritten (by simp)
      exact (AnalysisStage.writing.inj hs).symm
    | @written top hs =>
      obtain rfl := top_eq top hs
      exact .written rfl rfl (List.mem_append_right _ (List.mem_singleton.2 rfl))
    | unwritten hs => exact hfiles.elim

/-- **Where the report stands behind a list of events**, by induction on them. -/
theorem reported_of_playAll (h : playAll step events (start options links checkers earlier) = some a)
    (hevents : ∀ e ∈ events, e.FailsOwn ∧ e.FilesSucceed) : Reported earlier events a := by
  refine playAll_induction (fun xs a => (∀ e ∈ xs, e.FailsOwn ∧ e.FilesSucceed) → Reported earlier xs a)
    (fun _ => reported_start options links checkers earlier) (fun xs t e t' _ ih hstep hxs => ?_) h hevents
  have he := hxs e (List.mem_append_right _ (List.mem_singleton.2 rfl))
  exact (ih fun x hx => hxs x (List.mem_append_left _ hx)).of_step he.1 he.2 hstep

/-- What is analyzed stays the same behind any `events`. -/
theorem options_of_playAll (h : playAll step events (start options links checkers earlier) = some a) :
    a.options = options ∧ a.links = links ∧ a.checkers = checkers := by
  refine playAll_induction (fun _ a => a.options = options ∧ a.links = links ∧ a.checkers = checkers)
    ⟨rfl, rfl, rfl⟩ (fun xs t e t' _ ih hstep => ?_) h
  obtain ⟨hoptions, hlinks, hcheckers⟩ := options_of_step hstep
  exact ⟨hoptions.trans ih.1, hlinks.trans ih.2.1, hcheckers.trans ih.2.2⟩

/-- **What a written report `top` says**, when an analysis ends with a `result` and each checker `took` its seconds. -/
structure Says (options : Options) (checkers : List Checker) (took : Nat → Binary64) (judged : List JudgedRun)
    (result : Except Failure String) (top : Junit.Suite) : Prop where
  /-- It is the suite for all jobs. -/
  name_eq : top.name = "payload-cross-jobs"
  /-- It has no cases of its own. -/
  cases_eq : top.cases = []
  /-- It has one child for each checker, in their order. -/
  children_eq : top.children = checkers.mapIdx fun i c => c.check (took i) judged
  /-- Its counts are up to date. -/
  recount_eq : top.recount = top
  /-- It counts no failure when the gate is passed. -/
  failures_eq : result = .ok options.reportPath → top.failures = 0
  /-- It counts failures when the gate is not passed. -/
  failures_pos : result = .error .checkerFailed → 0 < top.failures

/-- What the report of an analysis says that was judged: `Says`, with the result `a.verdict top` for its own `top`. -/
theorem says_report (a : Analysis) :
    Says a.options a.checkers a.took a.judged (a.verdict (PayloadGate.report a.checkers a.took a.judged))
      (PayloadGate.report a.checkers a.took a.judged) := by
  refine ⟨name_report _ _ _, cases_report _ _ _, children_report _ _ _, recount_report _ _ _, ?_, ?_⟩
  · intro hresult
    by_cases hfailures : 0 < (PayloadGate.report a.checkers a.took a.judged).failures
    · rw [verdict, if_pos hfailures] at hresult
      exact absurd hresult (by simp)
    · exact UInt32.le_zero_iff.1 (UInt32.not_lt.1 hfailures)
  · intro hresult
    by_contra hfailures
    rw [verdict, if_neg hfailures] at hresult
    exact absurd hresult (by simp)

/-- The analysis of a payload. -/
def payloadOptions : Options :=
  ⟨.tag "4.11", "work", ⟨80, 0⟩, 3600, 0, 3600, 1000, ⟨10000000000, 20000000000⟩, 2, ⟨0, 1000⟩⟩

/-- The objects of the run in `directory`: its result file, and its descriptor. -/
def runObjects (directory : String) : List ObjectRecord :=
  [⟨directory ++ "/artifacts/junit.xml", ⟨90, 0⟩⟩, ⟨directory ++ "/prowjob.json", ⟨90, 0⟩⟩]

/-- What happens to the search of the `i`-th worker, which finds the run in `directory`. -/
def searchEvents (i : Nat) (directory : String) : List Event :=
  [.launch i, .search i (.seed (.ok none) ⟨100, 0⟩),
    .search i (.walkerPage (.ok ⟨runObjects directory, none⟩)), .search i .walkerSend,
    .search i (.walkerPage (.ok ⟨[], none⟩)), .search i .readerTake,
    .search i (.readerPage (.ok ⟨runObjects directory, none⟩)),
    .search i (.readerObject (.ok (labelledDescriptor "00:01:30" "4.11"))), .search i .readerTake, .settle i]

/-- Results in which the test passed. -/
def installResults : Junit.Suite :=
  (Junit.Suite.named "cluster install").addCase (.named "install should succeed: overall")

/-- These results, in every result file. -/
def installAnswers : Answers := fun _ _ => .ok installResults.document.toUTF8.toList

/-- The catalog lists `jobs`, and `searches` happens to the searches for their runs. -/
def searchedEvents (jobs : List String) (searches : List Event) : List Event :=
  [.prepared (.ok ()), .ready, .jobs (.ok (jobs.map Job.named))] ++ searches

/-- What was found is judged by these results, in no time. -/
def judgedEvents : List Event := [.joined ⟨100, 0⟩, .loaded installAnswers fun _ => .zero, .written (.ok ())]

/-- One run is found and judged. -/
def payloadEvents : List Event := searchedEvents ["e2e"] (searchEvents 0 "logs/e2e/5") ++ judgedEvents

/-- The analysis before its first event, with a gate of `required` passes. -/
def payloadStart (required : Nat) : Analysis :=
  start payloadOptions ⟨"bucket", "human", "artifacts"⟩ [⟨.install, "", required⟩] (some "earlier")

/-- The catalog and the file system answer all its events. -/
theorem answered_payloadEvents : ∀ e ∈ payloadEvents, e.FailsOwn ∧ e.FilesSucceed := by
  simp [payloadEvents, searchedEvents, judgedEvents, searchEvents, Event.FailsOwn, Event.FilesSucceed]

end PayloadGate.Analysis
