import PayloadGate.Proofs.Analysis.Report
import PayloadGate.Proofs.Junit.FailureLines

/-! # The log and the verdict

An analysis logs the failures of its report before it writes the report, and ends by the number of failures that the
report counts. Log and verdict tell the same.

* **`Analysis.Logged`** — what an analysis has logged that writes its report; **`Analysis.Logged.of_step`** keeps it.
* **`Analysis.failures_pos_iff`** — a report counts failures exactly when there are lines that tell of them.
* **`failureLines_agree_with_verdict`** — lines and counts agree, and the log of an analysis with its verdict. -/

namespace PayloadGate

open Junit (Suite FailedCase TellsFailures failureLines tellsFailures_failureLines)

/-! ## What is logged -/

namespace Analysis

variable {options : Options} {links : Links} {checkers : List Checker} {earlier : Option String}
  {a b : Analysis} {e : Event} {events : List Event}

/-- The lines that tell of the report of an analysis, below the name `root`. -/
def reportLines (a : Analysis) : List String := failureLines ["root"] (PayloadGate.report a.checkers a.took a.judged)

/-- **What an analysis has logged that writes its report**, or has written it, behind `events`: `reportLines`. -/
structure Logged (events : List Event) (a : Analysis) : Prop where
  /-- It writes the report on the runs that it has judged, and has logged its failures. -/
  writing : ∀ top, a.stage = .writing top → top = PayloadGate.report a.checkers a.took a.judged ∧ a.log = a.reportLines
  /-- When it has written the report, it has ended with the verdict on it. -/
  written : .written (.ok ()) ∈ events →
    a.stage = .ended (a.verdict (PayloadGate.report a.checkers a.took a.judged)) ∧ a.log = a.reportLines

/-- The signal changes neither log nor verdict. -/
theorem Logged.afterSignal (h : Logged events a) : Logged (events ++ [.cancel]) a.afterSignal := by
  have hlog : a.afterSignal.log = a.log ∧ a.afterSignal.reportLines = a.reportLines
      ∧ PayloadGate.report a.afterSignal.checkers a.afterSignal.took a.afterSignal.judged
        = PayloadGate.report a.checkers a.took a.judged
      ∧ ∀ top, a.afterSignal.verdict top = a.verdict top := by
    rw [afterSignal_eq]
    exact ⟨rfl, rfl, rfl, fun _ => rfl⟩
  obtain ⟨hlog, hlines, hreport, hverdict⟩ := hlog
  refine ⟨fun top hs => ?_, fun hwritten => ?_⟩
  · rw [hlog, hlines, hreport]
    exact h.writing top (stage_eq_of_afterSignal_writing hs)
  · have hmem : .written (.ok ()) ∈ events := by simpa using hwritten
    obtain ⟨hs, hlogged⟩ := h.written hmem
    rw [hlog, hlines, hreport, hverdict, afterSignal_eq, hs]
    exact ⟨rfl, hlogged⟩

/-- **Each step keeps it**: nothing but the judgement of the runs makes lines. -/
theorem Logged.of_step (h : Logged events a) (hstep : a.step e = some b) : Logged (events ++ [e]) b := by
  by_cases hwritten : .written (.ok ()) ∈ events
  · -- it has ended, and notices nothing but the signal
    obtain ⟨rfl, rfl⟩ := eq_afterSignal_of_ended (h.written hwritten).1 hstep
    exact h.afterSignal
  · have hnow : .written (.ok ()) ∈ events ++ [e] → e = .written (.ok ()) := by
      intro hmem
      rcases List.mem_append.1 hmem with hmem | hmem
      · exact absurd hmem hwritten
      · exact (List.mem_singleton.1 hmem).symm
    -- a step to a stage in which nothing is written
    have hgo : ∀ next, e ≠ .written (.ok ()) → (∀ top, next ≠ .writing top) → Logged (events ++ [e]) (a.goTo next) :=
      fun next he hnext => ⟨fun top hs => absurd hs (hnext top), fun hmem => absurd (hnow hmem) he⟩
    cases moves_of_step hstep with
    | cancel => exact h.afterSignal
    | carried hs hce => exact hgo _ (by cases hce <;> simp) (by simp)
    | loaded hs =>
      refine ⟨fun top htop => ?_, fun hmem => absurd (hnow hmem) (by simp)⟩
      exact ⟨(AnalysisStage.writing.inj htop).symm, rfl⟩
    | @written top hs =>
      obtain ⟨rfl, hlog⟩ := h.writing top hs
      exact ⟨fun top htop => absurd htop (by simp [finish, goTo]), fun _ => ⟨rfl, hlog⟩⟩
    | _ => exact hgo _ (by simp) (by simp)

/-- **What an analysis has logged behind a list of events**, by induction on them. -/
theorem logged_of_playAll (h : playAll step events (start options links checkers earlier) = some a) :
    Logged events a :=
  playAll_induction Logged ⟨fun top hs => absurd hs (by simp [start]), fun hmem => absurd hmem (by simp)⟩
    (fun _ _ _ _ _ ih hstep => ih.of_step hstep) h

/-- **A report counts failures exactly when there are lines that tell of them**, when its `checkers` can be numbered by
32 bits. -/
theorem failures_pos_iff (took : Nat → Decimal.Binary64) (runs : List JudgedRun) (hlength : checkers.length < 2 ^ 32) :
    0 < (PayloadGate.report checkers took runs).failures
      ↔ failureLines ["root"] (PayloadGate.report checkers took runs) ≠ [] := by
  have hcases : (PayloadGate.report checkers took runs).allCases.length < 2 ^ 32 := by
    rw [allCases_report, List.length_mapIdx]
    exact hlength
  have hlines := (tellsFailures_failureLines ["root"] (PayloadGate.report checkers took runs)).length_eq hcases
  rw [recount_report] at hlines
  rw [← List.length_pos_iff, hlines, UInt32.lt_iff_toNat_lt]
  rfl

/-- `a.verdict top = .error .checkerFailed ↔ 0 < top.failures`. -/
theorem verdict_eq_checkerFailed_iff (a : Analysis) (top : Suite) :
    a.verdict top = .error .checkerFailed ↔ 0 < top.failures := by
  rw [verdict]
  by_cases h : 0 < top.failures
  · simp [h]
  · simp [h]

end Analysis

/-! ## Log and verdict -/

/-- **How an analysis ends that has written its report**, and what it has logged. -/
structure EndsAsLogged (checkers : List Checker) (a : Analysis) : Prop where
  /-- The lines of the log tell of the report on the runs that were judged. -/
  tells : TellsFailures ["root"] (report checkers a.took a.judged) a.log
  /-- It has ended with the place of the report, or without passing the gate. -/
  ended : a.result? = some (.ok a.options.reportPath) ∨ a.result? = some (.error .checkerFailed)
  /-- It has not passed the gate exactly when a line was logged. -/
  failed_iff : a.result? = some (.error .checkerFailed) ↔ a.log ≠ []

/-- **Lines, counts and verdict agree.** The lines `failureLines parents s` that tell of a tree are one for each of its
failed cases, below any `parents` and for every `s`, and as many as the tree counts failures. An analysis that has
written its report has logged them, whatever its events were, and it has passed the gate exactly when there are none. -/
theorem failureLines_agree_with_verdict :
    (∀ (parents : List String) (s : Suite), TellsFailures parents s (failureLines parents s))
    ∧ ∀ (options : Options) (links : Links) (checkers : List Checker) (earlier : Option String)
      (events : List Analysis.Event) (a : Analysis),
      playAll Analysis.step events (.start options links checkers earlier) = some a →
      .written (.ok ()) ∈ events → checkers.length < 2 ^ 32 → EndsAsLogged checkers a := by
  refine ⟨tellsFailures_failureLines, fun options links checkers earlier events a h hwritten hlength => ?_⟩
  -- the log of a written report is that of the tree, whose verdict counts the same failures
  obtain ⟨-, -, rfl⟩ := Analysis.options_of_playAll h
  obtain ⟨hstage, hlog⟩ := (Analysis.logged_of_playAll h).written hwritten
  have hresult : a.result? = some (a.verdict (report a.checkers a.took a.judged)) := by rw [Analysis.result?, hstage]
  refine ⟨?_, ?_, ?_⟩
  · rw [hlog]
    exact tellsFailures_failureLines _ _
  · rw [hresult, Analysis.verdict]
    by_cases hfailures : 0 < (report a.checkers a.took a.judged).failures
    · exact .inr (congrArg some (if_pos hfailures))
    · exact .inl (congrArg some (if_neg hfailures))
  · rw [hresult, Option.some.injEq, Analysis.verdict_eq_checkerFailed_iff,
      Analysis.failures_pos_iff a.took a.judged hlength, hlog, Analysis.reportLines]

open Analysis in
/-- A gate of two passes is not passed by the one run of the payload, and its one failure is logged. -/
theorem failureLines_agree_with_verdict_payload :
    ∃ a, playAll step payloadEvents (payloadStart 2) = some a ∧ EndsAsLogged a.checkers a
      ∧ a.result? = some (.error .checkerFailed)
      ∧ a.log = ["Test failed: root / payload-cross-jobs / minimum-required-passes-checker / cluster install"
        ++ " / test 'install should succeed: overall' has required number of successful passes across payload jobs"
        ++ ": required minimum successful count 2, got 1"] := by
  have hplay : (playAll step payloadEvents (payloadStart 2)).map (·.log)
      = some ["Test failed: root / payload-cross-jobs / minimum-required-passes-checker / cluster install"
        ++ " / test 'install should succeed: overall' has required number of successful passes across payload jobs"
        ++ ": required minimum successful count 2, got 1"] := by
    decide +kernel
  obtain ⟨a, ha, hlog⟩ := Option.map_eq_some_iff.1 hplay
  obtain ⟨-, -, hcheckers⟩ := options_of_playAll ha
  have hends : EndsAsLogged a.checkers a := by
    rw [hcheckers]
    exact failureLines_agree_with_verdict.2 _ _ _ _ payloadEvents a ha (by simp [payloadEvents, judgedEvents])
      (by decide)
  exact ⟨a, ha, hends, hends.failed_iff.2 (by simp [hlog]), hlog⟩

end PayloadGate
