import PayloadGate.Proofs.Analysis.Gate

/-! # What an analysis hands on

The runs that a collection answers are loaded, and those of them whose results could be loaded are judged. What holds of
the answer of every collection, and of some of its runs whenever it holds of all of them, holds of the runs that are
judged.

* **`Analysis.Inherits`** — what holds of the runs that plans find, and of any of them.
* **`Analysis.Handed`** — an analysis with such runs only; **`Analysis.Handed.of_step`** keeps it.
* **`Analysis.handed_of_playAll`** — every analysis, when the catalog leads to such plans. -/

namespace PayloadGate.Analysis

variable {options : Options} {links : Links} {checkers : List Checker} {earlier : Option String} {a b : Analysis}
  {e : Event} {events : List Event} {Plans : List SearchPlan → Prop} {Runs : List JobRun → Prop}

-- which stage a step leads to is found by evaluation
attribute [local simp] goTo finish afterLoading signalled

/-- **What holds of the runs that plans find**, and of any of them: a collection by `Plans` answers `Runs`, and fewer of
such runs are such runs. It does not matter what the store has given for them. -/
structure Inherits (Plans : List SearchPlan → Prop) (Runs : List JobRun → Prop) : Prop where
  /-- The runs that a collection answers. -/
  of_outcome : ∀ {plans c ledger runs}, Plans plans → Searched (fun _ _ => True) plans c ledger →
    c.outcome? = some (.ok runs) → Runs runs
  /-- Some of them, in any order. -/
  of_subperm : ∀ {runs runs' : List JobRun}, Runs runs → runs'.Subperm runs → Runs runs'
  /-- None of them. -/
  nil : Runs []

/-- **An analysis with such plans and runs only**, and with a report that was made of its judged runs. -/
structure Handed (Plans : List SearchPlan → Prop) (Runs : List JobRun → Prop) (a : Analysis) : Prop where
  /-- The plans, and what their searches have found. -/
  collecting : ∀ stop plans c, a.stage = .collecting stop plans c →
    Plans plans ∧ ∃ ledger, Searched (fun _ _ => True) plans c ledger
  /-- The runs whose results are loaded. -/
  loading : ∀ runs, a.stage = .loading runs → Runs runs
  /-- The runs that are judged. -/
  judged : Runs (a.judged.map (·.run))
  /-- The report that is written. -/
  writing : ∀ top, a.stage = .writing top → top = PayloadGate.report a.checkers a.took a.judged
  /-- The report of an analysis that has passed the gate. -/
  passed : ∀ path, a.stage = .ended (.ok path) → (PayloadGate.report a.checkers a.took a.judged).failures = 0

/-- A `stage` without plans and runs has none that are not such. -/
theorem Handed.idle (h : Handed Plans Runs a) {stage : AnalysisStage} (hjudged : b.judged = a.judged)
    (hs : b.stage = stage) (hcollecting : ∀ stop plans c, stage ≠ .collecting stop plans c)
    (hloading : ∀ runs, stage ≠ .loading runs) (hwriting : ∀ top, stage ≠ .writing top)
    (hpassed : ∀ path, stage ≠ .ended (.ok path)) : Handed Plans Runs b := by
  subst hs
  exact ⟨fun stop plans c hs => absurd hs (hcollecting stop plans c), fun runs hs => absurd hs (hloading runs),
    hjudged ▸ h.judged, fun top hs => absurd hs (hwriting top), fun path hs => absurd hs (hpassed path)⟩

/-- A collection whose plans are such, and whose searches have found by them. -/
theorem Handed.collect (h : Handed Plans Runs a) {stop : Time.Instant} {plans : List SearchPlan} {c : Collection Search}
    {ledger : List (Nat × Outcome)} (hjudged : b.judged = a.judged) (hs : b.stage = .collecting stop plans c)
    (hplans : Plans plans) (hsearched : Searched (fun _ _ => True) plans c ledger) : Handed Plans Runs b := by
  refine ⟨fun stop' plans' c' hs' => ?_, by simp [hs], hjudged ▸ h.judged, by simp [hs], by simp [hs]⟩
  obtain ⟨rfl, rfl, rfl⟩ := AnalysisStage.collecting.inj (hs.symm.trans hs')
  exact ⟨hplans, ledger, hsearched⟩

/-- The signal changes neither plans nor runs. -/
theorem Handed.afterSignal (h : Handed Plans Runs a) : Handed Plans Runs a.afterSignal := by
  rw [afterSignal_eq]
  cases hstage : a.stage with
  | collecting stop plans c =>
    obtain ⟨hplans, ledger, hsearched⟩ := h.collecting _ _ _ hstage
    exact h.collect rfl rfl hplans hsearched.signalled
  | preparing | readying | polling | pausing =>
    exact h.idle rfl rfl (by simp) (by simp) (by simp) (by simp)
  | loading runs =>
    refine ⟨by simp, fun runs' hs => ?_, h.judged, by simp, by simp⟩
    obtain rfl := AnalysisStage.loading.inj hs
    exact h.loading _ hstage
  | writing top =>
    refine ⟨by simp, by simp, h.judged, fun top' hs => ?_, by simp⟩
    obtain rfl := AnalysisStage.writing.inj hs
    exact h.writing _ hstage
  | ended result =>
    refine ⟨by simp, by simp, h.judged, by simp, fun path hs => ?_⟩
    exact h.passed path (hstage.trans hs)

/-- **Each step keeps it**, when the jobs of a `.jobs` event lead to such plans. -/
theorem Handed.of_step (hinherits : Inherits Plans Runs) (h : Handed Plans Runs a)
    (hjobs : ∀ jobs, e = .jobs (.ok jobs) → Plans (a.plansFor jobs)) (hstep : a.step e = some b) :
    Handed Plans Runs b := by
  cases moves_of_step hstep with
  | cancel => exact h.afterSignal
  | prepared | overlong | unprepared | ready | unready | again | halted | unlisted | failed | bare | postponed
  | unwritten => exact h.idle rfl rfl (by simp) (by simp) (by simp) (by simp)
  | listed hs => exact h.collect rfl rfl (hjobs _ rfl) (searched_newCollection _ a _)
  | carried hs hce hcollection =>
    obtain ⟨hplans, ledger, hsearched⟩ := h.collecting _ _ _ hs
    obtain ⟨ledger', hsearched'⟩ := hsearched.of_carries hce hcollection fun _ _ _ _ _ _ _ => trivial
    exact h.collect rfl rfl hplans hsearched'
  | @taken now stop plans c runs hs ho hruns hdone =>
    obtain ⟨hplans, ledger, hsearched⟩ := h.collecting _ _ _ hs
    refine ⟨by simp, fun taken hs => ?_, h.judged, by simp, by simp⟩
    obtain rfl := AnalysisStage.loading.inj hs
    exact hinherits.of_subperm (hinherits.of_outcome hplans hsearched ho) (List.filter_append_perm _ runs).subperm
  | @loaded runs answers took hs =>
    refine ⟨by simp, by simp, ?_, fun top hs => ?_, by simp⟩
    · exact hinherits.of_subperm (h.loading runs hs) (sublist_judgedBy answers runs).subperm
    · exact (AnalysisStage.writing.inj hs).symm
  | @written top hs =>
    obtain rfl := h.writing top hs
    refine ⟨by simp, by simp, h.judged,
      -- a path is the end only when nothing failed, and `top` counts exactly the failures of the report
      by simp, fun path hpath => ?_⟩
    by_contra hfailures
    have hended := AnalysisStage.ended.inj hpath
    have hpos : 0 < (PayloadGate.report a.checkers a.took a.judged).failures := UInt32.pos_iff_ne_zero.2 hfailures
    rw [if_pos hpos] at hended
    exact absurd hended (by simp)

/-- **What an analysis hands on inherits**, whatever store and catalog answer, in whatever order the events come, and
whenever the signal is given, when the jobs that the catalog has listed lead to such plans. -/
theorem handed_of_playAll (hinherits : Inherits Plans Runs)
    (hjobs : ∀ t : Analysis, t.options = options → ∀ jobs, .jobs (.ok jobs) ∈ events → Plans (t.plansFor jobs))
    (h : playAll step events (start options links checkers earlier) = some a) : Handed Plans Runs a := by
  have hstart : Handed Plans Runs (start options links checkers earlier) :=
    ⟨by simp [start], by simp [start], hinherits.nil, by simp [start], by simp [start]⟩
  refine playAll_induction (fun xs t => (∀ x ∈ xs, x ∈ events) → Handed Plans Runs t) (fun _ => hstart)
    (fun xs t e t' hplay ih hstep hxs => ?_) h fun _ => id
  refine (ih fun x hx => hxs x (List.mem_append_left _ hx)).of_step hinherits (fun jobs he => ?_) hstep
  exact hjobs t (options_of_playAll hplay).1 jobs (he ▸ hxs e (List.mem_append_right _ List.mem_cons_self))

end PayloadGate.Analysis
