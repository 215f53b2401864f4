import PayloadGate.Proofs.Analysis.Handed

/-! # Where judged runs come from

An analysis searches the jobs that the catalog has listed for it, and no others.

* **`Analysis.Listed`** — the catalog has listed a job of a name.
* **`Analysis.listed_of_judged`** — every run that is judged is one of a job that was listed. -/

namespace PayloadGate.Analysis

variable {options : Options} {links : Links} {checkers : List Checker} {earlier : Option String} {a : Analysis}
  {events : List Event}

/-- **The catalog has listed a job** of the given `name`, in one of the `events`. -/
def Listed (events : List Event) (name : String) : Prop :=
  ∃ jobs, .jobs (.ok jobs) ∈ events ∧ ∃ job ∈ jobs, job.name = name

/-- The plans for `jobs` that were listed are for jobs that were listed. -/
theorem listed_of_mem_plansFor {jobs : List Job} {plan : SearchPlan} (hjobs : .jobs (.ok jobs) ∈ events)
    (h : plan ∈ a.plansFor jobs) : Listed events plan.job := by
  obtain ⟨job, hjob, hplan⟩ := List.mem_filterMap.1 h
  obtain ⟨root, -, rfl⟩ := Option.map_eq_some_iff.1 hplan
  exact ⟨jobs, hjobs, job, hjob, rfl⟩

/-- The runs that plans for listed jobs find are runs of listed jobs. -/
theorem inherits_listed (events : List Event) :
    Inherits (fun plans => ∀ plan ∈ plans, Listed events plan.job)
      (fun runs => ∀ run ∈ runs, Listed events run.jobName) where
  of_outcome hplans hsearched ho run hrun := by
    obtain ⟨plan, hplan, hbelongs⟩ := hsearched.exists_plan ho hrun
    exact hbelongs.jobName_eq ▸ hplans plan hplan
  of_subperm h hsub run hrun := h run (hsub.subset hrun)
  nil run hrun := absurd hrun (by simp)

/-- **Every run that is judged is one of a job that was listed**, whatever store and catalog answer, in whatever order
the events come, and whenever the signal is given. -/
theorem listed_of_judged (h : playAll step events (start options links checkers earlier) = some a) :
    ∀ r ∈ a.judged, Listed events r.run.jobName := fun _ hr =>
  (handed_of_playAll (inherits_listed events) (fun _ _ _ hjobs _ => listed_of_mem_plansFor hjobs) h).judged _
    (List.mem_map_of_mem hr)

end PayloadGate.Analysis
