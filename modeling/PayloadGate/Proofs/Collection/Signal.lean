import PayloadGate.Proofs.Collection.Course

/-! # A collection behind the signal

* **`Collection.inDueCourse_cancelled`** — behind the signal a collection comes to the one outcome there is then.
* **`Collection.unsignalled_of_playAll`** — runs are an outcome only when the signal was neither given nor noticed, and
  then no job is left out. -/

namespace PayloadGate.Collection

variable {α : Type} {c c' : Collection α} {events : List (Event α)} {limit : Nat} {policy : RetryPolicy}
  {jobs : List String}

/-! ## Behind the signal -/

/-- The outcome behind the signal, whatever the results are. -/
def signalOutcome : Outcome := .error (.cancelled "job run collection cancelled")

/-- A step in which an attempt gets on, or the signal is given: `Event.isIdle`. -/
def Idles (c c' : Collection α) : Prop := ∃ e : Event α, e.isIdle = true ∧ c.step e = some c'

/-- Any other step; the workers have fewer of them ahead behind it. -/
def Works (c c' : Collection α) : Prop := ∃ e : Event α, e.isIdle = false ∧ c.step e = some c'

/-- When all workers have finished behind the signal, the outcome is `signalOutcome`. -/
theorem outcome?_of_cancelled (hc : c.cancelled = true) (hall : c.workers.all Worker.isFinished = true) :
    c.outcome? = some signalOutcome := by
  rw [outcome?, if_pos hall, if_pos hc, signalOutcome]

/-- **Behind the signal a collection comes to its one outcome**, whatever its attempts come to. By induction on the
`weight`. -/
theorem inDueCourse_cancelled [Inhabited α] (hpermits : 1 ≤ c.permits) (hc : c.cancelled = true) :
    InDueCourse Idles Works (fun d : Collection α => d.outcome? = some signalOutcome) c := by
  -- as long as it has no outcome a worker has not finished
  let held (d : Collection α) : Prop :=
    1 ≤ d.permits ∧ d.cancelled = true ∧ d.workers.all Worker.isFinished = false
  have hreach : ∀ d : Collection α, 1 ≤ d.permits → d.cancelled = true →
      d.outcome? = some signalOutcome ∨ held d := by
    intro d hpermits hc
    cases hall : d.workers.all Worker.isFinished with
    | true => exact .inl (outcome?_of_cancelled hc hall)
    | false => exact .inr ⟨hpermits, hc, hall⟩
  rcases hreach c hpermits hc with hnow | hheld
  · exact .now hnow
  · refine inDueCourse_of_rank Nat.lt_wfRel.wf held weight ?_ ?_ ?_ hheld
    · rintro a b ⟨hpermits, hc, hall⟩ ⟨e, he, hab⟩
      exact ⟨⟨permits_of_step hab ▸ hpermits, cancelled_of_step hab hc, (all_isFinished_of_isIdle hab he).trans hall⟩,
        weight_eq_of_isIdle hab he⟩
    · rintro a ⟨hpermits, hc, hall⟩
      rcases exists_ready hpermits hall with ⟨i, w, hw, hactive⟩ | ⟨i, w, hw, hs, hpermit⟩
      · exact ⟨_, .notice i, rfl, step_of_moves (.noticed hw hc hactive)⟩
      · -- a worker notices the signal once it has a permit
        exact ⟨_, .begin i default, rfl, step_of_moves (.begun hw hs hpermit)⟩
    · rintro a b ⟨hpermits, hc, hall⟩ ⟨e, he, hab⟩
      exact (hreach b (permits_of_step hab ▸ hpermits) (cancelled_of_step hab hc)).imp_right
        fun hheld => ⟨hheld, weight_lt_of_step hab he⟩

/-! ## Lists of events -/

/-- There is a permit behind each list of events, because there was one at the start. -/
theorem one_le_permits_of_playAll (h : playAll Collection.step events (start limit policy jobs) = some c) :
    1 ≤ c.permits :=
  playAll_induction (fun _ c => 1 ≤ c.permits) (one_le_permits_start limit policy jobs)
    (fun _ _ _ _ _ ih hstep => permits_of_step hstep ▸ ih) h

/-- A step other than the signal leaves `cancelled` as it is. -/
theorem cancelled_eq_of_step {e : Event α} (h : c.step e = some c') (he : e ≠ .cancel) :
    c'.cancelled = c.cancelled := by
  cases moves_of_step h with
  | cancel => exact absurd rfl he
  | _ => rfl

/-- **The signal has been given when it is one of the events**: `c.cancelled = true ↔ .cancel ∈ events`. -/
theorem cancelled_iff_of_playAll (h : playAll Collection.step events (start limit policy jobs) = some c) :
    c.cancelled = true ↔ .cancel ∈ events := by
  refine playAll_induction (fun xs c => c.cancelled = true ↔ .cancel ∈ xs)
    (by simp [start]) (fun xs t e t' _ ih hstep => ?_) h
  rw [List.mem_append, List.mem_singleton]
  by_cases he : e = .cancel
  · subst he
    cases moves_of_step hstep with
    | cancel => exact ⟨fun _ => .inr rfl, fun _ => rfl⟩
  · rw [cancelled_eq_of_step hstep he, ih]
    exact ⟨.inl, fun hmem => hmem.resolve_right fun heq => he heq.symm⟩

/-- A worker notices only a signal that has been given. -/
theorem notice_of_playAll (h : playAll Collection.step events (start limit policy jobs) = some c) {i : Nat}
    (hi : .notice i ∈ events) : c.cancelled = true := by
  refine playAll_induction (fun xs c => .notice i ∈ xs → c.cancelled = true)
    (fun hmem => absurd hmem (by simp)) (fun xs t e t' _ ih hstep hmem => ?_) h hi
  rcases List.mem_append.1 hmem with hmem | hmem
  · exact cancelled_of_step hstep (ih hmem)
  · obtain rfl := List.mem_singleton.1 hmem
    cases moves_of_step hstep with
    | noticed hw hc => exact hc

/-- Behind each list of events the results tell what some ledger tells. -/
theorem exists_ledger_of_playAll (h : playAll Collection.step events (start limit policy jobs) = some c) :
    ∃ ledger, Ledger jobs c ledger :=
  playAll_induction (fun _ c => ∃ ledger, Ledger jobs c ledger) ⟨[], ledger_start limit policy jobs⟩
    (fun _ _ _ _ _ ⟨_, ih⟩ hstep => ⟨_, ih.shift (shifts_of_step hstep)⟩) h

/-- When all workers have finished, each job has its one result: the names of the results are a permutation of
`jobs`. -/
theorem Ledger.perm_jobs {ledger : List (Nat × Outcome)} (h : Ledger jobs c ledger)
    (hall : c.workers.all Worker.isFinished = true) : (c.results.map Prod.fst).Perm jobs := by
  have hjobs : (List.range jobs.length).map (fun i => jobs.getD i "") = jobs := by
    refine List.ext_getElem (by simp) fun i hi hi' => ?_
    rw [List.getElem_map, List.getElem_range, List.getD_eq_getElem?_getD, List.getElem?_eq_getElem hi',
      Option.getD_some]
  have hperm := (h.perm_range hall).map fun i => jobs.getD i ""
  rw [hjobs, List.map_map] at hperm
  rw [h.results_eq, List.map_map]
  exact hperm

/-- **Runs are an outcome only when the signal was neither given nor noticed**, and then no job is left out: each has
its result, and `runs` are those of all of them. -/
theorem unsignalled_of_playAll (h : playAll Collection.step events (start limit policy jobs) = some c)
    {runs : List JobRun} (ho : c.outcome? = some (.ok runs)) :
    (∀ e ∈ events, e ≠ .cancel ∧ ∀ i, e ≠ .notice i) ∧ (c.results.map Prod.fst).Perm jobs
      ∧ runs = c.results.flatMap fun r => runsOf r.2 := by
  obtain ⟨hc, hruns⟩ := eq_of_outcome?_ok ho
  have hall := all_isFinished_of_outcome? ho
  obtain ⟨ledger, hledger⟩ := exists_ledger_of_playAll h
  refine ⟨fun e he => ⟨?_, ?_⟩, hledger.perm_jobs hall, hruns⟩
  · rintro rfl
    rw [(cancelled_iff_of_playAll h).2 he] at hc
    exact absurd hc (by simp)
  · rintro i rfl
    rw [notice_of_playAll h he] at hc
    exact absurd hc (by simp)

end PayloadGate.Collection
