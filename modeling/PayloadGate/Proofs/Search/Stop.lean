import PayloadGate.Proofs.Search.Answer

/-! # Searches that stop behind the window

A search stops at the first run behind its window. The walker does not wait for that, so that a failure of the walk may
be answered in place of the runs that were found.

* **`Inevitably.of_path`** — a system that comes to something on every path comes to it on each one that ends.
* **`CanAnswer`** — the answers that a search can give.
* **`inevitably_concludes`** — every search in a store that does not change comes to an end.
* **`StopsAt`** — the run at which a search stops, with the ids that the walk finds behind it.
* **`StopsAt.of_concludes`** — how a search ends that stops. -/

namespace PayloadGate

open Walk (Walker passFrom)
open Relation (ReflTransGen)

variable {store : Snapshot} {plan : SearchPlan} {seed place : Option String} {now : Time.Instant}
  {out : List String × Option Failure} {ids later later' : List String} {id : String} {found found' : List JobRun}
  {o : Outcome} {x x' : Session}

/-! ## Paths -/

/-- **What a system has to come to it comes to on each path that ends**: when `goal` is not left any more (`hgoal`), a
path from `a` to a `b` without further steps ends in it. -/
theorem Inevitably.of_path {α : Type} {step : α → α → Prop} {goal : α → Prop} {a b : α} (h : Inevitably step goal a)
    (hgoal : ∀ a, goal a → ∀ b, ¬ step a b) (hpath : ReflTransGen step a b) (hb : ∀ c, ¬ step b c) : goal b := by
  induction h with
  | @now a h =>
    rcases hpath.cases_head with rfl | ⟨c, hc, -⟩
    · exact h
    · exact absurd hc (hgoal a h c)
  | @later a next h ih =>
    rcases hpath.cases_head with rfl | ⟨c, hc, hpath⟩
    · obtain ⟨c, hc⟩ := next
      exact absurd hc (hb c)
    · exact ih c hc hpath

/-- A system that has to come to `goal` has to come to what follows from it, `goal'`. -/
theorem Inevitably.mono {α : Type} {step : α → α → Prop} {goal goal' : α → Prop} {a : α} (h : Inevitably step goal a)
    (hgoal : ∀ a, goal a → goal' a) : Inevitably step goal' a := by
  induction h with
  | now h => exact .now (hgoal _ h)
  | later next _ ih => exact .later next ih

/-- **A rank that falls on some step** brings a system to a goal on some path, when `held` is kept by that step. By
induction on the rank. -/
theorem exists_path_of_rank {α β ι : Type} {step : α → α → Prop} {goal : α → Prop} {below : β → β → Prop}
    (hwf : WellFounded below) {held : α → ι → Prop} (rank : α → ι → β)
    (hfall : ∀ a n, held a n → ∃ b, step a b ∧ (goal b ∨ ∃ m, held b m ∧ below (rank b m) (rank a n)))
    {a : α} {n : ι} (h : held a n) : ∃ b, ReflTransGen step a b ∧ goal b := by
  induction hk : rank a n using hwf.induction generalizing a n with
  | _ k ih =>
    obtain ⟨b, hstep, hgoal | ⟨m, hm, hlt⟩⟩ := hfall a n h
    · exact ⟨b, .single hstep, hgoal⟩
    · rw [hk] at hlt
      obtain ⟨c, hpath, hgoal⟩ := ih _ hlt hm rfl
      exact ⟨c, hpath.head hstep, hgoal⟩

/-! ## Whole searches -/

/-- **An answer that a search can give**: some path of steps ends with it, when the catalog answers `seed` and the clock
shows `now`. -/
def CanAnswer (store : Snapshot) (plan : SearchPlan) (seed : Option String) (now : Time.Instant) (o : Outcome) : Prop :=
  ∃ x, ReflTransGen (Session.Step store seed now) (Session.start plan) x ∧ x.search.result? = some o

/-- A session whose catalog has answered `seed` at `now`. -/
def Session.seeded (plan : SearchPlan) (seed : Option String) (now : Time.Instant) : Session :=
  ⟨⟨plan, false, .scanning ⟨.start (plan.route now) seed, [], none, []⟩⟩, [], []⟩

/-- The catalog can answer, as the first step of a session. -/
theorem step_seeded (store : Snapshot) (plan : SearchPlan) (seed : Option String) (now : Time.Instant) :
    Session.Step store seed now (.start plan) (.seeded plan seed now) :=
  .seed (step_of_moves (.seeded rfl))

/-- The first step of a search is the answer of the catalog: `x = .seeded plan seed now`. -/
theorem eq_seeded_of_step (h : Session.Step store seed now (.start plan) x) : x = .seeded plan seed now := by
  cases h with
  | seed hmove =>
    cases moves_of_step hmove with
    | seeded hs => rfl
  | walkerPage hs => exact absurd hs (by simp [Session.start, Search.start])
  | readerPage hs => exact absurd hs (by simp [Session.start, Search.start])
  | readerObject hs => exact absurd hs (by simp [Session.start, Search.start])
  | @own e s he hmove =>
    obtain ⟨scan, hs⟩ := exists_scanning_of_step hmove
      (by rintro rfl; exact absurd he (by simp [Session.isOwn]))
      (by rintro reply now rfl; exact absurd he (by simp [Session.isOwn]))
    exact absurd hs (by simp [Session.start, Search.start])

/-- A search with an answer takes no step, because the signal is none of `Session.Step`. -/
theorem not_step_of_result? (h : x.search.result? = some o) : ¬ Session.Step store seed now x x' := by
  have hstage : x.search.stage = .ended o := by
    rw [Search.result?] at h
    split at h
    · rename_i hs
      rw [hs, Option.some.inj h]
    · exact absurd h (by simp)
  intro hstep
  -- every step finds the search seeding or scanning, and this one has ended
  cases hstep with
  | seed hmove =>
    cases moves_of_step hmove with
    | seeded hs => exact absurd (hs.symm.trans hstage) (by simp)
  | walkerPage hs => exact absurd (hs.symm.trans hstage) (by simp)
  | readerPage hs => exact absurd (hs.symm.trans hstage) (by simp)
  | readerObject hs => exact absurd (hs.symm.trans hstage) (by simp)
  | @own e s he hmove =>
    obtain ⟨scan, hs⟩ := exists_scanning_of_step hmove
      (by rintro rfl; exact absurd he (by simp [Session.isOwn]))
      (by rintro reply now rfl; exact absurd he (by simp [Session.isOwn]))
    exact absurd (hs.symm.trans hstage) (by simp)

/-- **Every search comes to an end** that is one of `Concludes`, in a store that does not change and when nobody gives
the signal. -/
theorem inevitably_concludes (store : Snapshot) (plan : SearchPlan) (seed : Option String) (now : Time.Instant) :
    Inevitably (Session.Step store seed now)
      (fun x => ∃ o, x.search.result? = some o ∧ Concludes store plan (passFrom store (plan.route now) seed) o)
      (Session.start plan) := by
  obtain ⟨n, hunderway⟩ := underway_seeded (rfl : passFrom store (plan.route now) seed = _)
  refine .later ⟨_, step_seeded store plan seed now⟩ fun x' hstep => ?_
  rw [eq_seeded_of_step hstep]
  exact inevitably_of_rank wellFounded_below Session.rank (fun _ _ h => exists_step seed now h)
    (fun _ _ _ h hnext => concludes_or_advances h hnext) hunderway

/-! ## Stops -/

/-- **A search stops at a run** `id`: it goes through the ids before and has `found` runs in them, and the run is behind
the window. The walk finds the ids `later` behind it. -/
structure StopsAt (store : Snapshot) (plan : SearchPlan) (ids : List String) (id : String) (found : List JobRun)
    (later : List String) : Prop where
  /-- The ids before. -/
  gone : Gone store plan ids found (id :: later)
  /-- The run. -/
  late : IsLate plan (store.resolve (plan.place id))

/-- The run at the stop does not let a search go on. -/
theorem StopsAt.not_goesOn (h : StopsAt store plan ids id found later) :
    ¬ GoesOn plan (store.resolve (plan.place id)) :=
  (Stops.late h.late : Stops plan _ (.ok []) _).not_goesOn

/-- **The ids that come later while a search has not stopped** are `before ++ id :: later`: some that let it go on, and
those from the stop on. -/
theorem StopsAt.exists_before (h : StopsAt store plan ids id found later) (hgone : Gone store plan ids found' later') :
    ∃ before, later' = before ++ id :: later ∧ ∀ i ∈ before, GoesOn plan (store.resolve (plan.place i)) := by
  obtain ⟨earlier, rfl, hall, -⟩ := h.gone
  obtain ⟨earlier', heq, hall', -⟩ := hgone
  rcases List.append_eq_append_iff.1 heq with ⟨more, rfl, hlater⟩ | ⟨more, rfl, rfl⟩
  · cases more with
    | nil => exact ⟨[], hlater.symm, by simp⟩
    | cons i more =>
      -- the run at which the search stops would have been gone through
      obtain ⟨rfl, -⟩ := List.cons.inj hlater
      exact absurd (hall' id (List.mem_append_right _ List.mem_cons_self)) h.not_goesOn
  · exact ⟨more, rfl, fun i hi => hall i (List.mem_append_right _ hi)⟩

/-- An id at which a search is lets it go on, or it is that of the stop. -/
theorem StopsAt.goesOn_or_eq {i : String} (h : StopsAt store plan ids id found later)
    (hgone : Gone store plan ids found' (i :: later')) :
    GoesOn plan (store.resolve (plan.place i)) ∨ i = id ∧ later' = later := by
  obtain ⟨before, hbefore, hall⟩ := h.exists_before hgone
  cases before with
  | nil => exact .inr (List.cons.inj hbefore)
  | cons j before =>
    obtain ⟨rfl, -⟩ := List.cons.inj hbefore
    exact .inl (hall i List.mem_cons_self)

/-- A search does not come past its stop: some ids always come later. -/
theorem StopsAt.not_gone_nil (h : StopsAt store plan ids id found later) : ¬ Gone store plan ids found' [] := by
  intro hgone
  obtain ⟨before, hbefore, -⟩ := h.exists_before hgone
  exact absurd hbefore (by simp)

/-- The answer of a search that stops are the runs that it has found, `.ok found`. -/
theorem StopsAt.reference_eq (h : StopsAt store plan ids id found later) : reference store plan ids = .ok found := by
  obtain ⟨run, hrun, hlate⟩ := h.late
  rw [h.gone.reference_eq, reference, hrun, settle, if_pos hlate, prepend, Except.map, List.append_nil]

/-- **How a search ends that stops**: with `.ok found`, the runs that it has found, or with the failure `f` of the walk,
when the queue has room for all ids that are found behind the stop, `later.length ≤ queueLimit`. -/
theorem StopsAt.of_concludes (h : StopsAt store plan out.1 id found later) (ho : Concludes store plan out o) :
    o = .ok found ∨ ∃ f, out.2 = some f ∧ later.length ≤ queueLimit ∧ o = .error f := by
  cases ho with
  | failed gone hf =>
    rcases h.goesOn_or_eq gone with ⟨run?, hrun, -⟩ | ⟨rfl, -⟩
    · exact absurd (hf.symm.trans hrun) (by simp)
    · obtain ⟨run, hrun, -⟩ := h.late
      exact absurd (hf.symm.trans hrun) (by simp)
  | late gone hlate =>
    have hfound := (StopsAt.mk gone hlate).reference_eq
    rw [h.reference_eq] at hfound
    exact .inl hfound.symm
  | overrun gone hlate failure room =>
    rcases h.goesOn_or_eq gone with hgoes | ⟨rfl, rfl⟩
    · exact absurd hgoes (StopsAt.mk gone hlate).not_goesOn
    · exact .inr ⟨_, failure, room, rfl⟩
  | all gone => exact absurd gone h.not_gone_nil

end PayloadGate
