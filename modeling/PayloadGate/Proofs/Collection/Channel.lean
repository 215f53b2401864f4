import PayloadGate.Proofs.Collection.Signal
import Mathlib.Data.List.Perm.Subperm

/-! # Permits and the channel of the results

The workers of a collection put their results into a channel that nobody reads before all workers have finished. Its
room is bounded, and a worker whose result finds none would wait with its permit in hand. This file says why none does.

* **`Collection.active_le_permits_of_step`** — no more workers are at work than there are permits.
* **`Collection.channelLimit`**, **`Collection.stepWithin`** — the room of the channel, and what an event does when
  the results have to find room in it.
* **`Collection.stepWithin_eq_step`**, **`Collection.playAll_stepWithin`** — every result finds room.
* **`Collection.Unblocked`**, **`Collection.unblocked_of_playAll`** — what holds of a collection behind any events. -/

namespace PayloadGate.Collection

variable {α : Type} {c c' : Collection α} {e : Event α} {jobs : List String} {ledger : List (Nat × Outcome)}
  {events : List (Event α)} {limit room i : Nat} {policy : RetryPolicy} {w : Worker α}

/-! ## Permits -/

/-- The workers at work when `w` is replaced by `w'`: the sums with the one that leaves on one side and the one that
comes on the other are equal. -/
theorem countP_isActive_set {ws : List (Worker α)} (h : ws[i]? = some w) (w' : Worker α) :
    (ws.set i w').countP Worker.isActive + w.isActive.toNat
      = ws.countP Worker.isActive + w'.isActive.toNat := by
  induction ws generalizing i with
  | nil => exact absurd h (by simp)
  | cons v ws ih =>
    cases i with
    | zero =>
      obtain rfl : v = w := Option.some.inj h
      rw [List.set_cons_zero, List.countP_cons, List.countP_cons]
      cases v.isActive <;> cases w'.isActive <;> rfl
    | succ i =>
      have hrest := ih (i := i) h
      rw [List.set_cons_succ, List.countP_cons, List.countP_cons]
      omega

/-- The permits that are held when one worker is replaced, by `countP_isActive_set`. -/
theorem active_put (h : c.workers[i]? = some w) (w' : Worker α) :
    (c.put i w').active + w.isActive.toNat = c.active + w'.isActive.toNat :=
  countP_isActive_set h w'

/-- A worker that finishes holds no permit any more: `active` falls by one. -/
theorem active_finish (h : c.workers[i]? = some w) (ha : w.isActive = true) (answer : Outcome) :
    (c.finish i w answer).active + 1 = c.active := by
  have hput := active_put h { w with stage := .finished }
  rw [ha] at hput
  exact hput

/-- **No more workers are at work than there are permits**: `c.active ≤ c.permits` is kept by each step, because a
worker begins only when there is a permit for it. -/
theorem active_le_permits_of_step (h : c.step e = some c') (hle : c.active ≤ c.permits) :
    c'.active ≤ c'.permits := by
  rw [permits_of_step h]
  -- a permit is taken by `begun` alone, which asks for one that is free; a worker that goes on holds its own
  cases moves_of_step h with
  | cancel => exact hle
  | @begun i w attempt hw hs hpermit =>
    have hput := active_put hw { w with attempts := w.attempts + 1, stage := .attempting attempt }
    rw [show w.isActive = false by rw [Worker.isActive, hs]] at hput
    exact hput.trans_le hpermit
  | @advanced i w old attempt hw hs =>
    have hput := active_put hw { w with stage := .attempting attempt }
    rw [show w.isActive = true by rw [Worker.isActive, hs]] at hput
    exact (Nat.add_right_cancel hput).trans_le hle
  | @answered i w attempt o answer hw hs hj =>
    have hfinish := active_finish hw (by rw [Worker.isActive, hs]) answer
    omega
  | @failed i w attempt o spare hw hs hj =>
    have hput := active_put hw { w with spare := spare, stage := .pausing }
    rw [show w.isActive = true by rw [Worker.isActive, hs]] at hput
    exact (Nat.add_right_cancel hput).trans_le hle
  | @resumed i w attempt hw hs =>
    have hput := active_put hw { w with attempts := w.attempts + 1, stage := .attempting attempt }
    rw [show w.isActive = true by rw [Worker.isActive, hs]] at hput
    exact (Nat.add_right_cancel hput).trans_le hle
  | @noticed i w hw hc ha =>
    have hfinish := active_finish hw ha (.error (RetryPolicy.cancellation w.job))
    omega

/-- A collection has `max 1 limit` permits behind any list of events, and not more than that are held. -/
theorem active_le_of_playAll (h : playAll Collection.step events (start limit policy jobs) = some c) :
    c.permits = max 1 limit ∧ c.active ≤ max 1 limit := by
  refine playAll_induction (fun _ c => c.permits = max 1 limit ∧ c.active ≤ max 1 limit)
    ⟨rfl, by rw [active_start]; exact Nat.zero_le _⟩ (fun _ t e t' _ ih hstep => ?_) h
  have hpermits : t'.permits = max 1 limit := (permits_of_step hstep).trans ih.1
  exact ⟨hpermits, hpermits ▸ active_le_permits_of_step hstep (ih.1 ▸ ih.2)⟩

/-! ## Room for the results -/

/-- **How many results the channel holds at most**: `max 1 jobs.length`, one for each job, and one when there is
none. -/
def channelLimit (jobs : List String) : Nat := max 1 jobs.length

/-- **What an event does when the results have to find `room`** in a channel that nobody reads: nothing happens when
there would be more of them than it holds. -/
def stepWithin (room : Nat) (c : Collection α) (e : Event α) : Option (Collection α) :=
  (c.step e).filter fun c' => decide (c'.results.length ≤ room)

/-- There are no more results than jobs: no worker has two, so that the places of a ledger are different ones below
`jobs.length`. -/
theorem Ledger.length_results_le (h : Ledger jobs c ledger) : c.results.length ≤ jobs.length := by
  have hplaces : ledger.map Prod.fst ⊆ List.range jobs.length := by
    intro i hi
    obtain ⟨w, hw, -⟩ := (h.mem_iff i).1 hi
    rw [List.mem_range, ← h.length_workers]
    exact (List.getElem?_eq_some_iff.1 hw).1
  have hlength := (List.subperm_of_subset h.nodup hplaces).length_le
  rw [List.length_map, List.length_range] at hlength
  rwa [h.results_eq, List.length_map]

/-- **Every result finds room**: `stepWithin (channelLimit jobs)` and `step` do the same, whatever the event is. -/
theorem stepWithin_eq_step (h : Ledger jobs c ledger) (e : Event α) :
    c.stepWithin (channelLimit jobs) e = c.step e := by
  rw [stepWithin]
  cases hstep : c.step e with
  | none => rfl
  | some c' =>
    -- the results behind the event are those of a ledger as well
    have hroom : c'.results.length ≤ channelLimit jobs :=
      (h.shift (shifts_of_step hstep)).length_results_le.trans (Nat.le_max_right 1 jobs.length)
    rw [Option.filter_some, if_pos (decide_eq_true hroom)]

/-- From a collection with a ledger the events that are possible are the same with the channel and without it. By
induction on the events. -/
theorem Ledger.playAll_within (h : Ledger jobs c ledger) (events : List (Event α)) :
    playAll (stepWithin (channelLimit jobs)) events c = playAll Collection.step events c := by
  induction events generalizing c ledger with
  | nil => rfl
  | cons e events ih =>
    rw [playAll, playAll, stepWithin_eq_step h e]
    cases hstep : c.step e with
    | none => rfl
    | some c' => exact ih (h.shift (shifts_of_step hstep))

/-- **A collection with its channel is the collection without one**, from the start. -/
theorem playAll_stepWithin (limit : Nat) (policy : RetryPolicy) (jobs : List String) (events : List (Event α)) :
    playAll (stepWithin (channelLimit jobs)) events (start limit policy jobs)
      = playAll Collection.step events (start limit policy jobs) :=
  (ledger_start limit policy jobs).playAll_within events

/-! ## The end of all workers -/

/-- A step with the channel in which an attempt gets on, or the signal is given: `Event.isIdle`. -/
def IdlesWithin (room : Nat) (c c' : Collection α) : Prop :=
  ∃ e : Event α, e.isIdle = true ∧ c.stepWithin room e = some c'

/-- Any other step with the channel. -/
def WorksWithin (room : Nat) (c c' : Collection α) : Prop :=
  ∃ e : Event α, e.isIdle = false ∧ c.stepWithin room e = some c'

/-- As long as a worker has not finished, some event that is not `isIdle` is possible. -/
theorem exists_work [Inhabited α] (hpermits : 1 ≤ c.permits) (hall : c.workers.all Worker.isFinished = false) :
    ∃ e c', Event.isIdle e = false ∧ c.step e = some c' := by
  rcases exists_ready hpermits hall with ⟨i, w, hw, hactive⟩ | ⟨i, w, hw, hs, hpermit⟩
  · cases hs : w.stage with
    | attempting attempt =>
      -- the attempt may find nothing, and is the last one or not
      cases hj : RetryPolicy.judge w.job w.spare (.ok []) with
      | answer answer => exact ⟨.outcome i (.ok []), _, rfl, step_of_moves (.answered hw hs hj)⟩
      | again spare => exact ⟨.outcome i (.ok []), _, rfl, step_of_moves (.failed hw hs hj)⟩
    | pausing => exact ⟨.resume i default, _, rfl, step_of_moves (.resumed hw hs)⟩
    | queued => exact absurd hactive (by simp [Worker.isActive, hs])
    | finished => exact absurd hactive (by simp [Worker.isActive, hs])
  · exact ⟨.begin i default, _, rfl, step_of_moves (.begun hw hs hpermit)⟩

/-- **All workers finish in due course**, although nobody reads the channel: by induction on the `weight`, which falls
with each such step. -/
theorem inDueCourse_finished [Inhabited α] (hpermits : 1 ≤ c.permits) (h : Ledger jobs c ledger) :
    InDueCourse (IdlesWithin (channelLimit jobs)) (WorksWithin (channelLimit jobs))
      (fun d : Collection α => d.workers.all Worker.isFinished = true) c := by
  -- until all have finished, the invariant keeps a ledger, so that the channel has room for whatever is sent
  let held (d : Collection α) : Prop :=
    1 ≤ d.permits ∧ (∃ ledger, Ledger jobs d ledger) ∧ d.workers.all Worker.isFinished = false
  cases hall : c.workers.all Worker.isFinished with
  | true => exact .now hall
  | false =>
    -- ranked by `weight`, which every event that does work lowers and no idle one changes
    refine inDueCourse_of_rank Nat.lt_wfRel.wf held weight ?_ ?_ ?_ ⟨hpermits, ⟨ledger, h⟩, hall⟩
    · rintro a b ⟨hpermits, ⟨ledger, h⟩, hall⟩ ⟨e, he, hab⟩
      rw [stepWithin_eq_step h] at hab
      exact ⟨⟨permits_of_step hab ▸ hpermits, ⟨_, h.shift (shifts_of_step hab)⟩,
        (all_isFinished_of_isIdle hab he).trans hall⟩, weight_eq_of_isIdle hab he⟩
    · rintro a ⟨hpermits, ⟨ledger, h⟩, hall⟩
      obtain ⟨e, b, he, hab⟩ := exists_work hpermits hall
      exact ⟨b, e, he, (stepWithin_eq_step h e).trans hab⟩
    · rintro a b ⟨hpermits, ⟨ledger, h⟩, hall⟩ ⟨e, he, hab⟩
      rw [stepWithin_eq_step h] at hab
      cases hb : b.workers.all Worker.isFinished with
      | true => exact .inl rfl
      | false =>
        exact .inr ⟨⟨permits_of_step hab ▸ hpermits, ⟨_, h.shift (shifts_of_step hab)⟩, hb⟩,
          weight_lt_of_step hab he⟩

/-! ## Collections behind any events -/

/-- **What holds of a collection behind any events.** -/
structure Unblocked (limit : Nat) (jobs : List String) (c : Collection α) : Prop where
  /-- No more searches are in progress than there are permits. -/
  active_le : c.active ≤ max 1 limit
  /-- The channel holds what has been put into it. -/
  room : c.results.length ≤ channelLimit jobs
  /-- It holds up no event. -/
  sends : ∀ e, c.stepWithin (channelLimit jobs) e = c.step e
  /-- A search that ends can be settled at once, whatever it has come to. -/
  settles : ∀ i w attempt, c.workers[i]? = some w → w.stage = .attempting attempt →
    ∀ o, ∃ c', c.stepWithin (channelLimit jobs) (.outcome i o) = some c'
  /-- When no search is in progress and a worker has not finished, one that waits can take a permit. -/
  permit : c.active = 0 → c.workers.all Worker.isFinished = false →
    ∃ i w, c.workers[i]? = some w ∧ w.stage = .queued
      ∧ ∀ attempt, ∃ c', c.stepWithin (channelLimit jobs) (.begin i attempt) = some c'
  /-- All workers finish in due course. -/
  ends : InDueCourse (IdlesWithin (channelLimit jobs)) (WorksWithin (channelLimit jobs))
    (fun d : Collection α => d.workers.all Worker.isFinished = true) c
  /-- When they have finished, the channel holds the one result of each job. -/
  joined : c.workers.all Worker.isFinished = true →
    (c.results.map Prod.fst).Perm jobs ∧ c.results.length = jobs.length

/-- A search that is `attempting` can be settled by any outcome `o`. -/
theorem exists_step_outcome {attempt : α} (hw : c.workers[i]? = some w) (hs : w.stage = .attempting attempt)
    (o : Outcome) : ∃ c', c.step (.outcome i o) = some c' := by
  cases hj : RetryPolicy.judge w.job w.spare o with
  | answer answer => exact ⟨_, step_of_moves (.answered hw hs hj)⟩
  | again spare => exact ⟨_, step_of_moves (.failed hw hs hj)⟩

/-- **Nothing is ever held up**: behind any events that are possible with the channel, for all jobs and any number of
permits, the permits are not exceeded, every result finds room, and the workers go on until each has put in its one
result. -/
theorem unblocked_of_playAll [Inhabited α]
    (h : playAll (stepWithin (channelLimit jobs)) events (start (α := α) limit policy jobs) = some c) :
    Unblocked limit jobs c := by
  -- the room of the channel never refuses a step, so the collection is that of `Collection.step`
  rw [playAll_stepWithin] at h
  obtain ⟨ledger, hledger⟩ := exists_ledger_of_playAll h
  obtain ⟨hpermits, hactive⟩ := active_le_of_playAll h
  have hsends := stepWithin_eq_step hledger
  refine ⟨hactive, hledger.length_results_le.trans (Nat.le_max_right 1 _), hsends, ?_, ?_,
    inDueCourse_finished (one_le_permits_of_playAll h) hledger, fun hall => ?_⟩
  · intro i w attempt hw hs o
    rw [hsends]
    exact exists_step_outcome hw hs o
  · intro hnone hall
    rcases exists_ready (one_le_permits_of_playAll h) hall with ⟨i, w, hw, ha⟩ | ⟨i, w, hw, hs, hpermit⟩
    · -- nobody is at work
      have hpos : 0 < c.active := List.countP_pos_iff.2 ⟨w, List.mem_of_getElem? hw, ha⟩
      omega
    · refine ⟨i, w, hw, hs, fun attempt => ?_⟩
      rw [hsends]
      exact ⟨_, step_of_moves (.begun hw hs hpermit)⟩
  · have hperm := hledger.perm_jobs hall
    exact ⟨hperm, by rw [← hperm.length_eq, List.length_map]⟩

/-- The first search of two has failed, and the second one has begun with the permit that became free. -/
def secondEvents : List (Event Unit) := [.begin 0 (), .outcome 0 (.error (.storage "out of reach")), .begin 1 ()]

/-- Two jobs of one name share the only permit; a `limit` of `0` still gives one. -/
theorem unblocked_of_playAll_sharedPermit :
    ∃ c, playAll (stepWithin (channelLimit ["job", "job"])) secondEvents (start 0 ⟨0, 0⟩ ["job", "job"]) = some c
      ∧ c.active = 1 ∧ c.results.length = 1 ∧ Unblocked 0 ["job", "job"] c := by
  have hplay : playAll (stepWithin (channelLimit ["job", "job"])) secondEvents (start 0 ⟨0, 0⟩ ["job", "job"])
      = some _ := rfl
  exact ⟨_, hplay, rfl, rfl, unblocked_of_playAll hplay⟩

end PayloadGate.Collection
