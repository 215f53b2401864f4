import PayloadGate.Search

/-! # What can happen to a search

What a step of a search keeps is read off two lists, which hold all that can happen.

* **`Comes`**, **`comes_resolved`** — what a search comes to when its reader has got on with a run.
* **`Moves`**, **`step_eq_some_iff`** — the steps of a search. -/

namespace PayloadGate

/-- **What a search comes to** when its reader has got on with a run and is now at `r`: one constructor for each way in
which `r` can stand. -/
inductive Comes (s : Search) (scan : Scan) (r : Resolver) : Search → Prop where
  /-- The reader needs another answer. -/
  | busy (live : ∀ result, r.stage ≠ .ended result) :
      Comes s scan r { s with stage := .scanning { scan with resolving := some r } }
  /-- The run could not be resolved. -/
  | failed {f : Failure} (hr : r.stage = .ended (.error f)) : Comes s scan r (s.finish (.error f))
  /-- It is no run yet. -/
  | empty (hr : r.stage = .ended (.ok none)) :
      Comes s scan r { s with stage := .scanning { scan with resolving := none } }
  /-- The run is behind the window. -/
  | late {run : JobRun} (hr : r.stage = .ended (.ok (some run)))
      (h : s.plan.windowEnd < run.descriptor.created) :
      Comes s scan r (s.finish (s.conclusion scan))
  /-- The run has the mark. -/
  | kept {run : JobRun} (hr : r.stage = .ended (.ok (some run)))
      (h : ¬ s.plan.windowEnd < run.descriptor.created)
      (ha : s.plan.matcher.accepts run.descriptor = true) :
      Comes s scan r { s with
        stage := .scanning { scan with resolving := none, found := scan.found ++ [run] } }
  /-- The run has not. -/
  | dropped {run : JobRun} (hr : r.stage = .ended (.ok (some run)))
      (h : ¬ s.plan.windowEnd < run.descriptor.created)
      (ha : s.plan.matcher.accepts run.descriptor = false) :
      Comes s scan r { s with stage := .scanning { scan with resolving := none } }

/-- **A search comes to one of these**: `s.resolved scan r` is reached by one of the constructors of `Comes`. -/
theorem comes_resolved (s : Search) (scan : Scan) (r : Resolver) :
    Comes s scan r (s.resolved scan r) := by
  rw [Search.resolved]
  cases hr : r.stage with
  | listing c files => exact .busy fun result => by rw [hr]; simp
  | reading key results => exact .busy fun result => by rw [hr]; simp
  | ended result =>
    rcases result with f | _ | run
    · exact .failed hr
    · exact .empty hr
    · show Comes s scan r (s.keep scan run)
      rw [Search.keep]
      by_cases hlate : s.plan.windowEnd < run.descriptor.created
      · rw [if_pos hlate]
        exact .late hr hlate
      · rw [if_neg hlate]
        cases haccepts : s.plan.matcher.accepts run.descriptor with
        | true => exact .kept hr hlate haccepts
        | false => exact .dropped hr hlate haccepts

/-- **The steps of a search.** `Moves s e s'` has one constructor for each kind of event and each guard, and says
outright what `s` is before the event and what `s'` is after it; later modules argue by cases on it and not on
`Search.step`. -/
inductive Moves (s : Search) : Search.Event → Search → Prop where
  /-- The signal is given. -/
  | cancel : Moves s .cancel { s with cancelled := true }
  /-- The catalog has failed. -/
  | unseeded {f : Failure} {now : Time.Instant} (hs : s.stage = .seeding) :
      Moves s (.seed (.error f) now) (s.finish (.error f))
  /-- The catalog has answered, and the walk begins. -/
  | seeded {seed : Option String} {now : Time.Instant} (hs : s.stage = .seeding) :
      Moves s (.seed (.ok seed) now) { s with
        stage := .scanning ⟨.start (s.plan.route now) seed, [], none, []⟩ }
  /-- The walker gets an answer. -/
  | walked {scan : Scan} {c : Cursor} {reply : Except Failure ObjectPage}
      (hs : s.stage = .scanning scan) (hw : scan.walker.stage = .listing c) :
      Moves s (.walkerPage reply) { s with
        stage := .scanning { scan with walker := scan.walker.receive reply } }
  /-- The walker puts an id into the queue. -/
  | sent {scan : Scan} {id : String} {c : Cursor} (hs : s.stage = .scanning scan)
      (hw : scan.walker.stage = .offering id c) (hroom : scan.queue.length < queueLimit) :
      Moves s .walkerSend { s with
        stage := .scanning
          { scan with queue := scan.queue ++ [id], walker := scan.walker.accepted } }
  /-- The walker notices the signal. -/
  | quit {scan : Scan} (hs : s.stage = .scanning scan) (hc : s.cancelled = true)
      (hw : scan.walker.hasEnded = false) :
      Moves s .walkerQuit { s with stage := .scanning { scan with walker := scan.walker.quit } }
  /-- The reader takes an id. -/
  | taken {scan : Scan} {id : String} {queue : List String} (hs : s.stage = .scanning scan)
      (hr : scan.resolving = none) (hq : scan.queue = id :: queue) :
      Moves s .readerTake (s.resolved { scan with queue := queue } (.start (s.plan.place id)))
  /-- The reader finds that there will be no more ids. -/
  | concluded {scan : Scan} (hs : s.stage = .scanning scan) (hr : scan.resolving = none)
      (hq : scan.queue = []) (hw : scan.walker.hasEnded = true) :
      Moves s .readerTake (s.finish (s.conclusion scan))
  /-- The reader gets an answer for a page. -/
  | listed {scan : Scan} {r : Resolver} {c : Cursor} {files : RunFiles}
      {reply : Except Failure ObjectPage} (hs : s.stage = .scanning scan)
      (hr : scan.resolving = some r) (hc : r.stage = .listing c files) :
      Moves s (.readerPage reply) (s.resolved scan (r.receivePage reply))
  /-- The reader gets an answer for a descriptor. -/
  | read {scan : Scan} {r : Resolver} {key : String} {results : List String}
      {reply : Except Failure (List UInt8)} (hs : s.stage = .scanning scan)
      (hr : scan.resolving = some r) (hk : r.stage = .reading key results) :
      Moves s (.readerObject reply) (s.resolved scan (r.receiveObject reply))
  /-- The reader notices the signal. -/
  | left {scan : Scan} (hs : s.stage = .scanning scan) (hc : s.cancelled = true)
      (hr : scan.resolving = none) :
      Moves s .readerQuit (s.finish (s.conclusion scan))

variable {s s' : Search} {e : Search.Event}

/-- Each step of the list is a step of the search: `Moves s e s'` gives `s.step e = some s'`. -/
theorem step_of_moves (h : Moves s e s') : s.step e = some s' := by
  unfold Search.step
  cases h with
  | cancel => rfl
  | unseeded hs => rw [hs]
  | seeded hs => rw [hs]
  | walked hs hw => simp only [hs, hw]
  | sent hs hw hroom => simp only [hs, hw, hroom, if_true]
  | quit hs hc hw => simp only [hs, hc, hw, Bool.not_false, Bool.and_self, if_true]
  | taken hs hr hq => simp only [hs, hr, hq]
  | concluded hs hr hq hw => simp only [hs, hr, hq, hw, if_true]
  | listed hs hr hc => simp only [hs, hr, hc]
  | read hs hr hk => simp only [hs, hr, hk]
  | left hs hc hr => simp only [hs, hc, hr, Option.isNone_none, Bool.and_self, if_true]

/-- A step that the walker or the reader takes is one of a search that is `scanning`; only `.cancel` and `.seed` are
possible elsewhere. -/
theorem exists_scanning_of_step (h : s.step e = some s') (hcancel : e ≠ .cancel)
    (hseed : ∀ reply now, e ≠ .seed reply now) : ∃ scan, s.stage = .scanning scan := by
  unfold Search.step at h
  cases hs : s.stage with
  | scanning scan => exact ⟨scan, rfl⟩
  | seeding =>
    rw [hs] at h
    cases e <;> first
      | exact absurd rfl hcancel
      | exact absurd rfl (hseed _ _)
      | exact absurd h (by simp)
  | ended outcome =>
    rw [hs] at h
    cases e <;> first | exact absurd rfl hcancel | exact absurd h (by simp)

/-- The catalog's answer is a step of a search at `.seeding`. -/
theorem moves_of_seed {reply : Except Failure (Option String)} {now : Time.Instant}
    (h : s.step (.seed reply now) = some s') : Moves s (.seed reply now) s' := by
  unfold Search.step at h
  cases hs : s.stage with
  | seeding =>
    rw [hs] at h
    cases reply with
    | error f =>
      obtain rfl := Option.some.inj h
      exact .unseeded hs
    | ok seed =>
      obtain rfl := Option.some.inj h
      exact .seeded hs
  | scanning scan =>
    rw [hs] at h
    exact absurd h (by simp)
  | ended outcome =>
    rw [hs] at h
    exact absurd h (by simp)

/-- The walker gets an answer only at `.listing`. -/
theorem moves_of_walkerPage {reply : Except Failure ObjectPage}
    (h : s.step (.walkerPage reply) = some s') :
    Moves s (.walkerPage reply) s' := by
  obtain ⟨scan, hs⟩ := exists_scanning_of_step h (by simp) (by simp)
  unfold Search.step at h
  simp only [hs] at h
  cases hw : scan.walker.stage with
  | listing c =>
    simp only [hw] at h
    obtain rfl := Option.some.inj h
    exact .walked hs hw
  | offering id c =>
    simp only [hw] at h
    exact absurd h (by simp)
  | ended failure =>
    simp only [hw] at h
    exact absurd h (by simp)

/-- The walker puts an id into the queue only at `.offering`, and when fewer than `queueLimit` ids are in it. -/
theorem moves_of_walkerSend (h : s.step .walkerSend = some s') : Moves s .walkerSend s' := by
  obtain ⟨scan, hs⟩ := exists_scanning_of_step h (by simp) (by simp)
  unfold Search.step at h
  simp only [hs] at h
  cases hw : scan.walker.stage with
  | listing c =>
    simp only [hw] at h
    exact absurd h (by simp)
  | offering id c =>
    simp only [hw] at h
    by_cases hroom : scan.queue.length < queueLimit
    · rw [if_pos hroom] at h
      obtain rfl := Option.some.inj h
      exact .sent hs hw hroom
    · -- a full queue holds the walker up
      rw [if_neg hroom] at h
      exact absurd h (by simp)
  | ended failure =>
    simp only [hw] at h
    exact absurd h (by simp)

/-- The walker notices the signal when `s.cancelled` and the walk has not ended. -/
theorem moves_of_walkerQuit (h : s.step .walkerQuit = some s') : Moves s .walkerQuit s' := by
  obtain ⟨scan, hs⟩ := exists_scanning_of_step h (by simp) (by simp)
  unfold Search.step at h
  simp only [hs] at h
  by_cases hc : (s.cancelled && !scan.walker.hasEnded) = true
  · rw [if_pos hc] at h
    obtain rfl := Option.some.inj h
    rw [Bool.and_eq_true, Bool.not_eq_true'] at hc
    exact .quit hs hc.1 hc.2
  · rw [if_neg hc] at h
    exact absurd h (by simp)

/-- The reader takes an id, or finds that there will be no more, only when `resolving = none`. -/
theorem moves_of_readerTake (h : s.step .readerTake = some s') : Moves s .readerTake s' := by
  obtain ⟨scan, hs⟩ := exists_scanning_of_step h (by simp) (by simp)
  unfold Search.step at h
  simp only [hs] at h
  cases hr : scan.resolving with
  | some r =>
    simp only [hr] at h
    exact absurd h (by simp)
  | none =>
    cases hq : scan.queue with
    | cons id queue =>
      simp only [hr, hq] at h
      obtain rfl := Option.some.inj h
      exact .taken hs hr hq
    | nil =>
      simp only [hr, hq] at h
      by_cases hw : scan.walker.hasEnded = true
      · rw [if_pos hw] at h
        obtain rfl := Option.some.inj h
        exact .concluded hs hr hq hw
      · -- the walker may still send an id
        rw [if_neg hw] at h
        exact absurd h (by simp)

/-- The reader gets an answer for a page only while its run is `.listing`. -/
theorem moves_of_readerPage {reply : Except Failure ObjectPage}
    (h : s.step (.readerPage reply) = some s') :
    Moves s (.readerPage reply) s' := by
  obtain ⟨scan, hs⟩ := exists_scanning_of_step h (by simp) (by simp)
  unfold Search.step at h
  simp only [hs] at h
  -- a page is of use only while a resolver is `listing`; in every other state the event does not occur
  cases hr : scan.resolving with
  | none =>
    simp only [hr] at h
    exact absurd h (by simp)
  | some r =>
    cases hc : r.stage with
    | listing c files =>
      simp only [hr, hc] at h
      obtain rfl := Option.some.inj h
      exact .listed hs hr hc
    | reading key results =>
      simp only [hr, hc] at h
      exact absurd h (by simp)
    | ended result =>
      simp only [hr, hc] at h
      exact absurd h (by simp)

/-- The reader gets an answer for a descriptor only while its run is `.reading`. -/
theorem moves_of_readerObject {reply : Except Failure (List UInt8)}
    (h : s.step (.readerObject reply) = some s') : Moves s (.readerObject reply) s' := by
  obtain ⟨scan, hs⟩ := exists_scanning_of_step h (by simp) (by simp)
  unfold Search.step at h
  simp only [hs] at h
  cases hr : scan.resolving with
  | none =>
    simp only [hr] at h
    exact absurd h (by simp)
  | some r =>
    cases hk : r.stage with
    | listing c files =>
      simp only [hr, hk] at h
      exact absurd h (by simp)
    | reading key results =>
      simp only [hr, hk] at h
      obtain rfl := Option.some.inj h
      exact .read hs hr hk
    | ended result =>
      simp only [hr, hk] at h
      exact absurd h (by simp)

/-- The reader notices the signal between two runs, never within one. -/
theorem moves_of_readerQuit (h : s.step .readerQuit = some s') : Moves s .readerQuit s' := by
  obtain ⟨scan, hs⟩ := exists_scanning_of_step h (by simp) (by simp)
  unfold Search.step at h
  simp only [hs] at h
  by_cases hc : (s.cancelled && scan.resolving.isNone) = true
  · rw [if_pos hc] at h
    obtain rfl := Option.some.inj h
    rw [Bool.and_eq_true, Option.isNone_iff_eq_none] at hc
    exact .left hs hc.1 hc.2
  · rw [if_neg hc] at h
    exact absurd h (by simp)

/-- **Each step of a search is one of the list**: `s.step e = some s'` gives `Moves s e s'`. -/
theorem moves_of_step (h : s.step e = some s') : Moves s e s' := by
  cases e with
  | cancel =>
    -- the signal may be given at any time, also after the end
    obtain rfl := Option.some.inj h
    exact .cancel
  | seed reply now => exact moves_of_seed h
  | walkerPage reply => exact moves_of_walkerPage h
  | walkerSend => exact moves_of_walkerSend h
  | walkerQuit => exact moves_of_walkerQuit h
  | readerTake => exact moves_of_readerTake h
  | readerPage reply => exact moves_of_readerPage h
  | readerObject reply => exact moves_of_readerObject h
  | readerQuit => exact moves_of_readerQuit h

/-- **These are all the steps of a search**: `s.step e = some s' ↔ Moves s e s'`. -/
theorem step_eq_some_iff : s.step e = some s' ↔ Moves s e s' :=
  ⟨moves_of_step, step_of_moves⟩

end PayloadGate
