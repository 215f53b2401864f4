import PayloadGate.Proofs.Search.Stop

/-! # The pace of walker and reader

A walker may be ahead of the reader by as many ids as the queue holds, or behind it, and has then looked at nothing that
the reader does not need. A search that stops can come to its stop in both ways. Which of the two it is decides what it
answers when the walk fails behind the stop.

* **`exists_path_of_overrun`** — the steps in which the walker is ahead and meets its failure first.
* **`Unhurried`**, **`exists_path_of_stop`** — the steps in which the walker is behind.
* **`canAnswer_iff_of_stop`** — the answers that a search can give that stops. -/

namespace PayloadGate

open Walk (Walker passFrom)
open Relation (ReflTransGen)

variable {store : Snapshot} {plan : SearchPlan} {seed place : Option String} {now : Time.Instant}
  {out : List String × Option Failure} {later queue : List String} {id i : String} {found : List JobRun}
  {f : Failure} {o : Outcome} {x x' : Session} {scan : Scan} {r : Resolver} {n : Nat}

/-! ## Steps of the reader -/

/-- **The walker stays** at `x'` what it was at `x`, with the pages that it still has to get. -/
structure KeepsWalker (x x' : Session) : Prop where
  /-- The pages. -/
  pages_eq : x'.walkerPages = x.walkerPages
  /-- The walker. -/
  walker_eq : ∀ scan', x'.search.stage = .scanning scan' →
    ∃ scan, x.search.stage = .scanning scan ∧ scan'.walker = scan.walker

/-- A reader that gets on with a run does not concern the walker, as long as the search goes on. -/
theorem keepsWalker_resolved {after : Scan} (hs : x.search.stage = .scanning scan)
    (hwalker : after.walker = scan.walker) (r : Resolver) (pages : List ObjectPage) :
    KeepsWalker x ⟨x.search.resolved after r, x.walkerPages, pages⟩ := by
  refine ⟨rfl, fun scan' hs' => ⟨scan, hs, ?_⟩⟩
  rw [← hwalker]
  dsimp only at hs'
  generalize hafter : x.search.resolved after r = s' at hs'
  have hcomes := comes_resolved x.search after r
  rw [hafter] at hcomes
  cases hcomes with
  | busy | empty | kept | dropped => rw [← SearchStage.scanning.inj hs']
  | failed | late => exact absurd hs' (by simp [Search.finish])

/-- What a reader comes to that has got on with a run, when `o` is what the search concludes at its stop: the run `id`
answers `o`, and any other lets the session advance. -/
theorem StopsAt.result_or_advances (h : StopsAt store plan out.1 id found later)
    (hunderway : Underway store plan place out x n) (hs : x.search.stage = .scanning scan)
    (hr : scan.resolving = some r) (ho : r.place.id = id → x.search.conclusion scan = o)
    (hsettles : Settles store plan place out x n scan r.place.id x') :
    x'.search.result? = some o ∨ Advances store plan place out x n x' := by
  refine hsettles.imp_left ?_
  rintro ⟨o', ho', hstops⟩
  obtain ⟨rest, left, -, -, hgone⟩ := hunderway.gone_of_resolving hs hr
  rcases h.goesOn_or_eq hgone with hgoes | ⟨hid, -⟩
  · exact absurd hgoes hstops.not_goesOn
  · cases hstops with
    | failed hf =>
      obtain ⟨run, hrun, -⟩ := h.late
      rw [hid, hrun] at hf
      exact absurd hf (by simp)
    | late => rw [ho', ho hid]

/-- **A reader can get on with its run**: it answers `o`, or the session advances and the walker stays. -/
theorem StopsAt.exists_reader_step (seed : Option String) (now : Time.Instant)
    (h : StopsAt store plan out.1 id found later) (hunderway : Underway store plan place out x n)
    (hs : x.search.stage = .scanning scan) (hr : scan.resolving = some r)
    (ho : r.place.id = id → x.search.conclusion scan = o) :
    ∃ x', Session.Step store seed now x x' ∧ KeepsWalker x x'
      ∧ (x'.search.result? = some o ∨ Advances store plan place out x n x') := by
  have hcopy := hunderway
  obtain @⟨scan', rest, left, -, -, stage, -, -, -, reading⟩ := hcopy
  obtain rfl : scan' = scan := SearchStage.scanning.inj (stage.symm.trans hs)
  cases reading with
  | idle resolving => exact absurd (resolving.symm.trans hr) (by simp)
  | @busy r' left' resolving place_eq keeps live supplied gone =>
    obtain rfl : r' = r := Option.some.inj (resolving.symm.trans hr)
    -- what the resolver asks for, the store offers: a page or the descriptor, and either one is progress
    cases hstage : r'.stage with
    | listing c files =>
      obtain ⟨page, pages, hoffers⟩ := exists_offers store (supplied c files hstage)
      exact ⟨_, .readerPage hs hr hstage hoffers (step_of_moves (.listed hs hr hstage)),
        keepsWalker_resolved hs rfl _ _,
        h.result_or_advances hunderway hs hr ho (underway_readerPage hunderway hs hr hstage hoffers)⟩
    | reading key results =>
      exact ⟨_, .readerObject hs hr hstage (step_of_moves (.read hs hr hstage)), keepsWalker_resolved hs rfl _ _,
        h.result_or_advances hunderway hs hr ho (underway_readerObject hunderway hs hr hstage)⟩
    | ended result => exact absurd hstage (live result)

/-- **A reader can take an id**: a run before the stop is not settled by it, so the session advances and the walker
stays. -/
theorem StopsAt.exists_take_step (seed : Option String) (now : Time.Instant)
    (h : StopsAt store plan out.1 id found later) (hunderway : Underway store plan place out x n)
    (hs : x.search.stage = .scanning scan) (hr : scan.resolving = none) (hq : scan.queue = i :: queue) :
    ∃ x', Session.Step store seed now x x' ∧ KeepsWalker x x' ∧ Advances store plan place out x n x' := by
  have hkeeps := keepsWalker_resolved hs (rfl : { scan with queue := queue }.walker = scan.walker)
    (.start (x.search.plan.place i)) x.readerPages
  refine ⟨_, .own rfl (step_of_moves (.taken hs hr hq)), hkeeps, ?_⟩
  rw [hunderway.plan_eq]
  refine (underway_readerTake hunderway hs hr hq).resolve_left ?_
  rintro ⟨f, -, hf⟩
  obtain ⟨rest, left, -, -, hgone⟩ := hunderway.gone_of_idle hs hr
  rw [hq, List.cons_append] at hgone
  -- neither an id before the stop nor that of the stop is malformed
  rcases h.goesOn_or_eq hgone with ⟨run?, hrun, -⟩ | ⟨rfl, -⟩
  · exact absurd (hf.symm.trans hrun) (by simp)
  · obtain ⟨run, hrun, -⟩ := h.late
    exact absurd (hf.symm.trans hrun) (by simp)

/-! ## Walkers that are ahead -/

/-- **A step that brings the walker ahead of the reader**, when the walk fails with `f` and the queue has room for all
ids that are found behind the stop: the walker goes on as long as it can, and at the stop it has met its failure. -/
theorem StopsAt.exists_ahead_step (seed : Option String) (now : Time.Instant)
    (h : StopsAt store plan out.1 id found later) (hf : out.2 = some f) (hroom : later.length ≤ queueLimit)
    (hunderway : Underway store plan place out x n) :
    ∃ x', Session.Step store seed now x x'
      ∧ (x'.search.result? = some (.error f) ∨ Advances store plan place out x n x') := by
  obtain ⟨scan, hs⟩ := hunderway.exists_scan
  have hcopy := hunderway
  obtain @⟨scan', rest, left, -, -, stage, walking, supplied, -, -⟩ := hcopy
  obtain rfl : scan' = scan := SearchStage.scanning.inj (stage.symm.trans hs)
  -- the walker goes first: a page, or the send of an id when there is room
  cases hw : scan'.walker.stage with
  | listing c =>
    obtain ⟨page, pages, hoffers⟩ := exists_offers store (supplied c (by rw [Walker.cursor?, hw]))
    exact ⟨_, .walkerPage hs hw hoffers (step_of_moves (.walked hs hw)),
      .inr (underway_walkerPage hunderway hs hw hoffers)⟩
  | offering i c =>
    by_cases hfull : scan'.queue.length < queueLimit
    · exact ⟨_, .own rfl (step_of_moves (.sent hs hw hfull)), .inr (underway_sent hunderway hs hw hfull)⟩
    · -- with a full queue and an id that has no room the reader cannot be at the stop yet
      cases hr : scan'.resolving with
      | none =>
        cases hq : scan'.queue with
        | nil => exact absurd (by rw [hq]; decide) hfull
        | cons i queue =>
          obtain ⟨x', hstep, -, hadvances⟩ := h.exists_take_step seed now hunderway hs hr hq
          exact ⟨x', hstep, .inr hadvances⟩
      | some r =>
        have hbefore : r.place.id ≠ id := by
          intro hid
          obtain ⟨rest', left', hwalking, -, hgone⟩ := hunderway.gone_of_resolving hs hr
          obtain ⟨ids, m, -, hids, -⟩ := Walk.standing_accepted hwalking hw
          obtain rfl : rest' = i :: ids := hids
          rcases h.goesOn_or_eq hgone with hgoes | ⟨-, rfl⟩
          · rw [hid] at hgoes
            exact h.not_goesOn hgoes
          · rw [List.length_append, List.length_cons] at hroom
            omega
        obtain ⟨x', hstep, -, hcomes⟩ := h.exists_reader_step seed now hunderway hs hr fun hid => absurd hid hbefore
        exact ⟨x', hstep, hcomes⟩
  | ended failure =>
    have hended : scan'.walker.hasEnded = true := by rw [Walker.hasEnded, hw]
    have hconclusion : x.search.conclusion scan' = .error f := by
      rw [conclusion_eq hunderway.cancelled_eq, ← (Prod.mk.inj (eq_of_standing walking hended)).2, hf]
      rfl
    -- the walker has failed, so the reader works off its queue and then meets the failure
    cases hr : scan'.resolving with
    | some r =>
      obtain ⟨x', hstep, -, hcomes⟩ := h.exists_reader_step seed now hunderway hs hr fun _ => hconclusion
      exact ⟨x', hstep, hcomes⟩
    | none =>
      cases hq : scan'.queue with
      | cons i queue =>
        obtain ⟨x', hstep, -, hadvances⟩ := h.exists_take_step seed now hunderway hs hr hq
        exact ⟨x', hstep, .inr hadvances⟩
      | nil => exact ⟨_, .own rfl (step_of_moves (.concluded hs hr hq hended)), .inl (congrArg some hconclusion)⟩

/-- **A search can answer the failure of its walk in place of the runs that it has found**, when it stops and the queue
has room for all ids that are found behind the stop, `later.length ≤ queueLimit`. -/
theorem exists_path_of_overrun (h : StopsAt store plan (passFrom store (plan.route now) seed).1 id found later)
    (hf : (passFrom store (plan.route now) seed).2 = some f) (hroom : later.length ≤ queueLimit) :
    CanAnswer store plan seed now (.error f) := by
  obtain ⟨n, hunderway⟩ := underway_seeded (rfl : passFrom store (plan.route now) seed = _)
  obtain ⟨x, hpath, hresult⟩ := exists_path_of_rank wellFounded_below Session.rank
    (fun _ _ h' => h.exists_ahead_step seed now hf hroom h') hunderway
  exact ⟨x, hpath.head (step_seeded store plan seed now), hresult⟩

/-! ## Walkers that are behind -/

/-- **A walker that gets the objects one by one** and has met no failure: there is nothing in its buffer behind the
object that it goes through, and no page holds more than one. -/
structure Unhurried (x : Session) : Prop where
  /-- No page holds more than one object. -/
  pages : ∀ page ∈ x.walkerPages, page.records.length ≤ 1
  /-- The walker has no failure. -/
  failure? : ∀ scan, x.search.stage = .scanning scan → scan.walker.failure? = none
  /-- Behind the id that it offers there are no objects yet. -/
  buffer : ∀ scan i c, x.search.stage = .scanning scan → scan.walker.stage = .offering i c → c.buffer = []

/-- A reader that gets on leaves an unhurried walker as it is. -/
theorem Unhurried.of_keepsWalker (h : Unhurried x) (hkeeps : KeepsWalker x x') : Unhurried x' := by
  refine ⟨hkeeps.pages_eq ▸ h.pages, fun scan' hs' => ?_, fun scan' i c hs' hw => ?_⟩
  · obtain ⟨scan, hs, hwalker⟩ := hkeeps.walker_eq scan' hs'
    rw [hwalker]
    exact h.failure? scan hs
  · obtain ⟨scan, hs, hwalker⟩ := hkeeps.walker_eq scan' hs'
    rw [hwalker] at hw
    exact h.buffer scan i c hs hw

/-- At the start a walker is unhurried. -/
theorem unhurried_seeded (plan : SearchPlan) (seed : Option String) (now : Time.Instant) :
    Unhurried (.seeded plan seed now) := by
  refine ⟨by simp [Session.seeded], fun scan hs => ?_, fun scan i c hs hw => ?_⟩
  · rw [← SearchStage.scanning.inj hs]
    rfl
  · rw [← SearchStage.scanning.inj hs] at hw
    exact absurd hw (by simp [Walker.start, Walker.relist])

/-- Pages of one object each make up a listing of any `records`. -/
theorem Paging.exists_single (records : List ObjectRecord) :
    ∃ page pages, Paging (page :: pages) records ∧ ∀ p ∈ page :: pages, p.records.length ≤ 1 := by
  induction records with
  | nil => exact ⟨_, _, .last [], by simp⟩
  | cons r rest ih =>
    obtain ⟨page, pages, hpaging, hsingle⟩ := ih
    refine ⟨_, _, .more [r] "" hpaging, fun p hp => ?_⟩
    rcases List.mem_cons.1 hp with rfl | hp
    · exact le_rfl
    · exact hsingle p hp

/-- Objects that come one by one can go on to do so: a cursor can get a page of at most one object, and so can it behind
it. -/
theorem exists_single_offers (store : Snapshot) {c : Cursor} {pending : List ObjectPage}
    (hpending : c.token ≠ none → ∃ left, Paging pending left) (hsingle : ∀ p ∈ pending, p.records.length ≤ 1) :
    ∃ page pages, store.Offers c pending (page :: pages) ∧ ∀ p ∈ page :: pages, p.records.length ≤ 1 := by
  by_cases ht : c.token = none
  · obtain ⟨page, pages, hpaging, hsingle'⟩ := Paging.exists_single (store.listing c.query)
    exact ⟨page, pages, ⟨fun _ => hpaging, fun hne => absurd ht hne⟩, hsingle'⟩
  · cases pending with
    | nil =>
      obtain ⟨left, hpaging⟩ := hpending ht
      exact absurd hpaging Paging.not_nil
    | cons page pages => exact ⟨page, pages, ⟨fun hnone => absurd hnone ht, fun _ => rfl⟩, hsingle⟩

/-- A walker that offers the id of an object has passed it: its buffer is shorter than the `objects` that it went
through. -/
theorem Walk.length_buffer_lt_of_goThrough {w : Walker} {cursor c : Cursor} {objects : List ObjectRecord}
    (h : (w.goThrough cursor objects).stage = .offering i c) : c.buffer.length < objects.length := by
  -- by induction on the objects: an id is offered with the objects behind it in the buffer
  induction objects with
  | nil =>
    rw [Walker.goThrough] at h
    split_ifs at h
    exact absurd h (by simp [Walker.finish])
  | cons r objects ih =>
    have hpast : (w.goThrough cursor objects).stage = .offering i c → c.buffer.length < (r :: objects).length :=
      fun hs => (ih hs).trans (Nat.lt_succ_self _)
    rw [Walker.goThrough] at h
    split at h
    · exact hpast h
    · split at h
      · exact absurd h (by simp [Walker.finish])
      · split at h
        · exact absurd h (by simp [Walker.relist])
        · exact hpast h
    · split at h
      · exact absurd h (by simp [Walker.finish])
      · split at h
        · obtain ⟨-, rfl⟩ := Walk.Stage.offering.inj h
          exact Nat.lt_succ_self _
        · split at h
          · exact absurd h (by simp [Walker.relist])
          · exact hpast h

/-- A walker that needs a page has gone through all objects before, so that its buffer is empty. -/
theorem Walk.buffer_of_standing {w : Walker} {left : List ObjectRecord} {found : List String × Option Failure}
    {c : Cursor} (h : Walk.Standing store place w left found n) (hw : w.stage = .listing c) : c.buffer = [] := by
  cases h with
  | listing stage buffer =>
    obtain rfl := Walk.Stage.listing.inj (hw.symm.trans stage)
    exact buffer
  | offering stage => exact absurd (hw.symm.trans stage) (by simp)
  | ended stage => exact absurd (hw.symm.trans stage) (by simp)

/-- A walker that is waited for at an empty queue before the stop has not ended: the stop is still to come. -/
theorem StopsAt.not_hasEnded_of_idle (h : StopsAt store plan out.1 id found later)
    (hunderway : Underway store plan place out x n) (hs : x.search.stage = .scanning scan)
    (hr : scan.resolving = none) (hq : scan.queue = []) : ¬ scan.walker.hasEnded = true := by
  obtain ⟨rest, left, hwalking, -, hgone⟩ := hunderway.gone_of_idle hs hr
  intro hended
  obtain ⟨rfl, -⟩ := Prod.mk.inj (eq_of_standing hwalking hended)
  rw [hq] at hgone
  exact h.not_gone_nil hgone

/-- **One object for the walker**, when the reader waits for it: the walker stays unhurried, because a failure comes
behind the stop only. -/
theorem Unhurried.walkerPage {page : ObjectPage} {pages : List ObjectPage} {c : Cursor}
    (h : StopsAt store plan out.1 id found later) (hunderway : Underway store plan place out x n)
    (hs : x.search.stage = .scanning scan) (hr : scan.resolving = none) (hq : scan.queue = [])
    (hw : scan.walker.stage = .listing c) (hpages : store.Offers c x.walkerPages (page :: pages))
    (hsingle : ∀ p ∈ page :: pages, p.records.length ≤ 1) :
    Unhurried ⟨{ x.search with stage := .scanning { scan with walker := scan.walker.receive (.ok page) } },
      pages, x.readerPages⟩ := by
  refine ⟨fun p hp => hsingle p (List.mem_cons_of_mem page hp), fun scan' hs' => ?_, fun scan' i c' hs' hw' => ?_⟩
  · -- the walk does not fail before the stop
    obtain ⟨m, hm, -⟩ := underway_walkerPage hunderway hs hw hpages
    rw [← SearchStage.scanning.inj hs']
    cases hf : (scan.walker.receive (.ok page)).failure? with
    | none => rfl
    | some f => exact absurd (hasEnded_of_failure? hf) (h.not_hasEnded_of_idle hm rfl hr hq)
  · rw [← SearchStage.scanning.inj hs'] at hw'
    obtain ⟨rest, left, hwalking, -, -⟩ := hunderway.gone_of_idle hs hr
    dsimp only at hw'
    rw [Walk.receive_of_listing hw, Walk.buffer_of_standing hwalking hw, List.nil_append] at hw'
    have hlt := Walk.length_buffer_lt_of_goThrough hw'
    have hone := hsingle page List.mem_cons_self
    exact List.length_eq_zero_iff.1 (by omega)

/-- **An id that the walker puts into the queue**, when there are no objects behind it yet: the walker stays unhurried
and waits for a page. -/
theorem Unhurried.sent {c : Cursor} (h : Unhurried x) (hunderway : Underway store plan place out x n)
    (hs : x.search.stage = .scanning scan) (hw : scan.walker.stage = .offering i c) :
    Unhurried { x with
      search := { x.search with
        stage := .scanning { scan with queue := scan.queue ++ [i], walker := scan.walker.accepted } } } := by
  obtain ⟨next, hn⟩ : ∃ next, RunId.next i = .ok next := by
    obtain @⟨scan', rest, left, -, -, stage, walking, -, -, -⟩ := hunderway
    obtain rfl : scan' = scan := SearchStage.scanning.inj (stage.symm.trans hs)
    exact Walk.exists_next_of_standing walking hw
  -- the walker begins a new listing, or it needs a page, or it has come to the end
  have hcomes : scan.walker.accepted.failure? = none ∧ ∀ j c', scan.walker.accepted.stage ≠ .offering j c' := by
    rw [Walk.accepted_of_offering hw hn, h.buffer scan i c hs hw]
    split
    · exact ⟨rfl, fun j c' => by simp [Walker.relist]⟩
    · rw [Walker.goThrough]
      split
      · exact ⟨rfl, fun j c' => by simp [Walker.finish]⟩
      · exact ⟨rfl, fun j c' => by simp⟩
  refine ⟨h.pages, fun scan' hs' => ?_, fun scan' j c' hs' hw' => ?_⟩
  · rw [← SearchStage.scanning.inj hs']
    exact hcomes.1
  · rw [← SearchStage.scanning.inj hs'] at hw'
    exact absurd hw' (hcomes.2 j c')

/-- **A step that keeps the walker behind the reader**: the walker goes on only when the reader waits for it, so at the
stop it has met no failure, and the search answers `found`. -/
theorem StopsAt.exists_behind_step (seed : Option String) (now : Time.Instant)
    (h : StopsAt store plan out.1 id found later) (hunhurried : Unhurried x)
    (hunderway : Underway store plan place out x n) :
    ∃ x', Session.Step store seed now x x'
      ∧ (x'.search.result? = some (.ok found) ∨ Unhurried x' ∧ Advances store plan place out x n x') := by
  obtain ⟨scan, hs⟩ := hunderway.exists_scan
  -- the reader goes first: the walker gets a turn only when there is nothing to resolve and nothing queued
  cases hr : scan.resolving with
  | some r =>
    have hconclusion : r.place.id = id → x.search.conclusion scan = .ok found := by
      intro hid
      obtain ⟨rest, left, -, -, hgone⟩ := hunderway.gone_of_resolving hs hr
      rw [hid] at hgone
      rw [conclusion_eq hunderway.cancelled_eq, hunhurried.failure? scan hs]
      exact (StopsAt.mk hgone h.late).reference_eq.symm.trans h.reference_eq
    obtain ⟨x', hstep, hkeeps, hcomes⟩ := h.exists_reader_step seed now hunderway hs hr hconclusion
    exact ⟨x', hstep, hcomes.imp_right fun hadvances => ⟨hunhurried.of_keepsWalker hkeeps, hadvances⟩⟩
  | none =>
    cases hq : scan.queue with
    | cons i queue =>
      obtain ⟨x', hstep, hkeeps, hadvances⟩ := h.exists_take_step seed now hunderway hs hr hq
      exact ⟨x', hstep, .inr ⟨hunhurried.of_keepsWalker hkeeps, hadvances⟩⟩
    | nil =>
      cases hw : scan.walker.stage with
      | listing c =>
        have hsupplied : c.token ≠ none → ∃ left, Paging x.walkerPages left := by
          obtain @⟨scan', rest, left, -, -, stage, -, supplied, -, -⟩ := hunderway
          obtain rfl : scan' = scan := SearchStage.scanning.inj (stage.symm.trans hs)
          exact fun ht => ⟨left, supplied c (by rw [Walker.cursor?, hw]) ht⟩
        obtain ⟨page, pages, hoffers, hsingle⟩ := exists_single_offers store hsupplied hunhurried.pages
        exact ⟨_, .walkerPage hs hw hoffers (step_of_moves (.walked hs hw)),
          .inr ⟨.walkerPage h hunderway hs hr hq hw hoffers hsingle, underway_walkerPage hunderway hs hw hoffers⟩⟩
      | offering i c =>
        have hroom : scan.queue.length < queueLimit := by rw [hq]; decide
        exact ⟨_, .own rfl (step_of_moves (.sent hs hw hroom)),
          .inr ⟨hunhurried.sent hunderway hs hw, underway_sent hunderway hs hw hroom⟩⟩
      | ended failure => exact absurd (by rw [Walker.hasEnded, hw]) (h.not_hasEnded_of_idle hunderway hs hr hq)

/-- **A search that stops can answer the runs that it has found**, whatever lies behind the stop. By induction on the
rank, one `exists_behind_step` after the other. -/
theorem exists_path_of_stop (h : StopsAt store plan (passFrom store (plan.route now) seed).1 id found later) :
    CanAnswer store plan seed now (.ok found) := by
  obtain ⟨n, hunderway⟩ := underway_seeded (rfl : passFrom store (plan.route now) seed = _)
  have hfall : ∀ x n, (Unhurried x ∧ Underway store plan (seed.map (plan.route now).offset)
        (passFrom store (plan.route now) seed) x n) →
      ∃ x', Session.Step store seed now x x' ∧ (x'.search.result? = some (.ok found)
        ∨ ∃ m, (Unhurried x' ∧ Underway store plan (seed.map (plan.route now).offset)
          (passFrom store (plan.route now) seed) x' m) ∧ Below (x'.rank m) (x.rank n)) := by
    rintro x n ⟨hunhurried, hunderway⟩
    obtain ⟨x', hstep, hcomes⟩ := h.exists_behind_step seed now hunhurried hunderway
    refine ⟨x', hstep, hcomes.imp_right ?_⟩
    rintro ⟨hunhurried', m, hm, hbelow⟩
    exact ⟨m, ⟨hunhurried', hm⟩, hbelow⟩
  obtain ⟨x, hpath, hresult⟩ := exists_path_of_rank wellFounded_below Session.rank hfall
    ⟨unhurried_seeded plan seed now, hunderway⟩
  exact ⟨x, hpath.head (step_seeded store plan seed now), hresult⟩

/-! ## All answers -/

/-- **A failure `f` that the walker can meet** while the reader is at a stop with the ids `later` behind it: the walk
ends with it, and the queue has room for the ids. -/
def Overruns (store : Snapshot) (plan : SearchPlan) (seed : Option String) (now : Time.Instant) (later : List String)
    (f : Failure) : Prop :=
  (passFrom store (plan.route now) seed).2 = some f ∧ later.length ≤ queueLimit

/-- **The answers of a search that stops** are `.ok found`, the runs that it has found, and `.error f` for the failure
that the walker can meet. -/
theorem canAnswer_iff_of_stop (h : StopsAt store plan (passFrom store (plan.route now) seed).1 id found later) :
    CanAnswer store plan seed now o ↔ o = .ok found ∨ ∃ f, Overruns store plan seed now later f ∧ o = .error f := by
  constructor
  · rintro ⟨x, hpath, hresult⟩
    obtain ⟨o', ho', hconcludes⟩ := (inevitably_concludes store plan seed now).of_path
      (fun _ ⟨_, ho, _⟩ _ => not_step_of_result? ho) hpath fun _ => not_step_of_result? hresult
    obtain rfl : o = o' := Option.some.inj (hresult.symm.trans ho')
    rcases h.of_concludes hconcludes with rfl | ⟨f, hf, hroom, rfl⟩
    · exact .inl rfl
    · exact .inr ⟨f, ⟨hf, hroom⟩, rfl⟩
  · rintro (rfl | ⟨f, ⟨hf, hroom⟩, rfl⟩)
    · exact exists_path_of_stop h
    · exact exists_path_of_overrun h hf hroom

end PayloadGate
