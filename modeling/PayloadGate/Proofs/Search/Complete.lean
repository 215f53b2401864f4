import PayloadGate.Proofs.Run.Resolve
import PayloadGate.Proofs.Search.Journal

/-! # No run is lost silently

Whatever the store answers and in whatever order the walker and the reader go on, a search that
answers with runs has not lost any: the walk came to the end of its listing and all its ids were
resolved, or a run behind the window ended the search.

* **`walkLogged_leads`** — what the journal tells of a walker stays true when the walker goes on.
* **`logged_resolved`** — and so does what it tells of a reader that gets on with a run.
* **`logged_step`**, **`logged_play`** — each step keeps what the journal tells, and so do the
  events of a whole search.
* **`exists_event`** — as long as there is no answer the search can go on.
* **`complete_of_play`** — what the journal tells of the answer. -/

namespace PayloadGate

open Walk (Walker Leads)

variable {plan : SearchPlan} {s s' : Search} {scan : Scan} {j : Journal} {e : Search.Event}
  {w w' : Walker} {cancelled : Bool}

/-! ## The walker -/

/-- **What a walker comes to is logged**: from `Leads w cursor w'` and a journal that has the ids and the end of `w'`
follows `WalkLogged w' cancelled j`. When the listing is exhausted, the last of its pages that is logged has to be its
last one (`hlast`). -/
theorem walkLogged_leads {cursor : Cursor} (h : Leads w cursor w')
    (hlast : cursor.exhausted = true → j.LastPage) (hwalk : j.walk = w'.end?)
    (hsent : j.sent = w.emitted.reverse) : WalkLogged w' cancelled j := by
  refine ⟨hwalk, by rw [hsent, h.emitted_eq], ?_, ?_, ?_⟩
  · -- `h` has a case for each way a page leads on; only `offer` holds an id back
    intro id c hs
    cases h with
    | offer rest hn hid =>
      obtain ⟨rfl, -⟩ := Walk.Stage.offering.inj hs
      exact ⟨_, hn⟩
    | ended => exact absurd hs (by simp [Walker.finish])
    | failed => exact absurd hs (by simp [Walker.finish])
    | page => exact absurd hs (by simp)
    | relist => exact absurd hs (by simp [Walker.relist])
  · intro c hc hexhausted
    cases h with
    | ended => exact absurd hc (by simp [Walker.cursor?, Walker.finish])
    | failed => exact absurd hc (by simp [Walker.cursor?, Walker.finish])
    | page =>
      obtain rfl := Option.some.inj hc
      exact hlast hexhausted
    | offer =>
      obtain rfl := Option.some.inj hc
      exact hlast hexhausted
    | relist =>
      obtain rfl := Option.some.inj hc
      exact absurd hexhausted (by simp [Cursor.start])
  · intro hs
    cases h with
    | ended hexhausted => exact Or.inl (hlast hexhausted)
    | failed => exact absurd hs (by simp [Walker.finish])
    | page => exact absurd hs (by simp)
    | offer => exact absurd hs (by simp)
    | relist => exact absurd hs (by simp [Walker.relist])

/-- A walker that is made to end is logged; without a failure it may only be because of the signal. -/
theorem walkLogged_finish {failure : Option Failure} (hwalk : j.walk = some failure)
    (hsent : j.sent = w.emitted.reverse) (h : failure = none → cancelled = true) :
    WalkLogged (w.finish failure) cancelled j := by
  refine ⟨hwalk, hsent, ?_, ?_, ?_⟩
  · intro id c hs
    exact absurd hs (by simp [Walker.finish])
  · intro c hc
    exact absurd hc (by simp [Walker.cursor?, Walker.finish])
  · intro hs
    exact Or.inr (h (Walk.Stage.ended.inj hs))

/-- A walker before its first listing is logged by a journal without pages. -/
theorem walkLogged_start (route : Walk.Route) (seed : Option String) (hwalk : j.walk = none)
    (hsent : j.sent = []) :
    WalkLogged (.start route seed) cancelled j := by
  refine ⟨hwalk, hsent, ?_, ?_, ?_⟩
  · intro id c hs
    exact absurd hs (by simp [Walker.start, Walker.relist])
  · intro c hc hexhausted
    obtain rfl := Option.some.inj hc
    exact absurd hexhausted (by simp [Cursor.start])
  · intro hs
    exact absurd hs (by simp [Walker.start, Walker.relist])

/-- **An answer to the walker is logged** when it is added to `j.pages`. -/
theorem walkLogged_receive {c : Cursor} (h : WalkLogged w cancelled j) (hs : w.stage = .listing c)
    (reply : Except Failure ObjectPage) :
    WalkLogged (w.receive reply) cancelled
      { j with pages := j.pages ++ [reply], walk := (w.receive reply).end? } := by
  cases reply with
  | error f =>
    rw [Walk.receive_error_of_listing hs]
    exact walkLogged_finish rfl h.sent_eq (by simp)
  | ok page =>
    refine walkLogged_leads (Walk.leads_receive hs page)
      (fun hexhausted => ⟨page, ?_, ?_⟩) rfl h.sent_eq
    · rw [List.getLast?_concat]
    · rwa [Cursor.exhausted_receive_ok, Option.isNone_iff_eq_none] at hexhausted

/-- **An id that is taken from the walker is logged** when it is added to `j.sent`. -/
theorem walkLogged_accepted {c : Cursor} {id : String} (h : WalkLogged w cancelled j)
    (hs : w.stage = .offering id c) :
    WalkLogged w.accepted cancelled { j with sent := j.sent ++ [id], walk := w.accepted.end? } := by
  obtain ⟨next, hn⟩ := h.offered id c hs
  refine walkLogged_leads (Walk.leads_accepted hs hn)
    (h.exhausted c (by rw [Walker.cursor?, hs])) rfl ?_
  show j.sent ++ [id] = (id :: w.emitted).reverse
  rw [h.sent_eq, List.reverse_cons]

/-- `WalkLogged` goes over to a journal with the signal. -/
theorem WalkLogged.of_signal (h : WalkLogged w cancelled j) :
    WalkLogged w true { j with signalled := true } :=
  ⟨h.walk_eq, h.sent_eq, h.offered, h.exhausted, fun _ => Or.inr rfl⟩

/-! ## The reader -/

/-- `WalkLogged` does not depend on `received` and `results`, which are the reader's. -/
theorem WalkLogged.of_reader (h : WalkLogged w cancelled j) (received : List String)
    (results : List (String × Except Failure (Option JobRun))) :
    WalkLogged w cancelled { j with received := received, results := results } :=
  ⟨h.walk_eq, h.sent_eq, h.offered, h.exhausted, h.ended⟩

/-- A walker with `end? = some (some f)` has `failure? = some f`. -/
theorem failure?_of_end? {f : Failure} (h : w.end? = some (some f)) : w.failure? = some f := by
  rw [Walker.end?] at h
  rw [Walker.failure?]
  cases hs : w.stage with
  | listing c => rw [hs] at h; exact absurd h (by simp)
  | offering id c => rw [hs] at h; exact absurd h (by simp)
  | ended failure =>
    rw [hs] at h
    exact Option.some.inj h

/-- A walker that has ended and has `failure? = none` stands at `.ended none`. -/
theorem stage_of_hasEnded (h : w.hasEnded = true) (hf : w.failure? = none) :
    w.stage = .ended none := by
  rw [Walker.hasEnded] at h
  rw [Walker.failure?] at hf
  cases hs : w.stage with
  | listing c => rw [hs] at h; exact absurd h Bool.false_ne_true
  | offering id c => rw [hs] at h; exact absurd h Bool.false_ne_true
  | ended failure =>
    rw [hs] at hf
    rw [show failure = none from hf]

/-- **The answer `s.conclusion scan` is complete** when the reader needs no more ids: the journal is `Closed` for it
when all results are without a failure and the reader has reached a late run or the end of the walk, or when the search
is cancelled. -/
theorem closed_conclusion (hsignal : j.signalled = s.cancelled)
    (hwalk : WalkLogged scan.walker s.cancelled j)
    (hready : j.results.map Prod.fst = j.received ∧ (∀ p ∈ j.results, ∃ run?, p.2 = .ok run?)
      ∧ ((∃ p, j.results.getLast? = some p ∧ IsLate plan p.2)
      ∨ (scan.walker.hasEnded = true ∧ j.sent = j.received)) ∨ s.cancelled = true) :
    Closed plan j (s.conclusion scan) := by
  rw [Search.conclusion]
  cases hcancelled : s.cancelled with
  | true =>
    -- the signal is answered with a failure
    refine ⟨fun runs h => absurd h (by simp), fun f _ hnot _ => ?_⟩
    rw [hsignal, hcancelled] at hnot
    exact absurd hnot (by simp)
  | false =>
    rw [if_neg Bool.false_ne_true]
    cases hf : scan.walker.failure? with
    | some f =>
      -- the failure of the walk is the answer
      refine ⟨fun runs h => absurd h (by simp), fun f' hwalk' _ _ => ?_⟩
      rw [hwalk.walk_eq] at hwalk'
      rw [Option.some.inj (hf.symm.trans (failure?_of_end? hwalk'))]
    | none =>
      -- the runs are the answer, and nothing is missing
      refine ⟨fun runs _ => ?_, fun f' hwalk' _ _ => ?_⟩
      · rcases hready with ⟨hresolved, hok, hend⟩ | hc
        · refine ⟨hsignal.trans hcancelled, hresolved, hok,
            hend.imp_right fun ⟨hended, hsent⟩ => ?_⟩
          have hstage := stage_of_hasEnded hended hf
          refine ⟨?_, (hwalk.ended hstage).resolve_right
            (by rw [hcancelled]; exact Bool.false_ne_true), hsent⟩
          rw [hwalk.walk_eq, Walker.end?, hstage]
        · exact absurd (hc.symm.trans hcancelled) (by simp)
      · rw [hwalk.walk_eq] at hwalk'
        exact absurd (hf.symm.trans (failure?_of_end? hwalk')) (by simp)

/-- When all `results` let the search go on, and `result` does, then so do `results ++ [(id, result)]`. -/
theorem goes_on_concat {results : List (String × Except Failure (Option JobRun))} {id : String}
    {result : Except Failure (Option JobRun)} (h : ∀ p ∈ results, GoesOn plan p.2)
    (hresult : GoesOn plan result) :
    ∀ p ∈ results ++ [(id, result)], GoesOn plan p.2 := by
  intro p hp
  rcases List.mem_append.1 hp with hp | hp
  · exact h p hp
  · rw [List.mem_singleton.1 hp]
    exact hresult

/-- **What the journal tells stays true when the reader gets on with a run.** One case for each constructor of `Comes`:
only where the run is resolved is there a result more. -/
theorem logged_resolved {r : Resolver} (hplan : s.plan = plan) (hsignal : j.signalled = s.cancelled)
    (hwalk : WalkLogged scan.walker s.cancelled j) (hreceived : j.received ++ scan.queue = j.sent)
    (hresolved : j.results.map Prod.fst ++ [r.place.id] = j.received)
    (hgoes : ∀ p ∈ j.results, GoesOn plan p.2) :
    Logged plan (s.resolved scan r) (j.noteResolver r) := by
  -- the search goes on behind a run that neither fails nor is late
  have hnext : ∀ {result found}, r.stage = .ended result → GoesOn plan result →
      Logged plan { s with stage := .scanning { scan with resolving := none, found := found } }
        (j.noteResolver r) := by
    intro result found hr hresult
    rw [Journal.noteResolver_of_ended hr]
    refine .scanning hplan rfl hsignal (hwalk.of_reader j.received _)
      ⟨hreceived, ?_, goes_on_concat hgoes hresult, ?_⟩
    · rw [List.map_append, ← hresolved]
      exact List.append_nil _
    · intro r' hr'
      exact absurd hr' (by simp)
  generalize hafter : s.resolved scan r = after
  have hcomes := comes_resolved s scan r
  rw [hafter] at hcomes
  cases hcomes with
  | busy live =>
    -- the run stays the one that the reader resolves
    rw [Journal.noteResolver_of_live live]
    refine .scanning hplan rfl hsignal hwalk ⟨hreceived, hresolved, hgoes, ?_⟩
    rintro r' ⟨⟩
    exact live
  | @failed f hr =>
    -- the failure of a run ends the search, whatever the walk comes to
    rw [Journal.noteResolver_of_ended hr]
    refine .ended rfl ⟨fun runs h => absurd h (by simp), fun f' _ _ hall => ?_⟩
    obtain ⟨run?, hok, -⟩ := hall (r.place.id, .error f)
      (List.mem_append_right _ List.mem_cons_self)
    exact absurd hok (by simp)
  | empty hr => exact hnext hr ⟨none, rfl, by simp⟩
  | @late run hr hlate =>
    -- the last result is that of a run behind the window
    rw [Journal.noteResolver_of_ended hr]
    rw [hplan] at hlate
    refine .ended rfl (closed_conclusion hsignal (hwalk.of_reader j.received _)
      (Or.inl ⟨?_, ?_, Or.inl ?_⟩))
    · rw [List.map_append, ← hresolved]
      rfl
    · intro p hp
      rcases List.mem_append.1 hp with hp | hp
      · obtain ⟨run?, hok, -⟩ := hgoes p hp
        exact ⟨run?, hok⟩
      · rw [List.mem_singleton.1 hp]
        exact ⟨some run, rfl⟩
    · exact ⟨_, List.getLast?_concat, run, rfl, hlate⟩
  | @kept run hr hlate =>
    rw [hplan] at hlate
    exact hnext hr ⟨some run, rfl, by rintro run' ⟨⟩; exact hlate⟩
  | @dropped run hr hlate =>
    rw [hplan] at hlate
    exact hnext hr ⟨some run, rfl, by rintro run' ⟨⟩; exact hlate⟩

/-! ## Steps and whole searches -/

/-- What `Logged` says of a search at `.scanning scan`: the walker is `WalkLogged` and the reader `ReadLogged`. -/
theorem Logged.of_scanning (h : Logged plan s j) (hs : s.stage = .scanning scan) :
    s.plan = plan ∧ j.signalled = s.cancelled ∧ WalkLogged scan.walker s.cancelled j
      ∧ ReadLogged plan scan j := by
  cases h with
  | seeding plan_eq stage => exact absurd (stage.symm.trans hs) (by simp)
  | scanning plan_eq stage signalled_eq walked read =>
    obtain rfl := SearchStage.scanning.inj (stage.symm.trans hs)
    exact ⟨plan_eq, signalled_eq, walked, read⟩
  | ended stage => exact absurd (stage.symm.trans hs) (by simp)

/-- What `Logged` says of a search at `.seeding`: nothing is noted but the signal. -/
theorem Logged.of_seeding (h : Logged plan s j) (hs : s.stage = .seeding) :
    s.plan = plan ∧ j = { Journal.empty with signalled := s.cancelled } := by
  cases h with
  | seeding plan_eq stage journal_eq => exact ⟨plan_eq, journal_eq⟩
  | scanning plan_eq stage => exact absurd (stage.symm.trans hs) (by simp)
  | ended stage => exact absurd (stage.symm.trans hs) (by simp)

/-- All results of a search that has not ended are without a failure. -/
theorem ReadLogged.all_ok (h : ReadLogged plan scan j) :
    ∀ p ∈ j.results, ∃ run?, p.2 = .ok run? := by
  intro p hp
  obtain ⟨run?, hok, -⟩ := h.goes_on p hp
  exact ⟨run?, hok⟩

/-- The ids that a waiting reader has received are those that have been resolved. -/
theorem ReadLogged.resolved_of_none (h : ReadLogged plan scan j) (hr : scan.resolving = none) :
    j.results.map Prod.fst = j.received := by
  rw [← h.resolved_eq, hr]
  exact (List.append_nil _).symm

/-- The ids that a reader has received at its run. -/
theorem ReadLogged.resolved_of_some {r : Resolver} (h : ReadLogged plan scan j)
    (hr : scan.resolving = some r) :
    j.results.map Prod.fst ++ [r.place.id] = j.received := by
  rw [← h.resolved_eq, hr]
  rfl

/-- **The signal is logged**: `Logged` goes over from `s` to the search with `cancelled := true`. -/
theorem logged_cancel (h : Logged plan s j) :
    Logged plan { s with cancelled := true } (j.note s .cancel) := by
  cases h with
  | seeding plan_eq stage journal_eq =>
    rw [Journal.note_cancel (by simp [stage])]
    exact .seeding plan_eq stage (by rw [journal_eq])
  | scanning plan_eq stage signalled_eq walked read =>
    rw [Journal.note_cancel (by simp [stage])]
    exact .scanning plan_eq stage rfl walked.of_signal
      ⟨read.received_eq, read.resolved_eq, read.goes_on, read.live⟩
  | ended stage closed =>
    -- a signal behind the end changes nothing
    rw [Journal.note_of_ended stage]
    exact .ended stage closed

/-- **A failure of the catalog is logged**; the search ends with it. -/
theorem logged_unseeded {f : Failure} {now : Time.Instant} (h : Logged plan s j)
    (hs : s.stage = .seeding) :
    Logged plan (s.finish (.error f)) (j.note s (.seed (.error f) now)) := by
  obtain ⟨-, rfl⟩ := h.of_seeding hs
  rw [Journal.note_seed hs]
  exact .ended rfl ⟨fun runs hok => absurd hok (by simp),
    fun f hwalk => absurd hwalk (by simp [Journal.empty])⟩

/-- **The begin of a walk is logged**, from the `seed` that the catalog gave. -/
theorem logged_seeded {seed : Option String} {now : Time.Instant} (h : Logged plan s j)
    (hs : s.stage = .seeding) :
    Logged plan { s with stage := .scanning ⟨.start (s.plan.route now) seed, [], none, []⟩ }
      (j.note s (.seed (.ok seed) now)) := by
  obtain ⟨hplan, rfl⟩ := h.of_seeding hs
  rw [Journal.note_seed hs]
  exact .scanning hplan rfl rfl (walkLogged_start _ seed rfl rfl)
    ⟨rfl, rfl, by simp [Journal.empty], by simp⟩

/-- **A walker that gets an answer is logged**; the reader's half of the journal stays as it is. -/
theorem logged_walked {c : Cursor} (h : Logged plan s j) (hs : s.stage = .scanning scan)
    (hw : scan.walker.stage = .listing c) (reply : Except Failure ObjectPage) :
    Logged plan { s with stage := .scanning { scan with walker := scan.walker.receive reply } }
      (j.note s (.walkerPage reply)) := by
  obtain ⟨hplan, hsignal, hwalk, hread⟩ := h.of_scanning hs
  rw [Journal.note_walkerPage hs]
  exact .scanning hplan rfl hsignal (walkLogged_receive hwalk hw reply)
    ⟨hread.received_eq, hread.resolved_eq, hread.goes_on, hread.live⟩

/-- **A walker that puts an id into the queue is logged**: `queue ++ [id]` beside `sent ++ [id]`. -/
theorem logged_sent {c : Cursor} {id : String} (h : Logged plan s j) (hs : s.stage = .scanning scan)
    (hw : scan.walker.stage = .offering id c) :
    Logged plan
      { s with
        stage := .scanning
          { scan with queue := scan.queue ++ [id], walker := scan.walker.accepted } }
      (j.note s .walkerSend) := by
  obtain ⟨hplan, hsignal, hwalk, hread⟩ := h.of_scanning hs
  rw [Journal.note_walkerSend hs hw]
  refine .scanning hplan rfl hsignal (walkLogged_accepted hwalk hw)
    ⟨?_, hread.resolved_eq, hread.goes_on, hread.live⟩
  show j.received ++ (scan.queue ++ [id]) = j.sent ++ [id]
  rw [← hread.received_eq, List.append_assoc]

/-- **A walker that notices the signal is logged**: it ends without a failure, and the search is cancelled. -/
theorem logged_quit (h : Logged plan s j) (hs : s.stage = .scanning scan) (hc : s.cancelled = true)
    (hw : scan.walker.hasEnded = false) :
    Logged plan { s with stage := .scanning { scan with walker := scan.walker.quit } }
      (j.note s .walkerQuit) := by
  obtain ⟨hplan, hsignal, hwalk, hread⟩ := h.of_scanning hs
  rw [Journal.note_walkerQuit hs, Walk.quit_of_not_hasEnded hw]
  exact .scanning hplan rfl hsignal (walkLogged_finish rfl hwalk.sent_eq fun _ => hc)
    ⟨hread.received_eq, hread.resolved_eq, hread.goes_on, hread.live⟩

/-- **A reader that takes an id is logged**: what was `id :: queue` is now `received ++ [id]` beside `queue`, and
together they are still what was sent. -/
theorem logged_taken {id : String} {queue : List String} (h : Logged plan s j)
    (hs : s.stage = .scanning scan) (hr : scan.resolving = none) (hq : scan.queue = id :: queue) :
    Logged plan (s.resolved { scan with queue := queue } (.start (s.plan.place id)))
      (j.note s .readerTake) := by
  obtain ⟨hplan, hsignal, hwalk, hread⟩ := h.of_scanning hs
  have hid : (Resolver.start (s.plan.place id)).place.id = id := by
    rw [place_start]
    rfl
  rw [Journal.note_readerTake_cons hs hq]
  refine logged_resolved hplan hsignal (hwalk.of_reader _ j.results) ?_ ?_ hread.goes_on
  · -- the id has left the queue for the ids that were received
    show j.received ++ [id] ++ queue = j.sent
    rw [← hread.received_eq, hq, List.append_assoc]
    rfl
  · show j.results.map Prod.fst ++ [(Resolver.start (s.plan.place id)).place.id]
      = j.received ++ [id]
    rw [hid, hread.resolved_of_none hr]

/-- **A reader that finds that there will be no more ids is logged**: the queue is empty and the walk has ended, so all
ids that were sent have been received. -/
theorem logged_concluded (h : Logged plan s j) (hs : s.stage = .scanning scan)
    (hr : scan.resolving = none) (hq : scan.queue = []) (hw : scan.walker.hasEnded = true) :
    Logged plan (s.finish (s.conclusion scan)) (j.note s .readerTake) := by
  obtain ⟨-, hsignal, hwalk, hread⟩ := h.of_scanning hs
  have hsent : j.sent = j.received := by rw [← hread.received_eq, hq, List.append_nil]
  rw [Journal.note_readerTake_nil hs hq]
  exact .ended rfl (closed_conclusion hsignal hwalk
    (Or.inl ⟨hread.resolved_of_none hr, hread.all_ok, Or.inr ⟨hw, hsent⟩⟩))

/-- **A reader that gets a page is logged**, by `logged_resolved`. -/
theorem logged_listed {r : Resolver} {c : Cursor} {files : RunFiles} (h : Logged plan s j)
    (hs : s.stage = .scanning scan) (hr : scan.resolving = some r) (hc : r.stage = .listing c files)
    (reply : Except Failure ObjectPage) :
    Logged plan (s.resolved scan (r.receivePage reply)) (j.note s (.readerPage reply)) := by
  obtain ⟨hplan, hsignal, hwalk, hread⟩ := h.of_scanning hs
  rw [Journal.note_readerPage hs hr]
  refine logged_resolved hplan hsignal hwalk hread.received_eq ?_ hread.goes_on
  rw [place_receivePage hc]
  exact hread.resolved_of_some hr

/-- **A reader that gets a descriptor is logged**, by `logged_resolved`. -/
theorem logged_read {r : Resolver} {key : String} {results : List String} (h : Logged plan s j)
    (hs : s.stage = .scanning scan) (hr : scan.resolving = some r)
    (hk : r.stage = .reading key results) (reply : Except Failure (List UInt8)) :
    Logged plan (s.resolved scan (r.receiveObject reply)) (j.note s (.readerObject reply)) := by
  obtain ⟨hplan, hsignal, hwalk, hread⟩ := h.of_scanning hs
  have hplace : (r.receiveObject reply).place = r.place := by rw [receiveObject_of_reading hk]
  rw [Journal.note_readerObject hs hr]
  refine logged_resolved hplan hsignal hwalk hread.received_eq ?_ hread.goes_on
  rw [hplace]
  exact hread.resolved_of_some hr

/-- **A reader that notices the signal is logged**; the search ends as a cancelled one. -/
theorem logged_left (h : Logged plan s j) (hs : s.stage = .scanning scan)
    (hc : s.cancelled = true) :
    Logged plan (s.finish (s.conclusion scan)) (j.note s .readerQuit) := by
  obtain ⟨-, hsignal, hwalk, -⟩ := h.of_scanning hs
  rw [Journal.note_readerQuit hs]
  exact .ended rfl (closed_conclusion hsignal hwalk (Or.inr hc))

/-- **Each step of a search is logged**: `Logged plan s j` and `s.step e = some s'` give `Logged plan s' (j.note s e)`.
-/
theorem logged_step (h : Logged plan s j) (hstep : s.step e = some s') :
    Logged plan s' (j.note s e) := by
  cases moves_of_step hstep with
  | cancel => exact logged_cancel h
  | unseeded hs => exact logged_unseeded h hs
  | seeded hs => exact logged_seeded h hs
  | walked hs hw => exact logged_walked h hs hw _
  | sent hs hw hroom => exact logged_sent h hs hw
  | quit hs hc hw => exact logged_quit h hs hc hw
  | taken hs hr hq => exact logged_taken h hs hr hq
  | concluded hs hr hq hw => exact logged_concluded h hs hr hq hw
  | listed hs hr hc => exact logged_listed h hs hr hc _
  | read hs hr hk => exact logged_read h hs hr hk _
  | left hs hc hr => exact logged_left h hs hc

/-- **The events of a search are logged**: `Logged` is preserved by `Search.play`. The induction is on `events`. -/
theorem logged_play {events : List Search.Event} {j' : Journal} (h : Logged plan s j)
    (hplay : Search.play events (s, j) = some (s', j')) : Logged plan s' j' := by
  induction events generalizing s j with
  | nil =>
    obtain ⟨rfl, rfl⟩ := Prod.mk.inj (Option.some.inj hplay)
    exact h
  | cons e events ih =>
    rw [Search.play] at hplay
    cases hstep : s.step e with
    | none => rw [hstep] at hplay; exact absurd hplay (by simp)
    | some s'' =>
      rw [hstep] at hplay
      exact ih (logged_step h hstep) hplay

/-- **As long as there is no answer the search can go on**: when `s.result? = none`, some event other than `.cancel` is
possible, whatever has happened before. -/
theorem exists_event (h : Logged plan s j) (hresult : s.result? = none) :
    ∃ e s', e ≠ .cancel ∧ s.step e = some s' := by
  cases h with
  | seeding plan_eq stage =>
    exact ⟨.seed (.ok none) ⟨0, 0⟩, _, by simp, step_of_moves (.seeded stage)⟩
  | @scanning scan plan_eq stage signalled_eq walked read =>
    -- the reader goes on when it can, and otherwise the walker does
    cases hr : scan.resolving with
    | some r =>
      cases hs : r.stage with
      | listing c files =>
        exact ⟨.readerPage (.ok ⟨[], none⟩), _, by simp, step_of_moves (.listed stage hr hs)⟩
      | reading key results =>
        exact ⟨.readerObject (.ok []), _, by simp, step_of_moves (.read stage hr hs)⟩
      | ended result => exact absurd hs (read.live r hr result)
    | none =>
      cases hq : scan.queue with
      | cons id queue => exact ⟨.readerTake, _, by simp, step_of_moves (.taken stage hr hq)⟩
      | nil =>
        cases hw : scan.walker.stage with
        | listing c =>
          exact ⟨.walkerPage (.ok ⟨[], none⟩), _, by simp, step_of_moves (.walked stage hw)⟩
        | offering id c =>
          have hroom : scan.queue.length < queueLimit := by rw [hq]; decide
          exact ⟨.walkerSend, _, by simp, step_of_moves (.sent stage hw hroom)⟩
        | ended failure =>
          have hended : scan.walker.hasEnded = true := by rw [Walker.hasEnded, hw]
          exact ⟨.readerTake, _, by simp, step_of_moves (.concluded stage hr hq hended)⟩
  | ended stage =>
    rw [Search.result?, stage] at hresult
    exact absurd hresult (by simp)

/-- A search before its first event is logged by the empty journal. -/
theorem logged_start (plan : SearchPlan) : Logged plan (.start plan) .empty :=
  .seeding rfl rfl rfl

/-- What is logged of a search that has ended: `Logged` gives `Closed plan j outcome`. -/
theorem Logged.closed {outcome : Outcome} (h : Logged plan s j)
    (hresult : s.result? = some outcome) :
    Closed plan j outcome := by
  rw [Search.result?] at hresult
  cases h with
  | seeding plan_eq stage => rw [stage] at hresult; exact absurd hresult (by simp)
  | scanning plan_eq stage => rw [stage] at hresult; exact absurd hresult (by simp)
  | ended stage closed =>
    rw [stage] at hresult
    rw [← Option.some.inj hresult]
    exact closed

/-- **No run is lost silently**, whatever the store answers to each call, in whatever order walker
and reader go on, and whenever the signal is given. When a search answers with runs, the signal had
not been given before it ended, all ids that the reader received were resolved without a failure,
and either the last of them was a run behind the window, or the walk ended without a failure behind
the last page of its last listing and all its ids were received. When the walk fails and neither the
signal nor a failure of the reader nor a run behind the window comes in between, the answer is that
failure. As long as there is no answer the search can go on. -/
theorem complete_of_play {plan : SearchPlan} {events : List Search.Event} {s : Search} {j : Journal}
    (h : Search.play events (.start plan, .empty) = some (s, j)) :
    (∀ runs, s.result? = some (.ok runs) →
      j.signalled = false ∧ j.results.map Prod.fst = j.received
        ∧ (∀ p ∈ j.results, ∃ run?, p.2 = .ok run?)
      ∧ ((∃ p, j.results.getLast? = some p ∧ IsLate plan p.2)
        ∨ (j.walk = some none ∧ j.LastPage ∧ j.sent = j.received)))
    ∧ (∀ f outcome, j.walk = some (some f) → s.result? = some outcome → j.signalled = false →
      (∀ p ∈ j.results, ∃ run?, p.2 = .ok run?) → (∀ p ∈ j.results, ¬ IsLate plan p.2) →
        outcome = .error f)
    ∧ (s.result? = none → ∃ e s', e ≠ .cancel ∧ s.step e = some s') := by
  -- `Logged` is what every event keeps of a search and its journal, and its ends have all that is claimed
  have hlogged := logged_play (logged_start plan) h
  refine ⟨fun runs hresult => (hlogged.closed hresult).complete runs rfl, ?_, exists_event hlogged⟩
  intro f outcome hwalk hresult hsignal hok hlate
  refine (hlogged.closed hresult).failed f hwalk hsignal fun p hp => ?_
  obtain ⟨run?, hrun⟩ := hok p hp
  refine ⟨run?, hrun, fun run hmem hbehind => hlate p hp ⟨run, ?_, hbehind⟩⟩
  rw [hrun, Option.mem_def.1 hmem]

/-- A run that is gone when the reader lists it. -/
def goneRunEvents : List Search.Event :=
  [.seed (.ok none) ⟨100, 0⟩, .walkerPage (.ok ⟨[⟨"job/5/prowjob.json", ⟨90, 0⟩⟩], none⟩),
    .walkerSend, .readerTake,
    .readerPage (.ok ⟨[], none⟩), .walkerPage (.ok ⟨[], none⟩), .readerTake]

/-- The plan of the search for it. -/
def goneRunPlan : SearchPlan :=
  ⟨"job", "job", .payloadTag "4.11", ⟨80, 0⟩, ⟨10000000000, 20000000000⟩,
    ⟨"bucket", "human", "artifacts"⟩⟩

/-- The search for a run that is gone answers without runs, and has received and resolved its id. -/
theorem complete_of_play_goneRun :
    ∃ s j, Search.play goneRunEvents (.start goneRunPlan, .empty) = some (s, j)
      ∧ s.result? = some (.ok [])
      ∧ j.received = ["5"] ∧ j.results.map Prod.fst = j.received
      ∧ ((∃ p, j.results.getLast? = some p ∧ IsLate goneRunPlan p.2)
        ∨ (j.walk = some none ∧ j.LastPage ∧ j.sent = j.received)) := by
  obtain ⟨s, j, hplay, hresult, hreceived⟩ :
      ∃ s j, Search.play goneRunEvents (.start goneRunPlan, .empty) = some (s, j)
        ∧ s.result? = some (.ok []) ∧ j.received = ["5"] := ⟨_, _, rfl, rfl, rfl⟩
  obtain ⟨-, hresolved, -, hend⟩ := (complete_of_play hplay).1 [] hresult
  exact ⟨s, j, hplay, hresult, hreceived, hresolved, hend⟩

end PayloadGate
