import PayloadGate.Proofs.Search.Journal
import PayloadGate.Proofs.Search.Session
import PayloadGate.Proofs.Walk.Simulation

/-! # Searches under way

A search that is under way has gone through the first ids that its walk finds, the reader is at the next one, and the
others are in the queue or will still be found by the walker. This file says that each step keeps this, in whatever
order the steps come, and that the steps come to an end. The walk may end with a failure; a search meets it only when
it has no other end before.

* **`Gone`** — ids that have been gone through, with the runs that were found.
* **`Reading`** — a reader at an id; **`resolved_cases`** — what it comes to when it gets on.
* **`Underway`** — a session in which a walk will find given ids; **`Session.rank`**, **`Below`** — the rank that
  falls.
* **`exists_step`** — there is a step.
* **`Concludes`** — how a search ends; **`Advances`**, **`concludes_or_advances`** — each step ends it or lets the rank
  fall.
* **`underway_step`** — the answer of a search whose walk ends without a failure. -/

namespace PayloadGate

open Walk (Walker Standing)

variable {store : Snapshot} {plan : SearchPlan} {seed place : Option String} {now : Time.Instant}
  {out : List String × Option Failure} {ids later : List String} {id : String} {found more : List JobRun}

/-! ## Ids that have been gone through -/

/-- `prepend found rest` is the answer `rest` with the runs `found` before its own; a failure stays what it is. -/
def prepend (found : List JobRun) (rest : Outcome) : Outcome := rest.map (found ++ ·)

/-- `prepend [] rest = rest`. -/
@[simp] theorem prepend_nil (rest : Outcome) : prepend [] rest = rest := by
  cases rest <;> rfl

/-- `prepend` goes over to `++`: `found ++ more` before `rest` are `found` before `more` before `rest`. -/
theorem prepend_append (found more : List JobRun) (rest : Outcome) :
    prepend (found ++ more) rest = prepend found (prepend more rest) := by
  cases rest with
  | error f => rfl
  | ok runs => exact congrArg Except.ok (List.append_assoc found more runs)

/-- What a search makes of `ids` in their order, when it answers `rest` with the runs behind them. -/
def settleAll (store : Snapshot) (plan : SearchPlan) (ids : List String) (rest : Outcome) : Outcome :=
  ids.foldr (fun id rest => settle plan (store.resolve (plan.place id)) rest) rest

/-- The reference of `ids ++ later` is `settleAll` of `ids` before the reference of `later`. -/
theorem reference_append (store : Snapshot) (plan : SearchPlan) (ids later : List String) :
    reference store plan (ids ++ later) = settleAll store plan ids (reference store plan later) := by
  induction ids with
  | nil => rfl
  | cons id ids ih => exact congrArg (settle plan (store.resolve (plan.place id))) ih

/-- **A search has gone through ids** up to those that come `later`: it goes on behind each of the others, and has
`found` runs that come first in its answer, whatever `rest` is answered for `later`. -/
def Gone (store : Snapshot) (plan : SearchPlan) (ids : List String) (found : List JobRun) (later : List String) :
    Prop :=
  ∃ earlier, ids = earlier ++ later ∧ (∀ id ∈ earlier, GoesOn plan (store.resolve (plan.place id)))
    ∧ ∀ rest, settleAll store plan earlier rest = prepend found rest

/-- At first all `ids` come later. -/
theorem gone_nil (store : Snapshot) (plan : SearchPlan) (ids : List String) : Gone store plan ids [] ids :=
  ⟨[], rfl, by simp, fun rest => (prepend_nil rest).symm⟩

/-- What is answered in the end, when no failure of the walk comes in between: `found` before the reference of
`later`. -/
theorem Gone.reference_eq (h : Gone store plan ids found later) :
    reference store plan ids = prepend found (reference store plan later) := by
  obtain ⟨earlier, rfl, -, hsettle⟩ := h
  rw [reference_append, hsettle]

/-- **The search goes on behind an id** when its run lets it (`hgoes`), and may have found `more` (`hmore`). -/
theorem Gone.next (h : Gone store plan ids found (id :: later))
    (hgoes : GoesOn plan (store.resolve (plan.place id)))
    (hmore : ∀ rest, settle plan (store.resolve (plan.place id)) rest = prepend more rest) :
    Gone store plan ids (found ++ more) later := by
  obtain ⟨earlier, rfl, hall, hsettle⟩ := h
  refine ⟨earlier ++ [id], by rw [List.append_assoc, List.singleton_append], fun id' hid' => ?_, fun rest => ?_⟩
  · rcases List.mem_append.1 hid' with hid' | hid'
    · exact hall id' hid'
    · rw [List.mem_singleton.1 hid']
      exact hgoes
  · rw [prepend_append, ← hmore, ← hsettle, settleAll, List.foldr_append]
    rfl

/-! ## The reader -/

/-- The steps that a reader has ahead with its run; `0` when it has none. -/
def Scan.code (scan : Scan) : Nat := scan.resolving.elim 0 Resolver.code

/-- **A reader at an id**, when `rest` are the ids that the walker will still find: it is idle, or it resolves a run and
`pages` are those that it can still get. -/
inductive Reading (store : Snapshot) (plan : SearchPlan) (ids : List String) (pages : List ObjectPage) (scan : Scan)
    (rest : List String) : Prop where
  /-- It waits for the next id. -/
  | idle (resolving : scan.resolving = none) (gone : Gone store plan ids scan.found (scan.queue ++ rest))
  /-- It resolves the run of an id. -/
  | busy {r : Resolver} {left : List ObjectRecord} (resolving : scan.resolving = some r)
      (place_eq : r.place = plan.place r.place.id) (keeps : Resolving store r left)
      (live : ∀ result, r.stage ≠ .ended result)
      (supplied : ∀ c files, r.stage = .listing c files → c.token ≠ none → Paging pages left)
      (gone : Gone store plan ids scan.found (r.place.id :: (scan.queue ++ rest)))

/-- **How a run ends a search**: with its own failure, or behind the window with the `conclusion` of the search. -/
inductive Stops (plan : SearchPlan) (result : Except Failure (Option JobRun)) (conclusion : Outcome) : Outcome → Prop
    where
  /-- The run could not be resolved. -/
  | failed {f : Failure} (h : result = .error f) : Stops plan result conclusion (.error f)
  /-- The run is behind the window. -/
  | late (h : IsLate plan result) : Stops plan result conclusion conclusion

/-- A run that ends a search does not let it go on: `Stops` excludes `GoesOn`. -/
theorem Stops.not_goesOn {result : Except Failure (Option JobRun)} {conclusion o : Outcome}
    (h : Stops plan result conclusion o) : ¬ GoesOn plan result := by
  rintro ⟨run?, rfl, hruns⟩
  cases h with
  | failed h => exact absurd h (by simp)
  | late h =>
    obtain ⟨run, hrun, hlate⟩ := h
    exact hruns run (Except.ok.inj hrun) hlate

/-- **What a reader comes to that has got on with a run**: the run has ended the search (`Stops`), or the reader goes
on, with more `found` and a `code` that is no higher. -/
theorem resolved_cases {s : Search} (scan : Scan) {r : Resolver} {left : List ObjectRecord} {pages : List ObjectPage}
    {rest : List String} (hplan : s.plan = plan) (hplace : r.place = plan.place r.place.id)
    (hkeeps : Resolving store r left)
    (hsupplied : ∀ c files, r.stage = .listing c files → c.token ≠ none → Paging pages left)
    (hgone : Gone store plan ids scan.found (r.place.id :: (scan.queue ++ rest))) :
    (∃ o, (s.resolved scan r).result? = some o
        ∧ Stops plan (store.resolve (plan.place r.place.id)) (s.conclusion scan) o)
      ∨ ∃ scan', s.resolved scan r = { s with stage := .scanning scan' }
        ∧ scan'.walker = scan.walker ∧ scan'.queue = scan.queue
        ∧ Reading store plan ids pages scan' rest ∧ scan'.code ≤ r.code := by
  -- the run has been resolved to what the store says
  have hresult : ∀ {result}, r.stage = .ended result → store.resolve (plan.place r.place.id) = result := by
    intro result hr
    rw [← hplace, hkeeps.result_eq hr]
  generalize hafter : s.resolved scan r = after
  have hcomes := comes_resolved s scan r
  rw [hafter] at hcomes
  cases hcomes with
  | busy live =>
    -- nothing is settled yet
    exact Or.inr ⟨{ scan with resolving := some r }, rfl, rfl, rfl,
      .busy rfl hplace hkeeps live hsupplied hgone, le_rfl⟩
  | failed hr => exact Or.inl ⟨_, rfl, .failed (hresult hr)⟩
  | @late run hr hlate =>
    rw [hplan] at hlate
    exact Or.inl ⟨_, rfl, .late ⟨run, hresult hr, hlate⟩⟩
  | empty hr =>
    have hnext : Gone store plan ids (scan.found ++ []) (scan.queue ++ rest) :=
      hgone.next ⟨none, hresult hr, by simp⟩ fun rest => by rw [hresult hr, settle, prepend_nil]
    rw [List.append_nil] at hnext
    exact Or.inr ⟨{ scan with resolving := none }, rfl, rfl, rfl, .idle rfl hnext, Nat.zero_le _⟩
  | @kept run hr hlate haccepts =>
    rw [hplan] at hlate haccepts
    have hnext : Gone store plan ids (scan.found ++ [run]) (scan.queue ++ rest) :=
      hgone.next ⟨some run, hresult hr, by simpa using hlate⟩ fun rest => by
        rw [hresult hr, settle, if_neg hlate, if_pos haccepts]
        rfl
    exact Or.inr ⟨_, rfl, rfl, rfl, .idle rfl hnext, Nat.zero_le _⟩
  | @dropped run hr hlate haccepts =>
    rw [hplan] at hlate haccepts
    have hnext : Gone store plan ids (scan.found ++ []) (scan.queue ++ rest) :=
      hgone.next ⟨some run, hresult hr, by simpa using hlate⟩ fun rest => by
        rw [hresult hr, settle, if_neg hlate, if_neg (Bool.eq_false_iff.1 haccepts), prepend_nil]
    rw [List.append_nil] at hnext
    exact Or.inr ⟨_, rfl, rfl, rfl, .idle rfl hnext, Nat.zero_le _⟩

/-! ## Searches under way -/

/-- **A session whose walk will find given ids** and end as `out` says: `out.1` are all the ids, `out.2` is the failure
of the walk. The walker will still find the ids `rest`, of which the reader knows nothing yet. -/
inductive Underway (store : Snapshot) (plan : SearchPlan) (place : Option String)
    (out : List String × Option Failure) (x : Session) (n : Nat) : Prop where
  /-- The search goes through the runs. -/
  | intro {scan : Scan} {rest : List String} {left : List ObjectRecord}
      (plan_eq : x.search.plan = plan) (not_cancelled : x.search.cancelled = false)
      (stage : x.search.stage = .scanning scan)
      (walking : Standing store place scan.walker left (rest, out.2) n)
      (supplied : ∀ c, scan.walker.cursor? = some c → c.token ≠ none → Paging x.walkerPages left)
      (room : scan.queue.length ≤ queueLimit) (reading : Reading store plan out.1 x.readerPages scan rest)

/-- Whether a walker waits for the first page of a listing, as a number: `1` when it does and `0` when not. -/
def freshness (w : Walker) : Nat :=
  match w.stage with
  | .listing c => if c.token = none then 1 else 0
  | _ => 0

/-- **The rank of a session**: first `2 * n + freshness`, where `n` is the number of the walker, and its pages; then
four steps for each id in the queue with those of the run in hand, and the reader's pages. -/
def Session.rank (x : Session) (n : Nat) : (Nat × Nat) × (Nat × Nat) :=
  match x.search.stage with
  | .scanning scan => ((2 * n + freshness scan.walker, x.walkerPages.length),
      (4 * scan.queue.length + scan.code, x.readerPages.length))
  | _ => ((0, 0), (0, 0))

/-- The order of pairs of numbers, by the first one and then by the second one; `Prod.Lex` of `<` and `<`. -/
def BelowPair : Nat × Nat → Nat × Nat → Prop := Prod.Lex (· < ·) (· < ·)

/-- **The order of ranks**: what the walker has ahead counts first, so that it may put ids into the queue. -/
def Below : (Nat × Nat) × (Nat × Nat) → (Nat × Nat) × (Nat × Nat) → Prop :=
  Prod.Lex BelowPair BelowPair

/-- Ranks cannot fall for ever: `Below` is well-founded, as the lexicographic product of two such orders. -/
theorem wellFounded_below : WellFounded Below :=
  WellFounded.prod_lex (WellFounded.prod_lex Nat.lt_wfRel.wf Nat.lt_wfRel.wf)
    (WellFounded.prod_lex Nat.lt_wfRel.wf Nat.lt_wfRel.wf)

/-- The rank of a search at `.scanning scan`. -/
theorem rank_of_scanning {x : Session} {scan : Scan} (hs : x.search.stage = .scanning scan)
    (n : Nat) :
    x.rank n = ((2 * n + freshness scan.walker, x.walkerPages.length),
      (4 * scan.queue.length + scan.code, x.readerPages.length)) := by
  rw [Session.rank, hs]

/-! ## There is a step -/

section Walking

variable {w : Walker} {left : List ObjectRecord} {found : List String × Option Failure} {n : Nat} {c : Cursor}
  {pending pages : List ObjectPage}

/-- A walker that has ended finds no further ids, and has ended as it has to: `found = ([], w.failure?)`. -/
theorem eq_of_standing (h : Standing store place w left found n) (hended : w.hasEnded = true) :
    found = ([], w.failure?) := by
  rw [Walker.hasEnded] at hended
  rw [Walker.failure?]
  cases h with
  | listing stage => rw [stage] at hended; exact absurd hended Bool.false_ne_true
  | offering stage => rw [stage] at hended; exact absurd hended Bool.false_ne_true
  | ended stage => rw [stage]

/-- A walker with a failure has ended. -/
theorem hasEnded_of_failure? {f : Failure} (h : w.failure? = some f) : w.hasEnded = true := by
  rw [Walker.failure?] at h
  rw [Walker.hasEnded]
  cases hw : w.stage with
  | ended failure => rfl
  | listing c => rw [hw] at h; exact absurd h (by simp)
  | offering id c => rw [hw] at h; exact absurd h (by simp)

/-- The pages that a cursor can get make up `store.ahead c left`, what it has ahead. -/
theorem Snapshot.Offers.paging (h : store.Offers c pending pages)
    (hpending : c.token ≠ none → Paging pending left) :
    Paging pages (store.ahead c left) := by
  by_cases ht : c.token = none
  · rw [ahead_of_eq_none ht]
    exact h.1 ht
  · rw [ahead_of_ne_none ht, h.2 ht]
    exact hpending ht

/-- There is a page that a cursor can get, whether it is its first one or `pending` has it. -/
theorem exists_offers (store : Snapshot) (hpending : c.token ≠ none → Paging pending left) :
    ∃ page pages, store.Offers c pending (page :: pages) := by
  by_cases ht : c.token = none
  · exact ⟨⟨store.listing c.query, none⟩, [], fun _ => .last _, fun hne => absurd ht hne⟩
  · cases pending with
    | nil => exact absurd (hpending ht) Paging.not_nil
    | cons page pages => exact ⟨page, pages, fun hnone => absurd hnone ht, fun _ => rfl⟩

end Walking

/-- **There is a step**, as long as there is no answer: the seed, one of the reader's when it has a run or an id, and
else one of the walker's. -/
theorem exists_step (seed : Option String) (now : Time.Instant) {x : Session} {n : Nat}
    (h : Underway store plan place out x n) : ∃ x', Session.Step store seed now x x' := by
  obtain @⟨scan, rest, left, plan_eq, not_cancelled, stage, walking, supplied, room, reading⟩ := h
  cases reading with
  | @busy r left' resolving place_eq keeps live supplied' gone =>
    cases hr : r.stage with
    | listing c files =>
      obtain ⟨page, pages, hoffers⟩ := exists_offers store (supplied' c files hr)
      exact ⟨_, .readerPage stage resolving hr hoffers (step_of_moves (.listed stage resolving hr))⟩
    | reading key results =>
      exact ⟨_, .readerObject stage resolving hr (step_of_moves (.read stage resolving hr))⟩
    | ended result => exact absurd hr (live result)
  | idle resolving gone =>
    -- a reader without a run takes the next id, and without one the walker goes on
    cases hq : scan.queue with
    | cons id queue => exact ⟨_, .own rfl (step_of_moves (.taken stage resolving hq))⟩
    | nil =>
      cases hw : scan.walker.stage with
      | listing c =>
        obtain ⟨page, pages, hoffers⟩ := exists_offers store
          (supplied c (by rw [Walker.cursor?, hw]))
        exact ⟨_, .walkerPage stage hw hoffers (step_of_moves (.walked stage hw))⟩
      | offering id c =>
        -- the queue is empty, so there is room
        have hroom : scan.queue.length < queueLimit := by rw [hq]; decide
        exact ⟨_, .own rfl (step_of_moves (.sent stage hw hroom))⟩
      | ended failure =>
        have hended : scan.walker.hasEnded = true := by rw [Walker.hasEnded, hw]
        exact ⟨_, .own rfl (step_of_moves (.concluded stage resolving hq hended))⟩

/-! ## Each step keeps the answer -/

section Stepping

variable {x : Session} {s : Search} {scan : Scan} {rest : List String} {left : List ObjectRecord}
  {n : Nat} {c : Cursor} {page : ObjectPage} {pages : List ObjectPage}

/-- A walker that goes on does not concern the reader: `Reading` does not look at `scan.walker`. -/
theorem Reading.of_walker (h : Reading store plan ids pages scan rest) (w : Walker) :
    Reading store plan ids pages { scan with walker := w } rest := by
  cases h with
  | idle resolving gone => exact .idle resolving gone
  | busy resolving place_eq keeps live supplied gone => exact .busy resolving place_eq keeps live supplied gone

/-- An id that the walker puts into the queue was to come anyway: `id :: rest` becomes `rest`. -/
theorem Reading.of_sent (h : Reading store plan ids pages scan (id :: rest)) (w : Walker) :
    Reading store plan ids pages { scan with queue := scan.queue ++ [id], walker := w } rest := by
  have hids : scan.queue ++ id :: rest = scan.queue ++ [id] ++ rest := by
    rw [List.append_assoc, List.singleton_append]
  cases h with
  | idle resolving gone => exact .idle resolving (hids ▸ gone)
  | busy resolving place_eq keeps live supplied gone =>
    exact .busy resolving place_eq keeps live supplied (hids ▸ gone)

/-- **A session advances** to `x'`, whose walk will find the same ids and whose rank is `Below` that of `x`. -/
def Advances (store : Snapshot) (plan : SearchPlan) (place : Option String) (out : List String × Option Failure)
    (x : Session) (n : Nat) (x' : Session) : Prop :=
  ∃ m, Underway store plan place out x' m ∧ Below (x'.rank m) (x.rank n)

/-- **A session gets on with an id**: its run ends the search, or the session `Advances`. -/
def Settles (store : Snapshot) (plan : SearchPlan) (place : Option String) (out : List String × Option Failure)
    (x : Session) (n : Nat) (scan : Scan) (id : String) (x' : Session) : Prop :=
  (∃ o, x'.search.result? = some o ∧ Stops plan (store.resolve (plan.place id)) (x.search.conclusion scan) o)
    ∨ Advances store plan place out x n x'

/-- A walker is fresh at most once: `freshness w ≤ 1`. -/
theorem freshness_le (w : Walker) : freshness w ≤ 1 := by
  rw [freshness]
  split
  · split_ifs <;> omega
  · omega

/-- **A page for the walker keeps the answer**: the session `Advances` with `w.receive (.ok page)`. -/
theorem underway_walkerPage (h : Underway store plan place out x n)
    (hs : x.search.stage = .scanning scan) (hw : scan.walker.stage = .listing c)
    (hpages : store.Offers c x.walkerPages (page :: pages)) :
    Advances store plan place out x n
      ⟨{ x.search with stage := .scanning { scan with walker := scan.walker.receive (.ok page) } },
        pages, x.readerPages⟩ := by
  obtain @⟨scan', rest, left, plan_eq, not_cancelled, stage, walking, supplied, room, reading⟩ := h
  obtain rfl : scan' = scan := SearchStage.scanning.inj (stage.symm.trans hs)
  have hpaging := hpages.paging (supplied c (by rw [Walker.cursor?, hw]))
  obtain ⟨rest', hahead, hlast, hmore⟩ := hpaging.exists_rest
  obtain ⟨m, hm, hstanding, hsame⟩ := Walk.standing_receive walking hw hahead hlast
  have hleads := Walk.leads_receive hw page
  refine ⟨m, .intro plan_eq not_cancelled rfl hstanding ?_ room (reading.of_walker _), ?_⟩
  · -- a cursor with a token is that of this page, so its listing goes on
    intro c' hc' ht'
    refine hmore fun hnone => ht' ?_
    rw [(hleads.token_cursor? hc' ht').1]
    exact hnone
  · rw [rank_of_scanning hs, rank_of_scanning rfl]
    refine Prod.Lex.left _ _ ?_
    rcases Nat.lt_or_eq_of_le hm with hlt | rfl
    · -- the walker has come past an object, which counts more than a new listing
      have hfresh := freshness_le (scan'.walker.receive (.ok page))
      have hlower : 2 * m + freshness (scan'.walker.receive (.ok page))
          < 2 * n + freshness scan'.walker := by
        omega
      exact Prod.Lex.left _ _ hlower
    · -- the walker waits for the next page of the same listing
      obtain ⟨c', hc', ht'⟩ := hsame rfl
      have hfresh : freshness (scan'.walker.receive (.ok page)) = 0 := by
        rw [freshness, hc']
        exact if_neg ht'
      rw [hfresh, freshness, hw]
      by_cases ht : c.token = none
      · exact Prod.Lex.left _ _ (by simp [ht])
      · rw [← hpages.2 ht]
        simp only [ht, if_false]
        exact Prod.Lex.right _ (Nat.lt_succ_self pages.length)

/-- **An id that the walker puts into the queue keeps the answer**, when there is room for it: the session `Advances`
with `queue ++ [id]`. The walker's part of the rank falls by it, and the reader's, which rises, counts second. -/
theorem underway_sent (h : Underway store plan place out x n) (hs : x.search.stage = .scanning scan)
    (hw : scan.walker.stage = .offering id c) (hroom : scan.queue.length < queueLimit) :
    Advances store plan place out x n { x with
      search := { x.search with
        stage := .scanning
          { scan with queue := scan.queue ++ [id], walker := scan.walker.accepted } } } := by
  obtain @⟨scan', rest, left, plan_eq, not_cancelled, stage, walking, supplied, room, reading⟩ := h
  obtain rfl : scan' = scan := SearchStage.scanning.inj (stage.symm.trans hs)
  obtain ⟨next, hn⟩ := Walk.exists_next_of_standing walking hw
  obtain ⟨ids, m, hm, rfl, hstanding⟩ := Walk.standing_accepted walking hw
  have hleads := Walk.leads_accepted hw hn
  refine ⟨m, .intro plan_eq not_cancelled rfl hstanding ?_ ?_ (reading.of_sent _), ?_⟩
  · -- the walker goes on in its listing or begins a new one
    intro c' hc' ht'
    refine supplied c (by rw [Walker.cursor?, hw]) fun hnone => ht' ?_
    rw [(hleads.token_cursor? hc' ht').1]
    exact hnone
  · rw [List.length_append, List.length_singleton]
    exact hroom
  · rw [rank_of_scanning hs, rank_of_scanning rfl]
    have hfresh := freshness_le scan'.walker.accepted
    have hlower : 2 * m + freshness scan'.walker.accepted < 2 * n + freshness scan'.walker := by
      omega
    exact Prod.Lex.left _ _ (Prod.Lex.left _ _ hlower)

/-- **A reader that gets on with a run**, when the rank falls by it: the run has `Stops`, or the session `Advances`. -/
theorem underway_resolved {r : Resolver} {left' : List ObjectRecord} {queue : List String}
    (hplan : x.search.plan = plan) (hcancelled : x.search.cancelled = false)
    (hs : x.search.stage = .scanning scan) (hwalking : Standing store place scan.walker left (rest, out.2) n)
    (hpages : ∀ c, scan.walker.cursor? = some c → c.token ≠ none → Paging x.walkerPages left)
    (hroom : queue.length ≤ queueLimit) (hplace : r.place = plan.place r.place.id)
    (hgone : Gone store plan out.1 scan.found (r.place.id :: (queue ++ rest))) (hkeeps : Resolving store r left')
    (hsupplied : ∀ c files, r.stage = .listing c files → c.token ≠ none → Paging pages left')
    (hfall : ∀ code, code ≤ r.code → BelowPair (4 * queue.length + code, pages.length)
      (4 * scan.queue.length + scan.code, x.readerPages.length)) :
    Settles store plan place out x n scan r.place.id
      ⟨x.search.resolved { scan with queue := queue } r, x.walkerPages, pages⟩ := by
  rcases resolved_cases { scan with queue := queue } hplan hplace hkeeps hsupplied hgone with
    hended | ⟨after, hafter, hwalker, hqueue, hreading, hcode⟩
  · exact Or.inl hended
  · refine Or.inr ⟨n, ?_⟩
    rw [hafter]
    refine ⟨.intro hplan hcancelled rfl (by rw [hwalker]; exact hwalking) ?_ (by rw [hqueue]; exact hroom) hreading,
      ?_⟩
    · rw [hwalker]
      exact hpages
    · rw [rank_of_scanning hs, rank_of_scanning rfl, hwalker, hqueue]
      exact Prod.Lex.right _ (hfall after.code hcode)

/-- **A page for the reader** at a run `Settles` the session at its id. -/
theorem underway_readerPage {r : Resolver} {files : RunFiles} (h : Underway store plan place out x n)
    (hs : x.search.stage = .scanning scan) (hr : scan.resolving = some r) (hc : r.stage = .listing c files)
    (hpages : store.Offers c x.readerPages (page :: pages)) :
    Settles store plan place out x n scan r.place.id
      ⟨x.search.resolved scan (r.receivePage (.ok page)), x.walkerPages, pages⟩ := by
  obtain @⟨scan', rest, left, plan_eq, not_cancelled, stage, walking, supplied, room, reading⟩ := h
  obtain rfl : scan' = scan := SearchStage.scanning.inj (stage.symm.trans hs)
  cases reading with
  | idle resolving => exact absurd (resolving.symm.trans hr) (by simp)
  | @busy r' left' resolving place_eq keeps live supplied' gone =>
    obtain rfl : r' = r := Option.some.inj (resolving.symm.trans hr)
    obtain ⟨behind, hahead, hlast, hmore⟩ := (hpages.paging (supplied' c files hc)).exists_rest
    have hplace := place_receivePage hc (.ok page)
    rw [← hplace]
    refine underway_resolved plan_eq not_cancelled hs walking supplied room (by rw [hplace]; exact place_eq)
      (by rw [hplace]; exact gone) (resolving_receivePage keeps hc hahead hlast)
      (fun c' files' hc' _ => hmore (cursor_receivePage hc hc').2) fun code hcode => ?_
    -- the first page lets the code fall, each further one leaves fewer pages
    have hcode' : code ≤ 2 := hcode.trans (code_receivePage_le hc page)
    have hbefore : scan'.code = if c.token = none then 3 else 2 := by
      rw [Scan.code, hr, Option.elim_some, Resolver.code, hc]
    rw [hbefore]
    by_cases ht : c.token = none
    · rw [if_pos ht]
      exact Prod.Lex.left _ _ (by omega)
    · rw [if_neg ht, ← hpages.2 ht]
      rcases Nat.lt_or_eq_of_le hcode' with hlt | rfl
      · exact Prod.Lex.left _ _ (by omega)
      · exact Prod.Lex.right _ (Nat.lt_succ_self pages.length)

/-- **The descriptor** of the run that is read `Settles` the session at its id. -/
theorem underway_readerObject {r : Resolver} {key : String} {results : List String}
    (h : Underway store plan place out x n) (hs : x.search.stage = .scanning scan) (hr : scan.resolving = some r)
    (hk : r.stage = .reading key results) :
    Settles store plan place out x n scan r.place.id
      { x with search := x.search.resolved scan (r.receiveObject (store.content key)) } := by
  obtain @⟨scan', rest, left, plan_eq, not_cancelled, stage, walking, supplied, room, reading⟩ := h
  obtain rfl : scan' = scan := SearchStage.scanning.inj (stage.symm.trans hs)
  cases reading with
  | idle resolving => exact absurd (resolving.symm.trans hr) (by simp)
  | @busy r' left' resolving place_eq keeps live supplied' gone =>
    obtain rfl : r' = r := Option.some.inj (resolving.symm.trans hr)
    have hended := resolving_receiveObject keeps hk
    have hplace : (r'.receiveObject (store.content key)).place = r'.place := by
      rw [receiveObject_of_reading hk]
    have hkeeps : Resolving store (r'.receiveObject (store.content key)) left' :=
      .ended (by rw [hended, hplace])
    rw [← hplace]
    refine underway_resolved plan_eq not_cancelled hs walking supplied room (by rw [hplace]; exact place_eq)
      (by rw [hplace]; exact gone) hkeeps (fun c files hc => absurd (hended.symm.trans hc) (by simp))
      fun code hcode => ?_
    -- the resolver has ended, so it counts for nothing from here on
    have hbefore : scan'.code = 1 := by rw [Scan.code, hr, Option.elim_some, Resolver.code, hk]
    have hafter : (r'.receiveObject (store.content key)).code = 0 := by rw [Resolver.code, hended]
    exact Prod.Lex.left _ _ (by omega)

/-- A run that is found to be behind the window has an id with a next one; an id that has none resolves to a failure. -/
theorem exists_next_of_isLate (h : IsLate plan (store.resolve (plan.place id))) : ∃ next, RunId.next id = .ok next := by
  obtain ⟨run, hrun, -⟩ := h
  cases hn : RunId.next id with
  | ok next => exact ⟨next, rfl⟩
  | error f =>
    rw [Snapshot.resolve, show RunId.next (plan.place id).id = .error f from hn] at hrun
    exact absurd hrun (by simp)

/-- **A reader that takes an id** advances, unless the id is malformed and the search ends with its failure: a run is
not settled before its first page. -/
theorem underway_readerTake {queue : List String} (h : Underway store plan place out x n)
    (hs : x.search.stage = .scanning scan) (hr : scan.resolving = none) (hq : scan.queue = id :: queue) :
    (∃ f, (x.search.resolved { scan with queue := queue } (.start (plan.place id))).result? = some (.error f)
        ∧ store.resolve (plan.place id) = .error f)
      ∨ Advances store plan place out x n
        ⟨x.search.resolved { scan with queue := queue } (.start (plan.place id)), x.walkerPages, x.readerPages⟩ := by
  obtain @⟨scan', rest, left, plan_eq, not_cancelled, stage, walking, supplied, room, reading⟩ := h
  obtain rfl : scan' = scan := SearchStage.scanning.inj (stage.symm.trans hs)
  have hplace := place_start (plan.place id)
  have hid : (Resolver.start (plan.place id)).place.id = id := by rw [hplace]; rfl
  cases reading with
  | busy resolving => exact absurd (hr.symm.trans resolving) (by simp)
  | idle resolving gone =>
    rw [hq, List.cons_append] at gone
    rw [hq, List.length_cons] at room
    have hsettles : Settles store plan place out x n scan' (Resolver.start (plan.place id)).place.id
        ⟨x.search.resolved { scan' with queue := queue } (.start (plan.place id)), x.walkerPages, x.readerPages⟩ := by
      refine underway_resolved plan_eq not_cancelled hs walking supplied (by omega) (by rw [hid]; exact hplace)
        (by rw [hid]; exact gone) (resolving_start store (plan.place id) [])
        (fun c files hc ht => absurd (token_of_start hc) ht) fun code hcode => ?_
      -- an id in the queue counts more than all steps with its run
      have hbound := code_le (.start (plan.place id))
      exact Prod.Lex.left _ _ (by rw [hq, List.length_cons]; omega)
    rw [hid] at hsettles
    refine hsettles.imp_left ?_
    rintro ⟨o, ho, hstops⟩
    cases hstops with
    | failed hf => exact ⟨_, ho, hf⟩
    | late hlate =>
      -- the reader waits for a page
      obtain ⟨next, hn⟩ := exists_next_of_isLate hlate
      rw [Resolver.start, show RunId.next (plan.place id).id = .ok next from hn] at ho
      exact absurd ho (by simp [Search.resolved, Search.result?])

end Stepping

/-! ## How a search ends -/

/-- **How a search ends**, when nobody gives the signal and the store does not fail: all runs let it go on and the walk
has ended, or one of them ends it, by its failure or behind the window. -/
inductive Concludes (store : Snapshot) (plan : SearchPlan) (out : List String × Option Failure) : Outcome → Prop where
  /-- The first run that does not let it go on could not be resolved. -/
  | failed {id : String} {later : List String} {found : List JobRun} {f : Failure}
      (gone : Gone store plan out.1 found (id :: later)) (h : store.resolve (plan.place id) = .error f) :
      Concludes store plan out (.error f)
  /-- That run is behind the window. -/
  | late {id : String} {later : List String} {found : List JobRun}
      (gone : Gone store plan out.1 found (id :: later)) (h : IsLate plan (store.resolve (plan.place id))) :
      Concludes store plan out (.ok found)
  /-- That run is behind the window, but the walker has met a failure before; the queue has had room for all ids that
  it has found behind the run. -/
  | overrun {id : String} {later : List String} {found : List JobRun} {f : Failure}
      (gone : Gone store plan out.1 found (id :: later)) (h : IsLate plan (store.resolve (plan.place id)))
      (failure : out.2 = some f) (room : later.length ≤ queueLimit) : Concludes store plan out (.error f)
  /-- All runs let it go on. -/
  | all {found : List JobRun} (gone : Gone store plan out.1 found []) :
      Concludes store plan out (out.2.elim (.ok found) .error)

/-- What a search concludes when nobody has given the signal: the walker's failure, and the runs when it has none. -/
theorem conclusion_eq {s : Search} (hcancelled : s.cancelled = false) (scan : Scan) :
    s.conclusion scan = scan.walker.failure?.elim (.ok scan.found) .error := by
  rw [Search.conclusion, hcancelled, if_neg Bool.false_ne_true]
  cases scan.walker.failure? <;> rfl

section Concluding

variable {x : Session} {scan : Scan} {rest queue : List String} {left : List ObjectRecord} {n : Nat} {o : Outcome}

/-- **A run that ends the search concludes it**: the ids before it are gone through, and not more than `queueLimit` of
those behind it are found when it does. -/
theorem concludes_of_stops (hcancelled : x.search.cancelled = false)
    (hwalking : Standing store place scan.walker left (rest, out.2) n) (hroom : queue.length ≤ queueLimit)
    (hgone : Gone store plan out.1 scan.found (id :: (queue ++ rest)))
    (h : Stops plan (store.resolve (plan.place id)) (x.search.conclusion scan) o) : Concludes store plan out o := by
  cases h with
  | failed h => exact .failed hgone h
  | late h =>
    rw [conclusion_eq hcancelled]
    cases hf : scan.walker.failure? with
    | none => exact .late hgone h
    | some f =>
      -- the walker has ended, so all ids that come later are in the queue
      obtain ⟨rfl, hout⟩ := Prod.mk.inj (eq_of_standing hwalking (hasEnded_of_failure? hf))
      rw [List.append_nil] at hgone
      exact .overrun hgone h (hout.trans hf) hroom

/-- **A reader that finds that there will be no more ids** concludes the search with the reference of all of them, or
with the failure of the walk. -/
theorem concludes_of_ended (h : Underway store plan place out x n) (hs : x.search.stage = .scanning scan)
    (hr : scan.resolving = none) (hq : scan.queue = []) (hw : scan.walker.hasEnded = true) :
    Concludes store plan out (x.search.conclusion scan) := by
  obtain @⟨scan', rest, left, plan_eq, not_cancelled, stage, walking, supplied, room, reading⟩ := h
  obtain rfl : scan' = scan := SearchStage.scanning.inj (stage.symm.trans hs)
  obtain ⟨rfl, hout⟩ := Prod.mk.inj (eq_of_standing walking hw)
  cases reading with
  | busy resolving => exact absurd (hr.symm.trans resolving) (by simp)
  | idle resolving gone =>
    rw [hq] at gone
    rw [conclusion_eq not_cancelled, ← hout]
    exact .all gone

end Concluding

/-! ## Each step -/

section Settling

variable {x : Session} {scan : Scan} {n : Nat}

/-- The id that a reader resolves, and those that come later: first those in the queue, then `rest`. -/
theorem Underway.gone_of_resolving {r : Resolver} (h : Underway store plan place out x n)
    (hs : x.search.stage = .scanning scan) (hr : scan.resolving = some r) :
    ∃ rest left, Standing store place scan.walker left (rest, out.2) n ∧ scan.queue.length ≤ queueLimit
      ∧ Gone store plan out.1 scan.found (r.place.id :: (scan.queue ++ rest)) := by
  obtain @⟨scan', rest, left, plan_eq, not_cancelled, stage, walking, supplied, room, reading⟩ := h
  obtain rfl : scan' = scan := SearchStage.scanning.inj (stage.symm.trans hs)
  cases reading with
  | idle resolving => exact absurd (resolving.symm.trans hr) (by simp)
  | @busy r' left' resolving place_eq keeps live supplied' gone =>
    obtain rfl : r' = r := Option.some.inj (resolving.symm.trans hr)
    exact ⟨rest, left, walking, room, gone⟩

/-- The ids that come later for a reader that waits for one: `scan.queue ++ rest`. -/
theorem Underway.gone_of_idle (h : Underway store plan place out x n) (hs : x.search.stage = .scanning scan)
    (hr : scan.resolving = none) :
    ∃ rest left, Standing store place scan.walker left (rest, out.2) n ∧ scan.queue.length ≤ queueLimit
      ∧ Gone store plan out.1 scan.found (scan.queue ++ rest) := by
  obtain @⟨scan', rest, left, plan_eq, not_cancelled, stage, walking, supplied, room, reading⟩ := h
  obtain rfl : scan' = scan := SearchStage.scanning.inj (stage.symm.trans hs)
  cases reading with
  | busy resolving => exact absurd (hr.symm.trans resolving) (by simp)
  | idle resolving gone => exact ⟨rest, left, walking, room, gone⟩

/-- Nobody has given the signal in a session that is `Underway`. -/
theorem Underway.cancelled_eq (h : Underway store plan place out x n) : x.search.cancelled = false := by
  obtain ⟨-, not_cancelled⟩ := h
  exact not_cancelled

/-- What is searched for in a session that is `Underway plan`. -/
theorem Underway.plan_eq (h : Underway store plan place out x n) : x.search.plan = plan := by
  obtain ⟨plan_eq⟩ := h
  exact plan_eq

/-- A search that is `Underway` goes through the runs. -/
theorem Underway.exists_scan (h : Underway store plan place out x n) : ∃ scan, x.search.stage = .scanning scan := by
  obtain ⟨-, -, stage⟩ := h
  exact ⟨_, stage⟩

/-- A reader that gets on with a run concludes the search, or the session advances: `Settles` is made an alternative of
the search as a whole. -/
theorem Settles.concludes_or_advances {x' : Session} {r : Resolver} (h : Underway store plan place out x n)
    (hs : x.search.stage = .scanning scan) (hr : scan.resolving = some r)
    (hsettles : Settles store plan place out x n scan r.place.id x') :
    (∃ o, x'.search.result? = some o ∧ Concludes store plan out o) ∨ Advances store plan place out x n x' := by
  refine hsettles.imp_left ?_
  rintro ⟨o, ho, hstops⟩
  obtain ⟨rest, left, hwalking, hroom, hgone⟩ := h.gone_of_resolving hs hr
  exact ⟨o, ho, concludes_of_stops h.cancelled_eq hwalking hroom hgone hstops⟩

end Settling

/-- **Each step concludes the search or lets the rank fall.** One case for each constructor of `Session.Step`. -/
theorem concludes_or_advances {x x' : Session} {n : Nat} (h : Underway store plan place out x n)
    (hstep : Session.Step store seed now x x') :
    (∃ o, x'.search.result? = some o ∧ Concludes store plan out o) ∨ Advances store plan place out x n x' := by
  cases hstep with
  | seed hmove =>
    obtain ⟨scan, hs⟩ := h.exists_scan
    cases moves_of_step hmove with
    | seeded hs' => exact absurd (hs'.symm.trans hs) (by simp)
  | walkerPage hs hw hpages hmove =>
    cases moves_of_step hmove with
    | walked hs' hw' =>
      obtain rfl := SearchStage.scanning.inj (hs'.symm.trans hs)
      exact Or.inr (underway_walkerPage h hs hw hpages)
  | readerPage hs hr hc hpages hmove =>
    cases moves_of_step hmove with
    | listed hs' hr' hc' =>
      obtain rfl := SearchStage.scanning.inj (hs'.symm.trans hs)
      obtain rfl := Option.some.inj (hr'.symm.trans hr)
      exact (underway_readerPage h hs hr hc hpages).concludes_or_advances h hs hr
  | readerObject hs hr hk hmove =>
    cases moves_of_step hmove with
    | read hs' hr' hk' =>
      obtain rfl := SearchStage.scanning.inj (hs'.symm.trans hs)
      obtain rfl := Option.some.inj (hr'.symm.trans hr)
      exact (underway_readerObject h hs hr hk).concludes_or_advances h hs hr
  | own he hmove =>
    cases moves_of_step hmove with
    | sent hs hw hroom => exact Or.inr (underway_sent h hs hw hroom)
    | taken hs hr hq =>
      rw [h.plan_eq]
      refine (underway_readerTake h hs hr hq).imp_left ?_
      rintro ⟨f, hresult, hf⟩
      obtain ⟨rest, left, -, -, hgone⟩ := h.gone_of_idle hs hr
      rw [hq, List.cons_append] at hgone
      exact ⟨_, hresult, .failed hgone hf⟩
    | concluded hs hr hq hw => exact Or.inl ⟨_, rfl, concludes_of_ended h hs hr hq hw⟩
    -- nobody gives the signal
    | quit hs hc => exact absurd (hc.symm.trans h.cancelled_eq) (by simp)
    | left hs hc => exact absurd (hc.symm.trans h.cancelled_eq) (by simp)
    -- the others are not events of its own
    | cancel => exact absurd he (by simp [Session.isOwn])
    | unseeded => exact absurd he (by simp [Session.isOwn])
    | seeded => exact absurd he (by simp [Session.isOwn])
    | walked => exact absurd he (by simp [Session.isOwn])
    | listed => exact absurd he (by simp [Session.isOwn])
    | read => exact absurd he (by simp [Session.isOwn])

/-- **The answer of a search whose walk ends without a failure** is `reference store plan ids`, however it ends. -/
theorem Concludes.eq_reference {o : Outcome} (h : Concludes store plan (ids, none) o) :
    o = reference store plan ids := by
  cases h with
  | failed gone hid =>
    rw [gone.reference_eq, reference, hid]
    rfl
  | late gone hid =>
    obtain ⟨run, hrun, hlate⟩ := hid
    rw [gone.reference_eq, reference, hrun, settle, if_pos hlate, prepend, Except.map, List.append_nil]
  | overrun gone hid failure => exact absurd failure (by simp)
  | all gone =>
    rw [gone.reference_eq, reference, prepend, Except.map, List.append_nil]
    rfl

/-- Each step keeps that answer and lets the rank fall, unless it gives the answer: `concludes_or_advances` for a walk
without a failure. -/
theorem underway_step {x x' : Session} {n : Nat} (h : Underway store plan place (ids, none) x n)
    (hstep : Session.Step store seed now x x') :
    x'.search.result? = some (reference store plan ids) ∨ Advances store plan place (ids, none) x n x' := by
  refine (concludes_or_advances h hstep).imp_left ?_
  rintro ⟨o, ho, hconcludes⟩
  rw [ho, hconcludes.eq_reference]

end PayloadGate
