import PayloadGate.Proofs.Store.Steady
import PayloadGate.Proofs.Walk.Simulation

/-! # Whole walks

**`Walker.run?`** plays a walk to its end against a store that answers for pages. Against a store
that serves the listings of a job and does not change, the walk ends, and it finds what a single
pass over the objects finds, whatever pages the store cuts.

* **`Supplied`** — a store whose pages for the present listing are still to come.
* **`ends_of_standing`** — a walker that stands to find given ids comes to its end with them.
* **`passFrom`** — what a walk has to find.
* **`run?_start_eq_pass`** — a whole walk is the single pass. -/

namespace PayloadGate.Walk

variable {σ : Type} {store : Snapshot} {seed : Option String} {w : Walker}
  {ask : ListQuery → Option String → σ → Except Failure ObjectPage × σ}

/-- **The pages of the present listing are still to come**: the store, asked as the cursor of the
walker asks, goes on to deliver pages that hold `left`. -/
def Supplied (ask : ListQuery → Option String → σ → Except Failure ObjectPage × σ) (w : Walker)
    (s : σ) (left : List ObjectRecord) : Prop :=
  ∀ c, w.cursor? = some c → c.token ≠ none → ∃ pages, Paging pages left
    ∧ Delivers ask c.query c.token s pages

/-- Behind a page the store goes on with the pages that follow, which hold `left`. -/
theorem supplied_of_leads {w' : Walker} {cursor : Cursor} {s : σ} {pages : List ObjectPage}
    {left : List ObjectRecord} (h : Leads w cursor w')
    (hpages : cursor.token ≠ none → Paging pages left)
    (hask : Delivers ask cursor.query cursor.token s pages) : Supplied ask w' s left := by
  intro c hc ht
  -- a cursor with a token is that of the page
  obtain ⟨htoken, hquery⟩ := h.token_cursor? hc ht
  rw [htoken] at ht
  rw [htoken, hquery]
  exact ⟨pages, hpages ht, hask⟩

/-- Taking `id` leaves the pages to come. -/
theorem Supplied.accepted {id next : String} {c : Cursor} {s : σ} {left : List ObjectRecord} (h : Supplied ask w s left)
    (hs : w.stage = .offering id c) (hn : RunId.next id = .ok next) : Supplied ask w.accepted s left := by
  intro c' hc' ht'
  obtain ⟨htoken, hquery⟩ := (leads_accepted hs hn).token_cursor? hc' ht'
  rw [htoken, hquery]
  exact h c (by rw [Walker.cursor?, hs]) fun hnone => ht' (htoken.trans hnone)

/-! ## A walk to its end -/

/-- What a walker comes to in the end: with the ids that it has taken before it has the ids of `out`, and it ends as
`out` says. -/
def Ends (ask : ListQuery → Option String → σ → Except Failure ObjectPage × σ) (w : Walker) (s : σ)
    (out : List String × Option Failure) : Prop :=
  ∃ enough, ∀ steps, enough ≤ steps → ∃ w' s', w.run? ask steps s = some (w', s')
    ∧ w'.emitted.reverse = w.emitted.reverse ++ out.1 ∧ w'.stage = .ended out.2

/-- A walker that has ended has come to its end, and finds no more ids. -/
theorem ends_of_ended {failure : Option Failure} (hs : w.stage = .ended failure) (s : σ) :
    Ends ask w s ([], failure) := by
  refine ⟨1, fun steps hsteps => ?_⟩
  obtain ⟨steps, rfl⟩ := Nat.exists_eq_add_of_le' hsteps
  refine ⟨w, s, ?_, by rw [List.append_nil], hs⟩
  rw [Walker.run?, hs]

/-- A walker whose `id` is taken comes to the end of the walker behind, with `id` before its `ids`. -/
theorem ends_of_offering {id next : String} {c : Cursor} {s : σ} {ids : List String}
    {failure : Option Failure} (hs : w.stage = .offering id c) (hn : RunId.next id = .ok next)
    (h : Ends ask w.accepted s (ids, failure)) :
    Ends ask w s (id :: ids, failure) := by
  refine exists_enough_succ h ?_
  rintro steps ⟨w', s', hrun, hids, hended⟩
  refine ⟨w', s', ?_, ?_, hended⟩
  · rw [Walker.run?, hs]
    exact hrun
  · rw [hids, (leads_accepted hs hn).emitted_eq]
    simp [taking]

/-- A walker that gets `page` comes to the end of the walker behind. -/
theorem ends_of_listing {c : Cursor} {page : ObjectPage} {s s' : σ}
    {out : List String × Option Failure} (hs : w.stage = .listing c)
    (hask : ask c.query c.token s = (.ok page, s')) (h : Ends ask (w.receive (.ok page)) s' out) :
    Ends ask w s out := by
  refine exists_enough_succ h ?_
  rintro steps ⟨w', t, hrun, hids, hended⟩
  refine ⟨w', t, ?_, ?_, hended⟩
  · rw [Walker.run?, hs]
    simp only [hask]
    exact hrun
  · rw [hids, (leads_receive hs page).emitted_eq]

/-- **A walker that waits for a page comes to its end**, when all walkers with a number `m < n` do. The induction is on
the pages of the listing that are still to come. -/
theorem ends_of_delivers {route : Route} {n : Nat} {out : List String × Option Failure}
    {pages : List ObjectPage}
    (ih : ∀ m < n, ∀ (w : Walker) (left : List ObjectRecord) (s : σ),
      Standing store seed w left out m → w.route = route → Supplied ask w s left → Ends ask w s out)
    {left : List ObjectRecord} {s : σ} {c : Cursor} (h : Standing store seed w left out n)
    (hroute : w.route = route) (hs : w.stage = .listing c)
    (hpaging : Paging pages (store.ahead c left))
    (hdelivers : Delivers ask c.query c.token s pages) : Ends ask w s out := by
  induction pages generalizing w left s c with
  | nil => exact absurd hpaging Paging.not_nil
  | cons page pages ihpages =>
    obtain ⟨s', hask, hdelivers⟩ := hdelivers
    obtain ⟨rest, hahead, hlast, hmore⟩ := hpaging.exists_rest
    obtain ⟨m, hm, hstanding, hsame⟩ := standing_receive h hs hahead hlast
    have hleads := leads_receive hs page
    have hroute' : (w.receive (.ok page)).route = route := by rw [hleads.route_eq, hroute]
    refine ends_of_listing hs hask ?_
    rcases Nat.lt_or_eq_of_le hm with hlt | rfl
    · exact ih m hlt _ rest s' hstanding hroute' (supplied_of_leads hleads hmore hdelivers)
    · -- the walker waits for the next page of the same listing
      obtain ⟨c', hs', ht⟩ := hsame rfl
      have hcursor : (w.receive (.ok page)).cursor? = some c' := by rw [Walker.cursor?, hs']
      obtain ⟨htoken, hquery⟩ := hleads.token_cursor? hcursor ht
      refine ihpages hstanding hroute' hs' ?_ ?_
      · rw [Snapshot.ahead_of_ne_none ht]
        exact hmore fun hnone => ht (htoken.trans hnone)
      · rw [htoken, hquery]
        exact hdelivers

/-- The pages that a walker waits for, when its listing is new or the store goes on with it. -/
theorem exists_delivers {route : Route} (hserve : ∀ start, store.Serves ask (route.listing start))
    {c : Cursor} {left : List ObjectRecord} {s : σ} (hroute : w.route = route)
    (hs : w.stage = .listing c) (hquery : c.query = w.route.listing w.offset)
    (hsupplied : Supplied ask w s left) :
    ∃ pages, Paging pages (store.ahead c left) ∧ Delivers ask c.query c.token s pages := by
  by_cases ht : c.token = none
  · rw [Snapshot.ahead_of_eq_none ht, ht, hquery, hroute]
    exact hserve w.offset s
  · rw [Snapshot.ahead_of_ne_none ht]
    exact hsupplied c (by rw [Walker.cursor?, hs]) ht

/-- **A walker that stands to find given ids comes to its end with them**: `Standing store seed w left out n` gives
`Ends ask w s out`. The induction is on the number `n` of the invariant, which falls until the walker waits for a page
of the same listing. -/
theorem ends_of_standing {route : Route} (hserve : ∀ start, store.Serves ask (route.listing start))
    {n : Nat} {left : List ObjectRecord} {s : σ} {out : List String × Option Failure}
    (h : Standing store seed w left out n) (hroute : w.route = route)
    (hsupplied : Supplied ask w s left) :
    Ends ask w s out := by
  induction n using Nat.strong_induction_on generalizing w left s out with
  | _ n ih =>
    have hstanding := h
    cases h with
    | listing stage buffer query reached holds =>
      obtain ⟨pages, hpaging, hdelivers⟩ := exists_delivers hserve hroute stage query hsupplied
      exact ends_of_delivers (fun m hm _ _ _ hst hro hsu => ih m hm hst hro hsu) hstanding hroute
        stage hpaging hdelivers
    | offering stage query exhausted last reached candidate next_eq holds =>
      -- the id is taken at once, and the pages for the present listing stay to come
      have hleads := leads_accepted stage next_eq
      obtain ⟨ids, m, hm, hids, hstanding'⟩ := standing_accepted hstanding stage
      obtain rfl := (List.cons.inj hids).2
      exact ends_of_offering stage next_eq
        (ih m hm hstanding' (hleads.route_eq.trans hroute) (hsupplied.accepted stage next_eq))
    | ended stage => exact ends_of_ended stage s

/-- What a walk over the runs of a job has to find: what one pass over the objects at and behind the `seed` finds. -/
def passFrom (store : Snapshot) (route : Route) (seed : Option String) :
    List String × Option Failure :=
  pass route (seed.map route.offset) (store.listing (route.listing (seed.map route.offset)))

/-- Before the first listing no pages have to come. -/
theorem supplied_start (route : Route) (seed : Option String) {s : σ} {left : List ObjectRecord} :
    Supplied ask (.start route seed) s left := by
  intro c hc ht
  obtain rfl := Option.some.inj hc
  exact absurd rfl ht

/-- A walk comes to its end with what the pass finds. -/
theorem ends_start (route : Route) (seed : Option String)
    (hserve : ∀ start, store.Serves ask (route.listing start)) (s : σ) :
    Ends ask (Walker.start route seed) s (passFrom store route seed) :=
  ends_of_standing hserve (standing_start store route seed []) rfl (supplied_start route seed)

/-- **A whole walk is the single pass.** Against a `store` that does not change and serves the listings of the job, in
whatever pages, the walk comes to its end; the ids that were taken, in their order, and the end are those of
`passFrom store route seed`. -/
theorem run?_start_eq_pass {σ : Type} (store : Snapshot) (route : Route) (seed : Option String)
    (ask : ListQuery → Option String → σ → Except Failure ObjectPage × σ)
    (hserve : ∀ start, store.Serves ask (route.listing start)) (s : σ) :
    ∃ enough, ∀ steps, enough ≤ steps →
      ∃ w s', (Walker.start route seed).run? ask steps s = some (w, s')
      ∧ w.emitted.reverse = (passFrom store route seed).1
      ∧ w.stage = .ended (passFrom store route seed).2 := by
  obtain ⟨enough, henough⟩ := ends_start route seed hserve s
  refine ⟨enough, fun steps hsteps => ?_⟩
  obtain ⟨w, s', hrun, hids, hended⟩ := henough steps hsteps
  exact ⟨w, s', hrun, hids, hended⟩

/-- Three runs of one job, with ids on both sides of a digit more, in pages of one object behind an
empty page. -/
def rolloverStore : MemoryStore where
  objects := [⟨⟨"job/10/prowjob.json", ⟨0, 0⟩⟩, [], 0⟩, ⟨⟨"job/8/prowjob.json", ⟨0, 0⟩⟩, [], 0⟩,
    ⟨⟨"job/9/prowjob.json", ⟨0, 0⟩⟩, [], 0⟩]
  pageSize := 1
  leadEmpty := true
  failingCalls := []
  failingKeys := []
  latency := 0

/-- The walk over the three runs finds each of them once. -/
theorem run?_rolloverStore :
    ∃ enough, ∀ steps, enough ≤ steps → ∃ w s', (Walker.start ⟨"job", ⟨0, 0⟩, ⟨0, 0⟩⟩ none).run?
        rolloverStore.toStore.askPage steps Visit.start = some (w, s')
      ∧ w.emitted.reverse = ["10", "8", "9"] ∧ w.stage = .ended none := by
  have hsteady : rolloverStore.Steady := ⟨rfl, by decide⟩
  have hpass : passFrom rolloverStore.snapshot ⟨"job", ⟨0, 0⟩, ⟨0, 0⟩⟩ none
      = (["10", "8", "9"], none) := by
    rw [passFrom, Snapshot.listing, hsteady.records_snapshot (by decide)]
    decide +kernel
  have hrun := run?_start_eq_pass rolloverStore.snapshot
    ⟨"job", ⟨0, 0⟩, ⟨0, 0⟩⟩ none rolloverStore.toStore.askPage
    (fun _ => hsteady.serves (show "job/" ≠ "" by decide)) Visit.start
  rwa [hpass] at hrun

end PayloadGate.Walk
