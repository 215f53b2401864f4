import PayloadGate.Proofs.Walk.Found
import PayloadGate.Proofs.Walk.Progress
import Mathlib.Data.List.Dedup

/-! # How many listings a walk takes

Behind its first listing a walk begins one only behind a run directory that it has seen, and no two of them begin at the
same place. A store that does not change has finitely many run directories, so a walk over it takes at most one listing
more than there are run directories.

* **`runDirectories`** — the run directories of a store.
* **`Shown`** — a walker that knows only runs it has been shown; **`Shown.of_moved`** keeps it.
* **`length_starts_le`** — the bound, whatever pages are cut and whenever the walk is ended.
* **`noting`**, **`noted_of_run?`** — a store that notes the listings, and what it notes during a walk.
* **`walk_progress`** — walks move forward, and come to their end within the bound. -/

namespace PayloadGate.Walk

open Walker (isAhead)

variable {store : Snapshot} {route : Route} {seed first : Option String} {shown : String → Prop} {w w' : Walker}
  {c cursor : Cursor} {objects : List ObjectRecord} {root id : String}

/-! ## Runs that have been shown -/

/-- **The run directories of a store** below `root`, each of them once. -/
def runDirectories (store : Snapshot) (root : String) : List String :=
  ((store.records.filterMap fun r => (splitKey? root r.key).map (·.1)).filter fun id => decide (id ≠ "")).dedup

/-- They are the runs of the store that have a name. -/
theorem mem_runDirectories : id ∈ runDirectories store root ↔ HasRun store root id ∧ id ≠ "" := by
  simp only [runDirectories, HasRun, List.mem_dedup, List.mem_filter, List.mem_filterMap, Option.map_eq_some_iff,
    Prod.exists, exists_and_right, exists_eq_right, decide_eq_true_eq]

/-- The `objects` lead only to runs, or past runs, that are `shown`. -/
def TellOf (shown : String → Prop) (route : Route) (objects : List ObjectRecord) : Prop :=
  ∀ r ∈ objects, ∀ id, (route.decision r).id? = some id → shown id

/-- A `place` where a listing may begin: the `first` one, or `route.offset next` for the id behind a run that is
`shown`. -/
def Behind (shown : String → Prop) (route : Route) (first place : Option String) : Prop :=
  place = first ∨ ∃ id next, shown id ∧ RunId.next id = .ok next ∧ place = some (route.offset next)

/-- **A walker that knows only runs that are `shown`**: its listing begins behind one of them, or at `first`, and what
its buffer holds and its stage offers tells of them. -/
structure Shown (shown : String → Prop) (first : Option String) (w : Walker) : Prop where
  /-- Its present listing begins behind one of them. -/
  place : Behind shown w.route first w.offset
  /-- What it has fetched tells of no others. -/
  buffer : ∀ c, w.cursor? = some c → TellOf shown w.route c.buffer
  /-- It offers no others. -/
  offered : ∀ id c, w.stage = .offering id c → shown id

/-- A walker that ends knows no more. -/
theorem shown_finish (h : Behind shown w.route first w.offset) (f : Option Failure) : Shown shown first (w.finish f) :=
  ⟨h, fun c hc => absurd hc (by simp [Walker.cursor?, Walker.finish]), fun id c hs =>
    absurd hs (by simp [Walker.finish])⟩

/-- A listing behind the run `id` that is shown. -/
theorem shown_relist {next : String} (hid : shown id) (hn : RunId.next id = .ok next) :
    Shown shown first (w.relist (some (w.route.offset next))) := by
  refine ⟨.inr ⟨id, next, hid, hn, rfl⟩, fun c hc => ?_, fun id c hs => absurd hs (by simp [Walker.relist])⟩
  obtain rfl := Option.some.inj hc
  exact fun r hr => absurd hr (by simp [Cursor.start])

/-- **Going through `objects` that tell only of runs that are shown.** The induction is on the objects. -/
theorem shown_goThrough (hplace : Behind shown w.route first w.offset) (hobjects : TellOf shown w.route objects)
    (cursor : Cursor) : Shown shown first (w.goThrough cursor objects) := by
  -- by induction on the page: only an object names an id, and `hobjects` tells that the ids of all of them are `shown`
  induction objects with
  | nil =>
    rw [Walker.goThrough]
    split
    · exact shown_finish hplace none
    · refine ⟨hplace, fun c hc => ?_, fun id c hs => absurd hs (by simp)⟩
      obtain rfl := Option.some.inj hc
      exact fun r hr => absurd hr List.not_mem_nil
  | cons r rest ih =>
    obtain ⟨hr, hrest⟩ := List.forall_mem_cons.1 hobjects
    rw [Walker.goThrough, ← Route.decision]
    cases hdecision : w.route.decision r with
    | ignore => exact ih hrest
    | fastForward id =>
      have hid : shown id := hr id (by rw [hdecision]; rfl)
      dsimp only
      split
      · exact shown_finish hplace _
      · rename_i next hn
        split
        · exact shown_relist hid hn
        · exact ih hrest
    | candidate id =>
      have hid : shown id := hr id (by rw [hdecision]; rfl)
      dsimp only
      split
      · exact shown_finish hplace _
      · rename_i next hn
        split
        · refine ⟨hplace, fun c hc => ?_, fun id' c hs => ?_⟩
          · obtain rfl := Option.some.inj hc
            exact hrest
          · obtain ⟨rfl, -⟩ := Stage.offering.inj hs
            exact hid
        · split
          · exact shown_relist hid hn
          · exact ih hrest

/-- A walk has been shown nothing before its first listing. -/
theorem shown_start (shown : String → Prop) (route : Route) (seed : Option String) :
    Shown shown (seed.map route.offset) (.start route seed) := by
  refine ⟨.inl rfl, fun c hc => ?_, fun id c hs => absurd hs (by simp [Walker.start, Walker.relist])⟩
  obtain rfl := Option.some.inj hc
  exact fun r hr => absurd hr (by simp [Cursor.start])

/-- **Each step keeps to the runs that are shown**, when its `page` tells only of them. -/
theorem Shown.of_moved {e : Walker.Event} (h : Shown shown first w) (hw : Distinct w) (hmoved : Moved w e w')
    (he : ∀ page, e = .answered (.ok page) → TellOf shown w.route page.records) : Shown shown first w' := by
  cases hmoved with
  | @answered c hs reply =>
    -- what comes with a page and what was left in the buffer, all of it has been told
    cases reply with
    | error f =>
      rw [receive_error_of_listing hs]
      exact shown_finish h.place _
    | ok page =>
      rw [receive_of_listing hs]
      refine shown_goThrough h.place (fun r hr => ?_) _
      rcases List.mem_append.1 hr with hr | hr
      · exact h.buffer c (by rw [Walker.cursor?, hs]) r hr
      · exact he page rfl r hr
  | @taken id c hs =>
    obtain ⟨-, next, hn⟩ := hw.offered id c hs
    rw [accepted_of_offering hs hn]
    split
    · exact shown_relist (w := taking w id) (h.offered id c hs) hn
    · exact shown_goThrough (w := taking w id) h.place (h.buffer c (by rw [Walker.cursor?, hs])) c
  | quit => exact shown_finish h.place none

/-! ## The bound -/

/-- All pages of `events` tell only of runs that are `shown`. -/
def EventsTellOf (shown : String → Prop) (route : Route) (events : List Walker.Event) : Prop :=
  ∀ page, .answered (.ok page) ∈ events → TellOf shown route page.records

/-- **All listings begin behind runs that are shown**, the first one apart: each of `starts events w` is a `Behind`
place. -/
theorem behind_of_mem_starts {events : List Walker.Event} {place : Option String} (hw : AtListing w)
    (h : Shown shown first w) (hevents : EventsTellOf shown w.route events) (hplace : place ∈ starts events w) :
    Behind shown w.route first place := by
  -- a listing that is asked for next begins at the place of the walker
  have hnext : ∀ {w : Walker}, AtListing w → Shown shown first w → place ∈ w.begins?.toList →
      Behind shown w.route first place := by
    intro w hw h hmem
    rw [hw.offset_eq_of_begins? (Option.mem_toList.1 hmem)]
    exact h.place
  induction events generalizing w with
  | nil =>
    rw [starts, restarts, List.append_nil] at hplace
    exact hnext hw h hplace
  | cons e events ih =>
    rcases List.mem_append.1 hplace with hplace | hplace
    · exact hnext hw h hplace
    · cases hstep : w.step e with
      | none => simp [restarts, hstep] at hplace
      | some w' =>
        rw [restarts, hstep, Option.elim_some] at hplace
        have hmoved := moved_of_step hstep
        rw [← (hmoved.route_eq hw.toDistinct)] at hevents ⊢
        refine ih (hw.of_moved hmoved).1 (h.of_moved hw.toDistinct hmoved ?_) ?_ hplace
        · rintro page rfl
          exact (hmoved.route_eq hw.toDistinct) ▸ hevents page List.mem_cons_self
        · exact fun page hpage => hevents page (List.mem_cons_of_mem e hpage)

/-- **There are no more listings than run directories that are shown, and one**, whatever pages are cut, whether calls
fail and whenever the walk is ended: `(starts events (.start route seed)).length ≤ 1 + ids.length`. -/
theorem length_starts_le {events : List Walker.Event} {ids : List String} (route : Route) (seed : Option String)
    (hevents : EventsTellOf (· ∈ ids) route events) :
    (starts events (.start route seed)).length ≤ 1 + ids.length := by
  let places := ids.filterMap fun id => (RunId.next id).toOption.map fun next => some (route.offset next)
  have hstart := atListing_start route seed
  have hsub : starts events (.start route seed) ⊆ seed.map route.offset :: places := by
    intro place hplace
    rcases behind_of_mem_starts hstart (shown_start _ route seed) hevents hplace with rfl | ⟨id, next, hid, hn, rfl⟩
    · exact List.mem_cons_self
    · refine List.mem_cons_of_mem _ (List.mem_filterMap.2 ⟨id, hid, ?_⟩)
      rw [hn]
      rfl
  have hnodup : (starts events (.start route seed)).Nodup := (pairwise_starts hstart events).imp ne_of_place_lt
  calc (starts events (.start route seed)).length
      ≤ (seed.map route.offset :: places).length := hnodup.length_le_of_subset hsub
    _ = 1 + places.length := by rw [List.length_cons, Nat.add_comm]
    _ ≤ 1 + ids.length := Nat.add_le_add_left (List.length_filterMap_le _ ids) 1

/-- Objects of a `store` tell only of its run directories. -/
theorem tellOf_of_subset (h : objects ⊆ store.records) :
    TellOf (· ∈ runDirectories store route.root) route objects := by
  intro r hr id hid
  exact mem_runDirectories.2 ⟨hasRun_of_id? (h hr) hid, (id?_eq_some_iff.1 hid).2.1⟩

/-! ## A store that notes the listings -/

section Noting

variable {σ : Type} {ask : ListQuery → Option String → σ → Except Failure ObjectPage × σ} {s : σ} {q : ListQuery}
  {token : Option String} {noted : List (Option String)} {pages : List ObjectPage}

/-- **A store that notes the listings** that are begun, last one first: a call without a token adds `q.start`. -/
def noting (ask : ListQuery → Option String → σ → Except Failure ObjectPage × σ) (q : ListQuery)
    (token : Option String) (t : σ × List (Option String)) : Except Failure ObjectPage × σ × List (Option String) :=
  let (reply, s) := ask q token t.1
  (reply, s, if token = none then q.start :: t.2 else t.2)

/-- It delivers the same `pages` as `ask`. -/
theorem delivers_noting (h : Delivers ask q token s pages) : Delivers (noting ask) q token (s, noted) pages := by
  induction pages generalizing token s noted with
  | nil => trivial
  | cons page pages ih =>
    obtain ⟨s', hask, hdelivers⟩ := h
    exact ⟨_, by rw [noting, hask], ih hdelivers⟩

/-- It serves the same listings as `ask`. -/
theorem serves_noting (h : store.Serves ask q) : store.Serves (noting ask) q := by
  rintro ⟨s, noted⟩
  obtain ⟨pages, hpaging, hdelivers⟩ := h s
  exact ⟨pages, hpaging, delivers_noting hdelivers⟩

/-- What a cursor has ahead are objects of the store, when what is left of its listing are. -/
theorem ahead_subset (h : objects ⊆ store.records) : store.ahead c objects ⊆ store.records := by
  rw [Snapshot.ahead]
  split
  · exact List.filter_subset_self store.records
  · exact h

/-- **The notes between two moments of a walk**: `noted'` is `noted` and the places from which the walker began its
listings, for events in which all pages hold objects of the store. -/
def Noted (store : Snapshot) (w : Walker) (noted noted' : List (Option String)) : Prop :=
  ∃ events : List Walker.Event, (∀ page, .answered (.ok page) ∈ events → page.records ⊆ store.records)
    ∧ noted' = (starts events w).reverse ++ noted

/-- Nothing is noted at the end of a walk. -/
theorem noted_of_ended {failure : Option Failure} (hs : w.stage = .ended failure) : Noted store w noted noted :=
  ⟨[], by simp, by simp [starts, restarts, Walker.begins?, hs]⟩

/-- Nothing is noted while an id is taken. -/
theorem noted_of_offering {id : String} {noted' : List (Option String)} (hs : w.stage = .offering id c)
    (h : Noted store w.accepted noted noted') : Noted store w noted noted' := by
  obtain ⟨events, hpages, rfl⟩ := h
  have hstep : w.step .taken = some w.accepted := by simp only [Walker.step, hs]
  refine ⟨.taken :: events, by simpa using hpages, ?_⟩
  rw [starts_cons hstep]
  simp [Walker.begins?, hs]

/-- **The first page of a listing is noted**, and no other one: it is the one that is asked for without a token. -/
theorem noted_of_listing {page : ObjectPage} {s' : σ} {noted₁ noted' : List (Option String)}
    (hs : w.stage = .listing c) (hask : noting ask c.query c.token (s, noted) = (.ok page, s', noted₁))
    (hpage : page.records ⊆ store.records) (h : Noted store (w.receive (.ok page)) noted₁ noted') :
    Noted store w noted noted' := by
  obtain ⟨events, hpages, rfl⟩ := h
  have hstep : w.step (.answered (.ok page)) = some (w.receive (.ok page)) := by simp only [Walker.step, hs]
  have hbegun : noted₁ = w.begins?.toList ++ noted := by
    have hnoted : _ = noted₁ := congrArg (·.2.2) hask
    rw [← hnoted, noting, Walker.begins?, hs]
    dsimp only
    split <;> rfl
  -- the call that was noted is the one that this event begins
  refine ⟨.answered (.ok page) :: events, fun page' hpage' => ?_, ?_⟩
  · rcases List.mem_cons.1 hpage' with heq | hpage'
    · obtain rfl := Except.ok.inj (Walker.Event.answered.inj heq)
      exact hpage
    · exact hpages page' hpage'
  · rw [starts_cons hstep, hbegun]
    cases w.begins? <;> simp

/-- **What a store notes during a walk** are the places from which the walker begins its listings. The induction is on
`steps`. -/
theorem noted_of_run? (hserve : ∀ start, store.Serves ask (route.listing start)) {steps : Nat}
    {left : List ObjectRecord} {t t' : σ × List (Option String)} (hroute : w.route = route) (hw : AtListing w)
    (hleft : left ⊆ store.records) (hsupplied : Supplied (noting ask) w t left)
    (h : w.run? (noting ask) steps t = some (w', t')) : Noted store w t.2 t'.2 := by
  induction steps generalizing w t left with
  | zero => exact absurd h (by simp [Walker.run?])
  | succ steps ih =>
    rw [Walker.run?] at h
    cases hs : w.stage with
    | ended f =>
      rw [hs] at h
      obtain ⟨rfl, rfl⟩ := Prod.mk.inj (Option.some.inj h)
      exact noted_of_ended hs
    | offering id c =>
      rw [hs] at h
      obtain ⟨-, next, hn⟩ := hw.offered id c hs
      have hroute' := (leads_accepted hs hn).route_eq.trans hroute
      exact noted_of_offering hs (ih hroute' (hw.of_moved (.taken hs)).1 hleft (hsupplied.accepted hs hn) h)
    | listing c =>
      rw [hs] at h
      have hquery := hw.query_eq c (by rw [Walker.cursor?, hs])
      obtain ⟨pages, hpaging, hdelivers⟩ :=
        exists_delivers (fun start => serves_noting (hserve start)) hroute hs hquery hsupplied
      cases pages with
      | nil => exact absurd hpaging Paging.not_nil
      | cons page pages =>
        obtain ⟨t₁, hask, hdelivers⟩ := hdelivers
        obtain ⟨rest, hahead, -, hmore⟩ := hpaging.exists_rest
        -- the page and what is left behind it are objects of the store
        obtain ⟨hpage, hrest⟩ := List.append_subset.1 (hahead ▸ ahead_subset hleft)
        have hleads := leads_receive hs page
        simp only [hask] at h
        exact noted_of_listing hs hask hpage (ih (hleads.route_eq.trans hroute) (hw.of_moved (.answered hs _)).1 hrest
          (supplied_of_leads hleads hmore hdelivers) h)

end Noting

/-! ## Whole walks -/

/-- **Walks get on.** Whatever the store answers, whichever calls fail and whenever the walk is ended: `starts` is
ascending, so that the listings of one walk begin further and further ahead, no run id is taken twice, and each that is
taken has a next one. Against a `store` that does not change and serves the listings of the job, in whatever pages, the
walk ends, and there are no more listings than run directories, and one. -/
theorem walk_progress (route : Route) (seed : Option String) :
    (∀ events : List Walker.Event, (starts events (.start route seed)).Pairwise (· < ·)
      ∧ (sent events (.start route seed)).Nodup
      ∧ ∀ id ∈ sent events (.start route seed), ∃ next, RunId.next id = .ok next)
    ∧ ∀ (σ : Type) (store : Snapshot) (ask : ListQuery → Option String → σ → Except Failure ObjectPage × σ),
      (∀ start, store.Serves ask (route.listing start)) → ∀ s, ∃ enough, ∀ steps, enough ≤ steps → ∃ w s' noted,
        (Walker.start route seed).run? (noting ask) steps (s, []) = some (w, s', noted) ∧ w.hasEnded = true
        ∧ noted.length ≤ 1 + (runDirectories store route.root).length := by
  have hstart := atListing_start route seed
  refine ⟨fun events => ⟨pairwise_starts hstart events, ?_⟩, fun σ store ask hserve s => ?_⟩
  · obtain ⟨hnodup, hall⟩ := nodup_sent hstart.toDistinct events
    exact ⟨hnodup, fun id hid => (hall id hid).2⟩
  · obtain ⟨enough, henough⟩ := ends_start route seed (fun start => serves_noting (hserve start)) (s, [])
    refine ⟨enough, fun steps hsteps => ?_⟩
    obtain ⟨w, ⟨s', noted⟩, hrun, -, hended⟩ := henough steps hsteps
    refine ⟨w, s', noted, hrun, by rw [Walker.hasEnded, hended], ?_⟩
    -- the listings that `noting` wrote down are the `starts` of a sequence of events
    obtain ⟨events, hpages, hnoted⟩ :=
      noted_of_run? hserve rfl hstart (List.nil_subset _) (supplied_start route seed) hrun
    obtain rfl : noted = (starts events (.start route seed)).reverse := hnoted.trans (List.append_nil _)
    rw [List.length_reverse]
    exact length_starts_le route seed fun page hpage => tellOf_of_subset (hpages page hpage)

/-- The walk over one run, whose next place lies before it, takes no more than two listings. -/
theorem walk_progress_nine :
    (∀ start, nineStore.Serves (nineStore.onePage : _ → _ → Unit → _) (nineRoute.listing start))
      ∧ ∃ enough, ∀ steps, enough ≤ steps → ∃ w s' noted,
        (Walker.start nineRoute none).run? (noting nineStore.onePage) steps ((), []) = some (w, s', noted)
        ∧ w.hasEnded = true ∧ noted.length ≤ 2 := by
  have hserve : ∀ start, nineStore.Serves (nineStore.onePage : _ → _ → Unit → _) (nineRoute.listing start) :=
    fun start => nineStore.serves_onePage _
  have hdirectories : (runDirectories nineStore nineRoute.root).length = 1 := by decide +kernel
  have hprogress := (walk_progress nineRoute none).2 Unit nineStore nineStore.onePage hserve ()
  rw [hdirectories] at hprogress
  exact ⟨hserve, hprogress⟩

end PayloadGate.Walk
