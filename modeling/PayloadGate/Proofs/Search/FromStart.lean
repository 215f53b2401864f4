import PayloadGate.Proofs.Run.Directory
import PayloadGate.Proofs.Store.Remote
import PayloadGate.Proofs.Walk.Run

/-! # Searching a service that lists from behind a key

The listings of a walk and of a resolution start at the place of a run. A service does not list an object that has the
name of this place, because it lists from behind it. Nobody misses it: it lies in no run directory, so that a walk
ignores it and a resolution does not note it.

* **`Walk.AtRuns`**, **`Walk.run?_withStart`** — a walk comes to the same with the object at the start of each listing.
* **`Resolver.run?_withStart`** — and so does a resolution.
* **`SameFromStart`**, **`Lists.sameFromStart`** — a service that lists what it holds is as good as a store that lists
  from the start. -/

namespace PayloadGate

/-! ## Walks -/

namespace Walk

variable {σ : Type} {store : Snapshot} {w w' : Walker} {cursor : Cursor} {seed : Option String} {route : Route}
  {ask : ListQuery → Option String → σ → Except Failure ObjectPage × σ}

/-- An object with the name of a run directory, `r.key = route.offset id`, is to be ignored. -/
theorem classify_of_key_eq {r : ObjectRecord} {id : String} (hid : '/' ∉ id.toList) (hkey : r.key = route.offset id) :
    classify route.root route.bands route.now r = .ignore := by
  have hsplit : splitKey? route.root r.key = none := by
    rw [Option.eq_none_iff_forall_ne_some]
    rintro ⟨id', name⟩ hsome
    exact RunId.place_ne_key hid route.root name (hkey.symm.trans (key_eq_of_splitKey? hsome))
  rw [classify, hsplit]
  split <;> rfl

/-- A walker passes objects that are to be `ignored`, as if they were not there. -/
theorem goThrough_append_of_ignore {ignored : List ObjectRecord}
    (h : ∀ r ∈ ignored, classify w.route.root w.route.bands w.route.now r = .ignore) (objects : List ObjectRecord) :
    w.goThrough cursor (ignored ++ objects) = w.goThrough cursor objects := by
  induction ignored with
  | nil => rfl
  | cons r ignored ih =>
    obtain ⟨hr, hrest⟩ := List.forall_mem_cons.1 h
    rw [List.cons_append, Walker.goThrough, hr]
    exact ih hrest

/-- What the `buffer` of the cursor was does not matter to a walker that goes through new objects. -/
theorem goThrough_buffer (w : Walker) (cursor : Cursor) (buffer objects : List ObjectRecord) :
    w.goThrough { cursor with buffer := buffer } objects = w.goThrough cursor objects := by
  induction objects with
  | nil => rfl
  | cons r objects ih => simp only [Walker.goThrough, ih]

/-- **A walker whose listings start at runs**: its place, and the start of its listing, is `offset` of an id without a
slash. -/
structure AtRuns (w : Walker) : Prop where
  /-- The present listing starts at a run, unless it starts at the beginning. -/
  offset : ∀ place, w.offset = some place → ∃ id, place = w.route.offset id ∧ '/' ∉ id.toList
  /-- The cursor goes through the present listing. -/
  query : ∀ c, w.cursor? = some c → c.query = w.route.listing w.offset
  /-- A walker that waits for a page has gone through the last one. -/
  buffer : ∀ c, w.stage = .listing c → c.buffer = []

/-- A walker at its end starts no listing. -/
theorem atRuns_finish (h : ∀ place, w.offset = some place → ∃ id, place = w.route.offset id ∧ '/' ∉ id.toList)
    (f : Option Failure) : AtRuns (w.finish f) :=
  ⟨h, fun c hc => absurd hc (by simp [Walker.cursor?, Walker.finish]), fun c hs => absurd hs (by simp [Walker.finish])⟩

/-- A walker at the start of a listing whose place is that of a run. -/
theorem atRuns_relist {place : Option String}
    (h : ∀ p, place = some p → ∃ id, p = w.route.offset id ∧ '/' ∉ id.toList) : AtRuns (w.relist place) := by
  refine ⟨h, fun c hc => ?_, fun c hs => ?_⟩
  · obtain rfl := Option.some.inj hc
    rfl
  · obtain rfl := Stage.listing.inj hs
    rfl

/-- What a walker comes to whose listings start at runs, when it `Leads` from one place to the next. -/
theorem Leads.atRuns (h : Leads w cursor w')
    (hoffset : ∀ place, w.offset = some place → ∃ id, place = w.route.offset id ∧ '/' ∉ id.toList)
    (hquery : cursor.query = w.route.listing w.offset) : AtRuns w' := by
  -- a new listing begins at the place of an id, and that has no slash, so that no run directory is cut in two
  cases h with
  | ended | failed => exact atRuns_finish hoffset _
  | page =>
    refine ⟨hoffset, fun c hc => ?_, fun c hs => ?_⟩
    · obtain rfl := Option.some.inj hc
      exact hquery
    · obtain rfl := Stage.listing.inj hs
      rfl
  | offer =>
    refine ⟨hoffset, fun c hc => ?_, fun c hs => absurd hs (by simp)⟩
    obtain rfl := Option.some.inj hc
    exact hquery
  | @relist id next hn =>
    refine atRuns_relist fun p hp => ⟨next, (Option.some.inj hp).symm, ?_⟩
    exact RunId.slash_notMem_next hn

/-- At the start of a walk the place is that of the seed, when there is one. -/
theorem atRuns_start (route : Route) (hseed : ∀ id ∈ seed, '/' ∉ id.toList) : AtRuns (.start route seed) := by
  refine atRuns_relist fun p hp => ?_
  obtain ⟨id, hid, rfl⟩ := Option.map_eq_some_iff.1 hp
  exact ⟨id, rfl, hseed id hid⟩

/-- A taken id leaves the place as it is, and the next listing starts at it. -/
theorem AtRuns.accepted {id : String} {c : Cursor} (h : AtRuns w) (hs : w.stage = .offering id c) :
    AtRuns w.accepted := by
  have hquery : c.query = w.route.listing w.offset := h.query c (by rw [Walker.cursor?, hs])
  cases hn : RunId.next id with
  | ok next => exact (leads_accepted hs hn).atRuns h.offset hquery
  | error f =>
    rw [Walker.accepted, hs]
    simp only [hn]
    exact atRuns_finish (w := taking w id) h.offset _

/-- A page of the listing keeps `AtRuns`, whatever the `reply`. -/
theorem AtRuns.receive {c : Cursor} (h : AtRuns w) (hs : w.stage = .listing c) (reply : Except Failure ObjectPage) :
    AtRuns (w.receive reply) := by
  cases reply with
  | error f =>
    rw [receive_error_of_listing hs]
    exact atRuns_finish h.offset _
  | ok page => exact (leads_receive hs page).atRuns h.offset (h.query c (by rw [Walker.cursor?, hs]))

/-- **The object at the start of a listing changes nothing**: it has the name of a run directory and is ignored. -/
theorem AtRuns.receive_atStart {c : Cursor} (h : AtRuns w) (hs : w.stage = .listing c) (store : Snapshot)
    (page : ObjectPage) :
    w.receive (.ok ⟨store.atStart c.query ++ page.records, page.next⟩) = w.receive (.ok page) := by
  have hignored : ∀ r ∈ store.atStart c.query,
      classify w.route.root w.route.bands w.route.now r = .ignore := by
    intro r hr
    have hstart := Snapshot.start_eq_of_mem_atStart hr
    rw [h.query c (by rw [Walker.cursor?, hs])] at hstart
    obtain ⟨id, hkey, hid⟩ := h.offset r.key hstart
    exact classify_of_key_eq hid hkey
  rw [receive_of_listing hs, receive_of_listing hs, h.buffer c hs, List.nil_append, List.nil_append,
    goThrough_append_of_ignore hignored]
  exact (goThrough_buffer w _ _ _).symm

/-- **A walk comes to the same with the object at the start of each listing**, by induction on the number of steps. -/
theorem run?_withStart (h : AtRuns w) (store : Snapshot) (steps : Nat) (s : σ) :
    w.run? (store.withStart ask) steps s = w.run? ask steps s := by
  induction steps generalizing w s with
  | zero => rfl
  | succ steps ih =>
    rw [Walker.run?, Walker.run?]
    cases hs : w.stage with
    | ended f => rfl
    | offering id c => exact ih (h.accepted hs) s
    | listing c =>
      have hsame : w.receive (store.withStart ask c.query c.token s).1 = w.receive (ask c.query c.token s).1
          ∧ (store.withStart ask c.query c.token s).2 = (ask c.query c.token s).2 := by
        -- the object at the start of a listing is the only one in which the two listings can differ, and it names no
        -- run
        rcases store.withStart_eq_or ask c.query c.token s with heq | ⟨page, s', hask, hwith⟩
        · rw [heq]
          exact ⟨rfl, rfl⟩
        · rw [hask, hwith]
          exact ⟨h.receive_atStart hs store page, rfl⟩
      refine Eq.trans ?_ (ih (h.receive hs (ask c.query c.token s).1) (ask c.query c.token s).2)
      rw [← hsame.1, ← hsame.2]

/-- A walk over a store that lists from behind the start comes to its end with `passFrom store route seed`, what the
pass finds. -/
theorem ends_of_servesBehind (route : Route) (hseed : ∀ id ∈ seed, '/' ∉ id.toList)
    (hserve : ∀ start, store.ServesBehind ask (route.listing start)) (s : σ) :
    Ends ask (Walker.start route seed) s (passFrom store route seed) := by
  have hserve' : ∀ start, store.Serves (store.withStart ask) (route.listing start) := fun start =>
    Snapshot.serves_withStart (hserve start)
  obtain ⟨enough, henough⟩ := ends_start route seed hserve' s
  refine ⟨enough, fun steps hsteps => ?_⟩
  rw [← run?_withStart (atRuns_start route hseed) store steps s]
  exact henough steps hsteps

end Walk

/-! ## Resolutions -/

namespace Resolver

variable {σ : Type} {store : Snapshot} {r : Resolver}
  {ask : ListQuery → Option String → σ → Except Failure ObjectPage × σ}
  {read : String → σ → Except Failure (List UInt8) × σ}

/-- An object with the name of the run directory does not lie in it: the directory ends in a slash. -/
theorem isIn_of_mem_atStart {place : RunPlace} {next : String} {o : ObjectRecord}
    (h : o ∈ store.atStart (runListing place.root place.id next)) : isIn place.directory o = false := by
  have hstart := Snapshot.start_eq_of_mem_atStart h
  have hkey : place.root ++ "/" ++ place.id = o.key := by
    rw [runListing] at hstart
    split at hstart
    · exact Option.some.inj hstart
    · exact absurd hstart (by simp [ListQuery.allUnder])
  rw [← Bool.not_eq_true, isIn, List.isPrefixOf_iff_prefix, ← hkey]
  intro hprefix
  have hlength := hprefix.length_le
  -- the directory has a slash more than its name
  simp [RunPlace.directory, String.toList_append] at hlength

/-- Objects outside the directory do not count: `noted` leaves `files` as they are. -/
theorem noted_of_not_isIn {files : RunFiles} {objects : List ObjectRecord}
    (h : ∀ o ∈ objects, isIn r.place.directory o = false) : r.noted files objects = files := by
  induction objects generalizing files with
  | nil => rfl
  | cons o objects ih =>
    obtain ⟨ho, hrest⟩ := List.forall_mem_cons.1 h
    rw [noted, List.foldl_cons, note_of_not_isIn ho]
    exact ih hrest

/-- **The object at the start of the listing changes nothing** for a resolver. -/
theorem receivePage_atStart {next : String} {c : Cursor} {files : RunFiles} (hs : r.stage = .listing c files)
    (hquery : c.query = runListing r.place.root r.place.id next) (store : Snapshot) (page : ObjectPage) :
    r.receivePage (.ok ⟨store.atStart c.query ++ page.records, page.next⟩) = r.receivePage (.ok page) := by
  have hnoted : r.noted files (store.atStart c.query ++ page.records) = r.noted files page.records := by
    have hnone : r.noted files (store.atStart c.query) = files :=
      noted_of_not_isIn fun o ho => isIn_of_mem_atStart (hquery ▸ ho)
    rw [noted, List.foldl_append]
    exact congrArg (r.noted · page.records) hnone
  rw [receivePage_of_listing hs, receivePage_of_listing hs, hnoted]

/-- **A resolver that lists the objects of its run**: when it is at `.listing`, its query is `runListing` of its
place. -/
def ListsRun (r : Resolver) : Prop :=
  ∀ c files, r.stage = .listing c files → ∃ next, c.query = runListing r.place.root r.place.id next

/-- At the start a resolver lists its run, or has ended because its id has no next one. -/
theorem listsRun_start (place : RunPlace) : (Resolver.start place).ListsRun := by
  intro c files hs
  rw [Resolver.start] at hs ⊢
  cases hn : RunId.next place.id with
  | error f => simp [hn] at hs
  | ok next =>
    simp only [hn] at hs
    obtain ⟨rfl, -⟩ := ResolverStage.listing.inj hs
    exact ⟨next, rfl⟩

/-- A page of the listing keeps `ListsRun`. -/
theorem ListsRun.receivePage {c : Cursor} {files : RunFiles} (h : r.ListsRun) (hs : r.stage = .listing c files)
    (reply : Except Failure ObjectPage) : (r.receivePage reply).ListsRun := by
  intro c' files' hs'
  cases reply with
  | error f =>
    rw [Resolver.receivePage, hs] at hs'
    exact absurd hs' (by simp)
  | ok page =>
    obtain ⟨rfl, -⟩ := cursor_receivePage hs hs'
    rw [place_receivePage hs]
    exact h c files hs

/-- The content of the descriptor ends a resolution, so there is nothing to keep. -/
theorem ListsRun.receiveObject {key : String} {results : List String} (hs : r.stage = .reading key results)
    (reply : Except Failure (List UInt8)) : (r.receiveObject reply).ListsRun := by
  intro c files hs'
  rw [receiveObject_of_reading hs] at hs'
  exact absurd hs' (by simp)

/-- **A resolution comes to the same with the object at the start of its listing**, by induction on the number of
steps. -/
theorem run?_withStart (h : r.ListsRun) (store : Snapshot) (steps : Nat) (s : σ) :
    r.run? (store.withStart ask) read steps s = r.run? ask read steps s := by
  induction steps generalizing r s with
  | zero => rfl
  | succ steps ih =>
    rw [Resolver.run?, Resolver.run?]
    cases hs : r.stage with
    | ended result => rfl
    | reading key results => exact ih (ListsRun.receiveObject hs _) _
    | listing c files =>
      have hsame : r.receivePage (store.withStart ask c.query c.token s).1 = r.receivePage (ask c.query c.token s).1
          ∧ (store.withStart ask c.query c.token s).2 = (ask c.query c.token s).2 := by
        -- the object at the start of a listing lies outside of the directory that is resolved
        rcases store.withStart_eq_or ask c.query c.token s with heq | ⟨page, s', hask, hwith⟩
        · rw [heq]
          exact ⟨rfl, rfl⟩
        · obtain ⟨next, hquery⟩ := h c files hs
          rw [hask, hwith]
          exact ⟨receivePage_atStart hs hquery store page, rfl⟩
      refine Eq.trans ?_ (ih (h.receivePage hs (ask c.query c.token s).1) (ask c.query c.token s).2)
      rw [← hsame.1, ← hsame.2]

end Resolver

/-! ## A service is as good -/

/-- **What a service comes to is the same as from the start**: walks and resolutions come to what they come to over any
store that serves the listings from their start, and going through a listing yields what it holds. -/
structure SameFromStart (bucket : Visit → RemoteBucket) (store : Snapshot) : Prop where
  /-- A walk from a seed that is a single name, or from the beginning, takes the same ids in the same order and ends in
  the same way. -/
  walk : ∀ (route : Walk.Route) (seed : Option String), (∀ id ∈ seed, '/' ∉ id.toList) →
    ∀ {σ : Type} (ask : ListQuery → Option String → σ → Except Failure ObjectPage × σ),
    (∀ start, store.Serves ask (route.listing start)) → ∀ v s, ∃ enough, ∀ steps, enough ≤ steps → ∃ w v' w' s',
      (Walk.Walker.start route seed).run? (askRemote bucket) steps v = some (w, v')
      ∧ (Walk.Walker.start route seed).run? ask steps s = some (w', s')
      ∧ w.emitted = w'.emitted ∧ w.stage = w'.stage ∧ w.hasEnded = true
  /-- Every id is resolved to the same. -/
  resolve : ∀ (place : RunPlace) {σ : Type} (ask : ListQuery → Option String → σ → Except Failure ObjectPage × σ)
    (read : String → σ → Except Failure (List UInt8) × σ),
    (∀ next, store.Serves ask (runListing place.root place.id next)) →
    (∀ key s, (read key s).1 = store.content key) → ∀ v s, ∃ enough, ∀ steps, enough ≤ steps → ∃ answer v' s',
      (Resolver.start place).run? (askRemote bucket) (readRemote bucket) steps v = some (answer, v')
      ∧ (Resolver.start place).run? ask read steps s = some (answer, s')
  /-- Going through a listing yields the objects behind its start and before its end, each once and in order, and
  nothing else. Of the pages with which the service replies, those are fetched that do not reach the end, and the one
  that does. -/
  yields : ∀ q v, ∃ pages v', Paging pages (store.listingBehind q.endless) ∧ Replies bucket q none v pages
    ∧ Cursor.Yields (askRemote bucket) (.start q) v (store.listingBehind q) v'
    ∧ v'.calls = v.calls
      + min pages.length ((pages.takeWhile fun p => p.records.all fun r => !reaches q.stop r.key).length + 1)
    ∧ ∀ records v'', Cursor.Yields (askRemote bucket) (.start q) v records v'' →
      records = store.listingBehind q ∧ v'' = v'

/-- **Listing from behind a key is harmless**: whatever a service holds, in whatever pages it lists it, a search over
the service comes to the same as over a store that lists from the start. Objects may have the names of run
directories. -/
theorem Lists.sameFromStart {bucket : Visit → RemoteBucket} {store : Snapshot} (h : Lists bucket store) :
    SameFromStart bucket store where
  walk route seed hseed σ ask hserve v s := by
    -- both walks end as the same pass does; with the steps that either one takes, they can be compared
    obtain ⟨enough, henough⟩ := Walk.ends_of_servesBehind route hseed (fun start => h.servesBehind _) v
    obtain ⟨enough', henough'⟩ := Walk.ends_start route seed hserve s
    refine ⟨max enough enough', fun steps hsteps => ?_⟩
    obtain ⟨w, v', hrun, hids, hended⟩ := henough steps (le_of_max_le_left hsteps)
    obtain ⟨w', s', hrun', hids', hended'⟩ := henough' steps (le_of_max_le_right hsteps)
    refine ⟨w, v', w', s', hrun, hrun', List.reverse_injective (hids.trans hids'.symm), hended.trans hended'.symm, ?_⟩
    rw [Walk.Walker.hasEnded, hended]
  resolve place σ ask read hserve hread v s := by
    have hcontent : ∀ key v, (readRemote bucket key v).1 = store.content key := fun key v => h.content v key
    obtain ⟨enough, henough⟩ := Resolver.run?_start_eq_resolve place
      (fun next => Snapshot.serves_withStart (h.servesBehind (runListing place.root place.id next))) hcontent v
    obtain ⟨enough', henough'⟩ := Resolver.run?_start_eq_resolve place hserve hread s
    refine ⟨max enough enough', fun steps hsteps => ?_⟩
    obtain ⟨v', hrun⟩ := henough steps (le_of_max_le_left hsteps)
    obtain ⟨s', hrun'⟩ := henough' steps (le_of_max_le_right hsteps)
    rw [Resolver.run?_withStart (Resolver.listsRun_start place)] at hrun
    exact ⟨_, v', s', hrun, hrun'⟩
  yields q v := by
    obtain ⟨pages, hpaging, hreplies⟩ := h.pages q v
    obtain ⟨v', hyields, hcalls⟩ := Lists.yields hpaging hreplies
    -- two complete readings of one listing are the same, page for page and call for call
    refine ⟨pages, v', hpaging, hreplies, hyields, hcalls, fun records v'' hother => ?_⟩
    obtain ⟨rfl, rfl⟩ := hyields.unique hother
    exact ⟨rfl, rfl⟩

/-- A service with an object `logs/job/123` that has the name of a run directory, in pages of one object. -/
def namedLikeRun : Rehearsal.BucketService where
  name := "bucket"
  objects := [⟨"logs/job/123", some ⟨0, 0⟩, []⟩, ⟨"logs/job/123/prowjob.json", some ⟨0, 0⟩, []⟩,
    ⟨"logs/job/124/prowjob.json", some ⟨0, 0⟩, []⟩]
  pageSize := 1
  nameless := false
  refusesCheck := false
  refusesLists := false
  refusesContents := false
  breaksContents := false

/-- Its objects stand in key order, as they are written down. -/
theorem ordered_namedLikeRun : namedLikeRun.ordered = namedLikeRun.objects :=
  inKeyOrder_of_pairwise (by decide)

/-- The service does not list the object at the start of the listing of run `123`, and a walk from the run takes the ids
of both runs all the same. -/
theorem Lists.sameFromStart_namedLikeRun :
    Lists (fun _ => namedLikeRun.bucket "bucket") (namedLikeRun.snapshot "bucket")
      ∧ SameFromStart (fun _ => namedLikeRun.bucket "bucket") (namedLikeRun.snapshot "bucket")
      ∧ ((namedLikeRun.snapshot "bucket").atStart (runListing "logs/job" "123" "124")).map (·.key) = ["logs/job/123"]
      ∧ ∃ enough, ∀ steps, enough ≤ steps → ∃ w v',
        (Walk.Walker.start ⟨"logs/job", ⟨0, 0⟩, ⟨0, 0⟩⟩ (some "123")).run?
          (askRemote fun _ => namedLikeRun.bucket "bucket") steps .start = some (w, v')
        ∧ w.emitted.reverse = ["123", "124"] ∧ w.stage = .ended none := by
  have hlists : Lists (fun _ => namedLikeRun.bucket "bucket") (namedLikeRun.snapshot "bucket") :=
    Rehearsal.BucketService.lists ⟨rfl, rfl, by rw [ordered_namedLikeRun]; decide⟩ "bucket"
  have hsame := hlists.sameFromStart
  have hrecords : (namedLikeRun.snapshot "bucket").records = namedLikeRun.objects.map (·.record) :=
    congrArg (List.map Rehearsal.StoredObject.record) ordered_namedLikeRun
  have hpass : Walk.passFrom (namedLikeRun.snapshot "bucket") ⟨"logs/job", ⟨0, 0⟩, ⟨0, 0⟩⟩ (some "123")
      = (["123", "124"], none) := by
    rw [Walk.passFrom, Snapshot.listing, hrecords]
    decide +kernel
  refine ⟨hlists, hsame, ?_, ?_⟩
  · rw [Snapshot.atStart, Snapshot.listing, hrecords]
    decide +kernel
  · -- over a store that lists from the start the walk finds what the pass finds
    obtain ⟨enough, henough⟩ := hsame.walk ⟨"logs/job", ⟨0, 0⟩, ⟨0, 0⟩⟩ (some "123") (by simp)
      (namedLikeRun.snapshot "bucket").onePage (fun _ => Snapshot.serves_onePage _ _) .start ()
    obtain ⟨enough', henough'⟩ := Walk.ends_start ⟨"logs/job", ⟨0, 0⟩, ⟨0, 0⟩⟩ (some "123")
      (fun _ => (namedLikeRun.snapshot "bucket").serves_onePage _) ()
    refine ⟨max enough enough', fun steps hsteps => ?_⟩
    obtain ⟨w, v', w', s', hrun, hrun', hemitted, hstage, -⟩ := henough steps (le_of_max_le_left hsteps)
    obtain ⟨w'', s'', hrun'', hids, hended⟩ := henough' steps (le_of_max_le_right hsteps)
    obtain ⟨rfl, rfl⟩ := Prod.mk.inj (Option.some.inj (hrun'.symm.trans hrun''))
    rw [hpass] at hids hended
    exact ⟨w, v', hrun, by rw [hemitted, hids]; rfl, hstage.trans hended⟩

end PayloadGate
