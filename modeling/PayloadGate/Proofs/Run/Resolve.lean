import PayloadGate.Run.Resolver
import PayloadGate.Proofs.Store.Snapshot

/-! # What a run resolves to

A resolver goes through the pages of a listing and has one object read. In a store that does not
change, what comes of it is said here without any pages: **`Snapshot.resolve`**.

* **`Snapshot.runFiles`** — the objects of a run that count.
* **`Resolving`** — a resolver that will end with what its run resolves to; **`resolving_start`**,
  **`resolving_receivePage`** and **`resolving_receiveObject`** keep it.
* **`Resolver.run?_start_eq_resolve`** — a whole resolution, whatever pages the store cuts. -/

namespace PayloadGate

/-! ## Without pages -/

namespace Snapshot

/-- The objects of a run that count, when the id after the run, `next`, is known: what is noted of its whole listing. -/
def runFiles (store : Snapshot) (place : RunPlace) (next : String) : RunFiles :=
  (store.listing (runListing place.root place.id next)).foldl
    (fun files r => files.note place.directory r.key) .none

/-- **What a run resolves to**: nothing without a descriptor, and a failure when the descriptor cannot be read. No page
and no step is in it. -/
def resolve (store : Snapshot) (place : RunPlace) : Except Failure (Option JobRun) :=
  match RunId.next place.id with
  | .error f => .error f
  | .ok next =>
    match (store.runFiles place next).descriptor with
    | none => .ok none
    | some key =>
      (store.content key >>= Descriptor.ofBytes).map fun d =>
        some (place.toRun key (store.runFiles place next).results.reverse d)

end Snapshot

/-! ## The steps of a resolver -/

variable {store : Snapshot} {r : Resolver} {left rest : List ObjectRecord} {c : Cursor}
  {files : RunFiles} {key : String} {results : List String}

/-- How many steps of different kinds a resolver has ahead: first pages, further pages, the descriptor. -/
def Resolver.code (r : Resolver) : Nat :=
  match r.stage with
  | .listing c _ => if c.token = none then 3 else 2
  | .reading _ _ => 1
  | .ended _ => 0

/-- Where a resolver stands behind the last page: it reads the descriptor, or has ended when there is none. -/
def RunFiles.stageBehind (files : RunFiles) : ResolverStage :=
  match files.descriptor with
  | Option.none => .ended (.ok Option.none)
  | some key => .reading key files.results.reverse

/-- The objects that count, with the `records` of a page. -/
def Resolver.noted (r : Resolver) (files : RunFiles) (records : List ObjectRecord) : RunFiles :=
  records.foldl (fun files o => files.note r.place.directory o.key) files

/-- **A page leads to the next page or, behind the last one, on** to `stageBehind`. -/
theorem receivePage_of_listing (hs : r.stage = .listing c files) (page : ObjectPage) :
    r.receivePage (.ok page) = ⟨r.place,
      if page.next = none then (r.noted files page.records).stageBehind
      else .listing ⟨c.query, [], page.next, false⟩ (r.noted files page.records)⟩ := by
  rw [Resolver.receivePage, hs]
  cases hn : page.next with
  | none =>
    simp only [Cursor.exhausted_receive_ok, hn, Option.isNone_none, if_true]
    rw [RunFiles.stageBehind, Resolver.noted]
    generalize page.records.foldl (fun files o => files.note r.place.directory o.key) files = noted
    cases noted.descriptor <;> rfl
  | some token =>
    simp only [Cursor.receive, hn, Option.isNone_some, Bool.false_eq_true, if_false]
    rfl

/-- The run stays the same, whatever the `reply`. -/
theorem place_receivePage (hs : r.stage = .listing c files) (reply : Except Failure ObjectPage) :
    (r.receivePage reply).place = r.place := by
  cases reply with
  | error f => rw [Resolver.receivePage, hs]
  | ok page => rw [receivePage_of_listing hs page]

/-- **A resolver that waits for a further page** waits for the one behind the token, so the listing is the same and the
token is not missing. -/
theorem cursor_receivePage {c' : Cursor} {files' : RunFiles} {page : ObjectPage}
    (hs : r.stage = .listing c files)
    (hs' : (r.receivePage (.ok page)).stage = .listing c' files') :
    c' = ⟨c.query, [], page.next, false⟩ ∧ page.next ≠ none := by
  rw [receivePage_of_listing hs page] at hs'
  by_cases hn : page.next = none
  · rw [if_pos hn, RunFiles.stageBehind] at hs'
    cases hd : (r.noted files page.records).descriptor with
    | none =>
      rw [hd] at hs'
      exact absurd hs' (by simp)
    | some key =>
      rw [hd] at hs'
      exact absurd hs' (by simp)
  · rw [if_neg hn] at hs'
    exact ⟨(ResolverStage.listing.inj hs').1.symm, hn⟩

/-- A resolver has three steps of different kinds at most, `r.code ≤ 3`. -/
theorem code_le (r : Resolver) : r.code ≤ 3 := by
  rw [Resolver.code]
  split
  · split_ifs <;> omega
  · omega
  · omega

/-- Behind the first page a resolver has two steps of different kinds at most. -/
theorem code_receivePage_le (hs : r.stage = .listing c files) (page : ObjectPage) :
    (r.receivePage (.ok page)).code ≤ 2 := by
  rw [Resolver.code]
  cases hs' : (r.receivePage (.ok page)).stage with
  | listing c' files' =>
    obtain ⟨rfl, hn⟩ := cursor_receivePage hs hs'
    simp [hn]
  | reading key results => simp
  | ended result => simp

/-- The run of a resolver is the one it was started with. -/
theorem place_start (place : RunPlace) : (Resolver.start place).place = place := by
  rw [Resolver.start]
  split <;> rfl

/-- A resolver begins with a new listing, `c.token = none`. -/
theorem token_of_start {place : RunPlace} (hs : (Resolver.start place).stage = .listing c files) :
    c.token = none := by
  rw [Resolver.start] at hs
  split at hs
  · exact absurd hs (by simp)
  · rw [← (ResolverStage.listing.inj hs).1]
    rfl

/-- The content of the descriptor ends a resolver, by the `reply` and by what it parses to. -/
theorem receiveObject_of_reading (hs : r.stage = .reading key results)
    (reply : Except Failure (List UInt8)) :
    r.receiveObject reply = ⟨r.place, .ended ((reply >>= Descriptor.ofBytes).map fun d =>
      some (r.place.toRun key results d))⟩ := by
  rw [Resolver.receiveObject, hs]
  cases reply >>= Descriptor.ofBytes <;> rfl

/-- **A resolver that will end with what its run resolves to**, when `left` is what its listing
holds behind the pages that have been fetched. -/
inductive Resolving (store : Snapshot) (r : Resolver) (left : List ObjectRecord) : Prop where
  /-- It waits for a page. -/
  | listing {c : Cursor} {files : RunFiles} {next : String} (stage : r.stage = .listing c files)
      (query : c.query = runListing r.place.root r.place.id next)
      (next_eq : RunId.next r.place.id = .ok next)
      (noted : r.noted files (store.ahead c left) = store.runFiles r.place next)
  /-- It waits for the descriptor. -/
  | reading {key next : String}
      (stage : r.stage = .reading key (store.runFiles r.place next).results.reverse)
      (next_eq : RunId.next r.place.id = .ok next)
      (descriptor : (store.runFiles r.place next).descriptor = some key)
  /-- It has ended. -/
  | ended (stage : r.stage = .ended (store.resolve r.place))

/-- A resolver that has ended has what its run resolves to: `result = store.resolve r.place`. -/
theorem Resolving.result_eq {result : Except Failure (Option JobRun)} (h : Resolving store r left)
    (hs : r.stage = .ended result) : result = store.resolve r.place := by
  cases h with
  | listing stage => exact absurd (stage.symm.trans hs) (by simp)
  | reading stage => exact absurd (stage.symm.trans hs) (by simp)
  | ended stage => exact ResolverStage.ended.inj (hs.symm.trans stage)

/-- **A resolver before its first page** is `Resolving`: it will end with what its run resolves to. -/
theorem resolving_start (store : Snapshot) (place : RunPlace) (left : List ObjectRecord) :
    Resolving store (.start place) left := by
  rw [Resolver.start]
  cases hn : RunId.next place.id with
  | error f =>
    refine .ended ?_
    show ResolverStage.ended (.error f) = .ended (store.resolve place)
    rw [Snapshot.resolve, hn]
  | ok next =>
    -- the whole listing is ahead, and nothing has been noted
    exact .listing rfl rfl hn (by rw [Snapshot.ahead_of_eq_none rfl]; rfl)

/-- **A page keeps what the resolver will end with**, when it is the first page of what is ahead: `Resolving` goes on
with the `rest`. -/
theorem resolving_receivePage {page : ObjectPage} (h : Resolving store r left)
    (hs : r.stage = .listing c files) (hpage : store.ahead c left = page.records ++ rest)
    (hlast : page.next = none → rest = []) :
    Resolving store (r.receivePage (.ok page)) rest := by
  cases h with
  | @listing c' files' next stage query next_eq noted =>
    obtain ⟨rfl, rfl⟩ := ResolverStage.listing.inj (stage.symm.trans hs)
    rw [hpage, Resolver.noted, List.foldl_append] at noted
    have hbehind := receivePage_of_listing hs page
    by_cases hn : page.next = none
    · -- behind the last page all objects of the run have been noted
      rw [hlast hn, List.foldl_nil] at noted
      rw [if_pos hn, RunFiles.stageBehind, Resolver.noted, noted] at hbehind
      rw [hbehind]
      cases hd : (store.runFiles r.place next).descriptor with
      | none =>
        refine .ended ?_
        show ResolverStage.ended (.ok none) = .ended (store.resolve r.place)
        rw [Snapshot.resolve, next_eq]
        simp only [hd]
      | some key => exact .reading rfl next_eq hd
    · -- more pages follow: the records that are left are those ahead of the new query
      rw [if_neg hn] at hbehind
      rw [hbehind]
      refine .listing rfl query next_eq ?_
      rw [Snapshot.ahead_of_ne_none hn]
      exact noted
  | reading stage => exact absurd (stage.symm.trans hs) (by simp)
  | ended stage => exact absurd (stage.symm.trans hs) (by simp)

/-- **The content of the descriptor ends the resolver** with `store.resolve r.place`. -/
theorem resolving_receiveObject (h : Resolving store r left) (hs : r.stage = .reading key results) :
    (r.receiveObject (store.content key)).stage = .ended (store.resolve r.place) := by
  cases h with
  | listing stage => exact absurd (stage.symm.trans hs) (by simp)
  | @reading key' next stage next_eq descriptor =>
    obtain ⟨rfl, rfl⟩ := ResolverStage.reading.inj (stage.symm.trans hs)
    rw [receiveObject_of_reading hs, Snapshot.resolve, next_eq]
    simp only [descriptor]
  | ended stage => exact absurd (stage.symm.trans hs) (by simp)

/-! ## Whole resolutions -/

section Whole

variable {σ : Type} {ask : ListQuery → Option String → σ → Except Failure ObjectPage × σ}
  {read : String → σ → Except Failure (List UInt8) × σ} {result : Except Failure (Option JobRun)}
  {s s' : σ}

/-- What a resolver comes to in the end: with enough steps, it is always the `result`. -/
def Resolves (ask : ListQuery → Option String → σ → Except Failure ObjectPage × σ)
    (read : String → σ → Except Failure (List UInt8) × σ) (r : Resolver) (s : σ)
    (result : Except Failure (Option JobRun)) : Prop :=
  ∃ enough, ∀ steps, enough ≤ steps → ∃ s', r.run? ask read steps s = some (result, s')

/-- A resolver that has ended with `result` comes to it, from any state of the store. -/
theorem resolves_of_ended (hs : r.stage = .ended result) (s : σ) :
    Resolves ask read r s result := by
  refine ⟨1, fun steps hsteps => ?_⟩
  obtain ⟨steps, rfl⟩ := Nat.exists_eq_add_of_le' hsteps
  exact ⟨s, by rw [Resolver.run?, hs]⟩

/-- A resolver that gets a page comes to what the resolver behind the page comes to. -/
theorem resolves_of_listing {page : ObjectPage} (hs : r.stage = .listing c files)
    (hask : ask c.query c.token s = (.ok page, s'))
    (h : Resolves ask read (r.receivePage (.ok page)) s' result) :
    Resolves ask read r s result := by
  refine exists_enough_succ h ?_
  rintro steps ⟨t, hrun⟩
  refine ⟨t, ?_⟩
  rw [Resolver.run?, hs]
  simp only [hask]
  exact hrun

/-- A resolver that gets the descriptor comes to what the resolver behind it comes to. -/
theorem resolves_of_reading {reply : Except Failure (List UInt8)}
    (hs : r.stage = .reading key results) (hread : read key s = (reply, s'))
    (h : Resolves ask read (r.receiveObject reply) s' result) :
    Resolves ask read r s result := by
  refine exists_enough_succ h ?_
  rintro steps ⟨t, hrun⟩
  refine ⟨t, ?_⟩
  rw [Resolver.run?, hs]
  simp only [hread]
  exact hrun

/-- **A resolver that waits for given `pages` comes to its end** with what its run resolves to. The induction is on the
pages. -/
theorem resolves_of_delivers {pages : List ObjectPage}
    (hread : ∀ key s, (read key s).1 = store.content key) (h : Resolving store r left)
    (hs : r.stage = .listing c files) (hpaging : Paging pages (store.ahead c left))
    (hdelivers : Delivers ask c.query c.token s pages) :
    Resolves ask read r s (store.resolve r.place) := by
  induction pages generalizing r left s c files with
  | nil => exact absurd hpaging Paging.not_nil
  | cons page pages ih =>
    obtain ⟨s', hask, hdelivers⟩ := hdelivers
    obtain ⟨rest, hahead, hlast, hmore⟩ := hpaging.exists_rest
    have hbehind := resolving_receivePage h hs hahead hlast
    rw [← place_receivePage hs (.ok page)]
    refine resolves_of_listing hs hask ?_
    cases hbehind with
    | ended stage => exact resolves_of_ended stage s'
    | @reading key next stage next_eq descriptor =>
      have hresolving : Resolving store (r.receivePage (.ok page)) rest :=
        .reading stage next_eq descriptor
      refine resolves_of_reading stage (Prod.ext (hread key s') rfl) (resolves_of_ended ?_ _)
      exact resolving_receiveObject hresolving stage
    | @listing c' files' next stage query next_eq noted =>
      -- the resolver waits for the next page of the same listing
      obtain ⟨rfl, hn⟩ := cursor_receivePage hs stage
      refine ih (.listing stage query next_eq noted) stage ?_ hdelivers
      rw [Snapshot.ahead_of_ne_none hn]
      exact hmore hn

/-- **A whole resolution answers `store.resolve place`**, whatever pages the store cuts. -/
theorem Resolver.run?_start_eq_resolve (place : RunPlace)
    (hserve : ∀ next, store.Serves ask (runListing place.root place.id next))
    (hread : ∀ key s, (read key s).1 = store.content key) (s : σ) :
    ∃ enough, ∀ steps, enough ≤ steps →
      ∃ s', (Resolver.start place).run? ask read steps s = some (store.resolve place, s') := by
  have h := resolving_start store place []
  rw [Resolver.start] at h ⊢
  cases hn : RunId.next place.id with
  | error f =>
    refine resolves_of_ended ?_ s
    show ResolverStage.ended (.error f) = .ended (store.resolve place)
    rw [Snapshot.resolve, hn]
  | ok next =>
    obtain ⟨pages, hpaging, hdelivers⟩ := hserve next s
    rw [hn] at h
    exact resolves_of_delivers hread h rfl hpaging hdelivers

end Whole

end PayloadGate
