import PayloadGate.Search
import PayloadGate.Proofs.Run.Resolve

/-! # Searches in stores that do not change

The events of a search may come in any order in which they are possible. This file says which events
and answers there can be when the store does not change and nobody gives the signal, and what a
search answers when it goes through the runs one after the other.

* **`Inevitably`** — a system that comes to something, whatever it does.
* **`Session`**, **`Session.Step`** — a search with the pages that its listings still have to get,
  and what it can do.
* **`settle`**, **`reference`** — what a search makes of a run, and what it answers in the end when
  it resolves given ids in their order. -/

namespace PayloadGate

/-! ## What has to come -/

section Inevitable

variable {α β ι : Type} {step : α → α → Prop} {goal : α → Prop}

/-- **A system comes to `goal`, whatever it does**: it is there, or it can take a step and each step leads to where it
comes to it. Being inductive, this leaves no room for paths that go on for ever. -/
inductive Inevitably (step : α → α → Prop) (goal : α → Prop) : α → Prop where
  /-- It is there. -/
  | now {a : α} (h : goal a) : Inevitably step goal a
  /-- It comes there behind the next step, which can be taken. -/
  | later {a : α} (next : ∃ b, step a b) (h : ∀ b, step a b → Inevitably step goal b) :
      Inevitably step goal a

/-- **A rank that falls with each step** brings a system to where it has to come, when something `held` lets it go on
and is kept by each step. By well-founded induction on the rank. -/
theorem inevitably_of_rank {below : β → β → Prop} (hwf : WellFounded below) {held : α → ι → Prop}
    (rank : α → ι → β) (hnext : ∀ a n, held a n → ∃ b, step a b)
    (hfall : ∀ a n b, held a n → step a b → goal b ∨ ∃ m, held b m ∧ below (rank b m) (rank a n))
    {a : α} {n : ι} (h : held a n) : Inevitably step goal a := by
  induction hk : rank a n using hwf.induction generalizing a n with
  | _ k ih =>
    refine .later (hnext a n h) fun b hb => ?_
    -- either the goal is reached, or the rank has fallen and the hypothesis of the induction applies
    rcases hfall a n b h hb with hgoal | ⟨m, hm, hlt⟩
    · exact .now hgoal
    · rw [hk] at hlt
      exact ih _ hlt hm rfl

end Inevitable

/-! ## Sessions -/

/-- **A search with the pages that are still to come** for the listings of the walker and of the reader. What the store
answers is fixed by them once a listing has begun. -/
structure Session where
  /-- The search. -/
  search : Search
  /-- The pages behind those that the walker has got. -/
  walkerPages : List ObjectPage
  /-- The pages behind those that the reader has got. -/
  readerPages : List ObjectPage

/-- **The pages that a cursor can get** from a store: those that are still `pending`, and for a new listing any pages
that make it up. -/
def Snapshot.Offers (store : Snapshot) (c : Cursor) (pending pages : List ObjectPage) : Prop :=
  (c.token = none → Paging pages (store.listing c.query)) ∧ (c.token ≠ none → pages = pending)

namespace Session

/-- The events that need no answer of the outside: those of the walker and the reader, the signal apart. -/
def isOwn : Search.Event → Bool
  | .walkerSend | .walkerQuit | .readerTake | .readerQuit => true
  | _ => false

/-- **What can happen to a session**: the catalog has answered with the seed and the clock showed
`now`, the store has answered, or the walker or the reader goes on. -/
inductive Step (store : Snapshot) (seed : Option String) (now : Time.Instant) (x : Session) :
    Session → Prop where
  /-- The catalog has answered. -/
  | seed {s : Search} (h : x.search.step (.seed (.ok seed) now) = some s) :
      Step store seed now x { x with search := s }
  /-- The walker gets a page. -/
  | walkerPage {scan : Scan} {c : Cursor} {page : ObjectPage} {pages : List ObjectPage} {s : Search}
      (hs : x.search.stage = .scanning scan) (hw : scan.walker.stage = .listing c)
      (hpages : store.Offers c x.walkerPages (page :: pages))
      (h : x.search.step (.walkerPage (.ok page)) = some s) :
      Step store seed now x { x with search := s, walkerPages := pages }
  /-- The reader gets a page. -/
  | readerPage {scan : Scan} {r : Resolver} {c : Cursor} {files : RunFiles} {page : ObjectPage}
      {pages : List ObjectPage} {s : Search} (hs : x.search.stage = .scanning scan)
      (hr : scan.resolving = some r) (hc : r.stage = .listing c files)
      (hpages : store.Offers c x.readerPages (page :: pages))
      (h : x.search.step (.readerPage (.ok page)) = some s) :
      Step store seed now x { x with search := s, readerPages := pages }
  /-- The reader gets the descriptor. -/
  | readerObject {scan : Scan} {r : Resolver} {key : String} {results : List String} {s : Search}
      (hs : x.search.stage = .scanning scan) (hr : scan.resolving = some r)
      (hk : r.stage = .reading key results)
      (h : x.search.step (.readerObject (store.content key)) = some s) :
      Step store seed now x { x with search := s }
  /-- The walker or the reader goes on by itself. -/
  | own {e : Search.Event} {s : Search} (he : isOwn e = true) (h : x.search.step e = some s) :
      Step store seed now x { x with search := s }

/-- A session before its first event, without pages. -/
def start (plan : SearchPlan) : Session := ⟨.start plan, [], []⟩

end Session

/-! ## One run after the other -/

/-- **What a search makes of a run**, when it answers `rest` with the runs behind it: a failure ends the search, and so
does a run behind the window, with `.ok []` in place of `rest`; of the others those with the mark are kept. -/
def settle (plan : SearchPlan) (result : Except Failure (Option JobRun)) (rest : Outcome) :
    Outcome :=
  match result with
  | .error f => .error f
  | .ok none => rest
  | .ok (some run) =>
    if plan.windowEnd < run.descriptor.created then .ok []
    else if plan.matcher.accepts run.descriptor then rest.map (run :: ·)
    else rest

/-- **What a search answers that resolves given ids in their order**: `settle` from the last id back to the first. There
is no queue and no concurrency in it. -/
def reference (store : Snapshot) (plan : SearchPlan) : List String → Outcome
  | [] => .ok []
  | id :: ids => settle plan (store.resolve (plan.place id)) (reference store plan ids)

end PayloadGate
