import PayloadGate.Search
import PayloadGate.Rehearsal.Timeline
import PayloadGate.Store.ObjectStore

/-! # A search in virtual time

* **`World`** — what a search meets: a store, a catalog and a clock.
* **`Move`** — what the walker or the reader of a search does at its turn; **`readerMove`**, **`walkerMove`**.
* **`search?`** — the outcome of one search. -/

namespace PayloadGate.Rehearsal

open Time (Instant)

/-- **What a search meets.** -/
structure World where
  /-- The store. -/
  store : ObjectStore
  /-- The catalog's answer for the last run of a job before an instant. -/
  latestBefore (job : String) (before : Instant) : Except Failure (Option String)
  /-- What the clock on the wall shows. -/
  now : Instant

/-- **What an agent does at its turn.** -/
inductive Move where
  /-- Something happens to the search; the calls are noted. -/
  | act (e : Search.Event) (visit : Visit)
  /-- A call to the store is begun, which takes its time. -/
  | call
  /-- The agent has to wait for the other one. -/
  | wait

/-- The move of an agent that needs something of the store: to begin the call, unless it has done so before or the
answer takes no time. -/
def callMove (world : World) (calling : Bool) (answer : Move) : Move :=
  if world.store.latency = 0 || calling then answer else .call

/-- The move of an agent that needs a page. -/
def pageMove (world : World) (calling : Bool) (v : Visit) (c : Cursor)
    (event : Except Failure ObjectPage → Search.Event) : Move :=
  let (reply, v) := world.store.answerPage c.query c.token v
  callMove world calling (.act (event reply) v)

/-- **The move of the reader**, by its `stage`. `calling` tells whether its call to the store is due. -/
def readerMove (world : World) (calling : Bool) (v : Visit) (s : Search) : Move :=
  match s.stage with
  | .seeding => .act (.seed (world.latestBefore s.plan.job s.plan.windowStart) world.now) v
  | .ended _ => .wait
  | .scanning scan =>
    match scan.resolving with
    | some r =>
      match r.stage with
      | .listing cursor _ => pageMove world calling v cursor .readerPage
      | .reading key _ => callMove world calling (.act (.readerObject (world.store.content v.clock key)) v)
      | .ended _ => .wait
    | none =>
      -- the signal is noticed between two runs
      if s.cancelled then .act .readerQuit v
      else if scan.queue.isEmpty && !scan.walker.hasEnded then .wait
      else .act .readerTake v

/-- **The move of the walker**: nothing once it has ended, `.walkerQuit` behind the signal, a page while it lists, and
else its next send when the queue has room. -/
def walkerMove (world : World) (calling : Bool) (v : Visit) (s : Search) : Move :=
  match s.stage with
  | .scanning scan =>
    match scan.walker.stage with
    | .ended _ => .wait
    | stage =>
      if s.cancelled then .act .walkerQuit v
      else match stage with
        | .listing cursor => pageMove world calling v cursor .walkerPage
        | _ => if scan.queue.length < queueLimit then .act .walkerSend v else .wait
  | _ => .wait

/-- Whether an event gives the reader something to do. -/
def concernsReader (e : Search.Event) (after : Search) : Bool :=
  match e, after.stage with
  | .walkerSend, _ => true
  | _, .scanning scan => scan.walker.hasEnded
  | _, _ => false

/-- Whether an event gives the walker something to do. -/
def concernsWalker : Search.Event → Bool
  | .seed _ _ | .readerTake => true
  | _ => false

/-! ## One search -/

/-- The agents of one search. -/
inductive SearchAgent where
  /-- Takes ids and resolves them. -/
  | reader
  /-- Finds ids. -/
  | walker
  /-- Gives the cancellation signal. -/
  | signal
  deriving DecidableEq

/-- One search under way. -/
structure SearchState where
  /-- The search. -/
  search : Search
  /-- The calls to the store. -/
  visit : Visit
  /-- The agents whose calls have been begun. -/
  calling : List SearchAgent

/-- The search after a move of an agent. -/
def searchMove (world : World) (i : SearchAgent) (t : Timeline SearchAgent) (s : SearchState) :
    Move → Timeline SearchAgent × SearchState
  | .wait => (t, s)
  | .call => (t.sleep i world.store.latency, { s with calling := i :: s.calling })
  | .act e v =>
    match s.search.step e with
    | none => (t, s)
    | some search =>
      let t := t.again i
      let t := if concernsReader e search then t.wake .reader else t
      let t := if concernsWalker e then t.wake .walker else t
      (t, ⟨search, v, s.calling.filter (· ≠ i)⟩)

/-- Whether the reader of a search listens to the signal: not while it resolves a run. -/
def readerListens (s : Search) : Bool := match s.stage with
  | .scanning scan => scan.resolving.isNone
  | _ => false

/-- A turn of an agent. -/
def searchTurn (world : World) (i : SearchAgent) (t : Timeline SearchAgent) (s : SearchState) :
    Timeline SearchAgent × SearchState :=
  let v := { s.visit with clock := t.clock }
  match i with
  | .reader => searchMove world i t s (readerMove world (i ∈ s.calling) v s.search)
  | .walker => searchMove world i t s (walkerMove world (i ∈ s.calling) v s.search)
  | .signal =>
    let t := t.rouse .walker
    (if readerListens s.search then t.rouse .reader else t,
      { s with search := { s.search with cancelled := true } })

/-- The timeline at the start, when the signal is given at a time. -/
def searchTimeline (cancelAt : Option Nat) : Timeline SearchAgent :=
  (Timeline.start .reader).alarm .signal cancelAt

/-- **The outcome of one search**: with the signal at `cancelAt`, `none` when it has not ended within `turns` turns. -/
def search? (turns : Nat) (world : World) (cancelAt : Option Nat) (plan : SearchPlan) : Option Outcome :=
  ((searchTimeline cancelAt).run? .reader (searchTurn world) (·.search.result?) turns
    ⟨.start plan, .start, []⟩).map (·.1)

end PayloadGate.Rehearsal
