import PayloadGate.RunId
import PayloadGate.Store.Cursor
import PayloadGate.Walk.Classify

/-! # Walking through the runs of a job

A **`Walker`** goes through the objects of a job directory and finds the runs worth looking at. As soon as it
knows enough of a run it skips to the next one, which takes a new listing, because cursors cannot skip. It does
no work itself: it waits for a page, or for somebody to take a run id from it, or it has ended.

* **`Walker.start`** — before the first listing.
* **`Walker.receive`**, **`Walker.accepted`**, **`Walker.quit`** — the answer of the store, the run id taken, and
  the end on request.
* **`Walker.run?`** — a whole walk. -/

namespace PayloadGate.Walk

open Time (Instant)

/-- What a walk is about. -/
structure Route where
  /-- The job directory, without a slash at its end. -/
  root : String
  /-- Limits on the age of objects. -/
  bands : AgeBands
  /-- The instant at which ages are taken. -/
  now : Instant
  deriving DecidableEq

namespace Route

/-- The place in a listing where the objects of the run `id` start. -/
def offset (route : Route) (id : String) : String := route.root ++ "/" ++ id

/-- The listing of the job from the place `start` on. -/
def listing (route : Route) (start : Option String) : ListQuery := ⟨route.root ++ "/", start, none⟩

end Route

/-- What a walker is waiting for. -/
inductive Stage where
  /-- A page. -/
  | listing (cursor : Cursor)
  /-- That a run id is taken; the cursor stands behind the object that led to it. -/
  | offering (id : String) (cursor : Cursor)
  /-- Nothing more: it has ended, perhaps with a failure. -/
  | ended (failure : Option Failure)
  deriving DecidableEq

/-- **A walker** on a `route`, which stands at `stage`. Its present listing has begun at `offset`, and `emitted` are the
ids that were taken, last one first. -/
structure Walker where
  /-- What the walk is about. -/
  route : Route
  /-- Where the present listing starts. -/
  offset : Option String
  /-- The run ids that have been taken, last one first. -/
  emitted : List String
  /-- What it is waiting for. -/
  stage : Stage
  deriving DecidableEq

namespace Walker

/-- Whether `place` lies behind the start of the present listing. -/
def isAhead (current : Option String) (place : String) : Bool :=
  match current with
  | none => true
  | some offset => decide (offset < place)

/-- The walker `w` at the start of a listing from `place` on. -/
def relist (w : Walker) (place : Option String) : Walker :=
  { w with offset := place, stage := .listing (.start (w.route.listing place)) }

/-- The walker at its end. -/
def finish (w : Walker) (failure : Option Failure) : Walker := { w with stage := .ended failure }

/-- **The walker before its first listing**, which starts at the run `seed` when there is one. -/
def start (route : Route) (seed : Option String) : Walker :=
  relist ⟨route, none, [], .ended none⟩ (seed.map route.offset)

/-- **The walker after the objects that have been fetched**: it goes through them until it needs a page, finds
a run id or ends. `cursor` is the place behind them. -/
def goThrough (w : Walker) (cursor : Cursor) : List ObjectRecord → Walker
  | [] =>
    if cursor.exhausted then w.finish none
    else { w with stage := .listing { cursor with buffer := [] } }
  | r :: rest =>
    match classify w.route.root w.route.bands w.route.now r with
    | .ignore => goThrough w cursor rest
    | .fastForward id =>
      -- the rest of the run lies below the next place, but for ids of nines only
      match RunId.next id with
      | .error f => w.finish (some f)
      | .ok next =>
        if isAhead w.offset (w.route.offset next) then w.relist (some (w.route.offset next))
        else goThrough w cursor rest
    | .candidate id =>
      match RunId.next id with
      | .error f => w.finish (some f)
      | .ok next =>
        -- a new listing may bring back a run whose id was taken
        if id ∉ w.emitted then { w with stage := .offering id { cursor with buffer := rest } }
        else if isAhead w.offset (w.route.offset next) then w.relist (some (w.route.offset next))
        else goThrough w cursor rest

/-- **The walker after the store has answered** by `reply` for the page that it needed. -/
def receive (w : Walker) (reply : Except Failure ObjectPage) : Walker :=
  match w.stage with
  | .listing cursor =>
    match reply with
    | .ok page => w.goThrough (cursor.receive (.ok page)) (cursor.receive (.ok page)).buffer
    | .error f => w.finish (some f)
  | _ => w

/-- **The walker after its run id was taken**: it skips the rest of the run, unless the place of the next id is not
ahead. -/
def accepted (w : Walker) : Walker :=
  match w.stage with
  | .offering id cursor =>
    let w := { w with emitted := id :: w.emitted }
    match RunId.next id with
    -- unreachable: only an id with a next one is offered
    | .error f => w.finish (some f)
    | .ok next =>
      if isAhead w.offset (w.route.offset next) then w.relist (some (w.route.offset next))
      else w.goThrough cursor cursor.buffer
  | _ => w

/-- **The walker that was asked to end**: it does so without a failure. -/
def quit (w : Walker) : Walker :=
  match w.stage with
  | .ended _ => w
  | _ => w.finish none

/-- Whether it has ended. -/
def hasEnded (w : Walker) : Bool := match w.stage with
  | .ended _ => true
  | _ => false

/-- The failure with which it has ended. -/
def failure? (w : Walker) : Option Failure := match w.stage with
  | .ended f => f
  | _ => none

/-- **A whole walk**: the walker at its end, when the store answers for pages by `ask` and every run id is taken
at once. There is no answer when the walk takes more than `steps` steps. -/
def run? {σ : Type} (ask : ListQuery → Option String → σ → Except Failure ObjectPage × σ) :
    Nat → Walker → σ → Option (Walker × σ)
  | 0, _, _ => none
  | steps + 1, w, s =>
    match w.stage with
    | .ended _ => some (w, s)
    | .offering _ _ => run? ask steps w.accepted s
    | .listing cursor =>
      let (reply, s) := ask cursor.query cursor.token s
      run? ask steps (w.receive reply) s

end Walker

end PayloadGate.Walk
