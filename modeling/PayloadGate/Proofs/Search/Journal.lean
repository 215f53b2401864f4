import PayloadGate.Proofs.Search.Moves
import PayloadGate.Proofs.Walk.Steps

/-! # The journal of a search

A search that has ended does not tell how it came to its answer. A **`Journal`** does: it notes what
the store answered to the walker, how the walk ended, which ids went through the queue, and how they
were resolved. Nothing is supposed of the store: it may answer anything, fail, or answer differently
each time.

* **`Journal.note`** — what is noted of an event, with one lemma for each kind of event.
* **`Search.play`** — the events of a search, in any order in which they are possible.
* **`WalkLogged`**, **`ReadLogged`**, **`Closed`** — what the journal tells of the walker, of the
  reader, and of an answer.
* **`Logged`** — a search with what its journal tells. -/

namespace PayloadGate

open Walk (Walker)

/-! ## Journals -/

/-- How a walker has ended, when it has: `some none` without a failure, `some (some f)` with one. -/
def Walk.Walker.end? (w : Walker) : Option (Option Failure) :=
  match w.stage with
  | .ended failure => some failure
  | _ => none

/-- The id that a walker offers, at `.offering id c`. -/
def Walk.Walker.offered? (w : Walker) : Option String :=
  match w.stage with
  | .offering id _ => some id
  | _ => none

/-- **What has happened in a search** until it ended. -/
structure Journal where
  /-- Whether the signal was given. -/
  signalled : Bool
  /-- The answers of the store to the walker. -/
  pages : List (Except Failure ObjectPage)
  /-- How the walk ended, when it did. -/
  walk : Option (Option Failure)
  /-- The ids that the walker put into the queue. -/
  sent : List String
  /-- The ids that the reader took. -/
  received : List String
  /-- The ids that were resolved, each with what came of it. -/
  results : List (String × Except Failure (Option JobRun))

namespace Journal

/-- The journal of a search before its first event. -/
def empty : Journal := ⟨false, [], none, [], [], []⟩

/-- The journal after the reader has got on with its run: a result more when `r` has ended. -/
def noteResolver (j : Journal) (r : Resolver) : Journal :=
  match r.stage with
  | .ended result => { j with results := j.results ++ [(r.place.id, result)] }
  | _ => j

/-- **The journal after an event of a search.** What happens after the end is not noted, so that a journal tells what
the answer rests on. -/
def note (j : Journal) (s : Search) (e : Search.Event) : Journal :=
  match e, s.stage with
  | _, .ended _ => j
  | .cancel, _ => { j with signalled := true }
  | .walkerPage reply, .scanning scan =>
    { j with pages := j.pages ++ [reply], walk := (scan.walker.receive reply).end? }
  | .walkerSend, .scanning scan =>
    { j with sent := j.sent ++ scan.walker.offered?.toList, walk := scan.walker.accepted.end? }
  | .walkerQuit, .scanning scan => { j with walk := scan.walker.quit.end? }
  | .readerTake, .scanning scan =>
    match scan.queue with
    | [] => j
    | id :: _ => { j with received := j.received ++ [id] }.noteResolver (.start (s.plan.place id))
  | .readerPage reply, .scanning scan =>
    match scan.resolving with
    | none => j
    | some r => j.noteResolver (r.receivePage reply)
  | .readerObject reply, .scanning scan =>
    match scan.resolving with
    | none => j
    | some r => j.noteResolver (r.receiveObject reply)
  | _, _ => j

section Noting

variable {j : Journal} {s : Search} {scan : Scan}

/-- Events after the end are not noted: `j.note s e = j`. -/
theorem note_of_ended {e : Search.Event} {outcome : Outcome} (hs : s.stage = .ended outcome) :
    j.note s e = j := by
  unfold Journal.note
  simp only [hs]

/-- The signal is noted in `signalled`. -/
theorem note_cancel (hs : ∀ outcome, s.stage ≠ .ended outcome) :
    j.note s .cancel = { j with signalled := true } := by
  unfold Journal.note
  cases hstage : s.stage with
  | seeding => rfl
  | scanning scan => rfl
  | ended outcome => exact absurd hstage (hs outcome)

/-- The answer of the catalog is not noted; the ids tell what it was. -/
theorem note_seed {reply : Except Failure (Option String)} {now : Time.Instant}
    (hs : s.stage = .seeding) :
    j.note s (.seed reply now) = j := by
  unfold Journal.note
  simp only [hs]

/-- An answer to the walker is noted in `pages`, and in `walk` when it ends the walk. -/
theorem note_walkerPage (hs : s.stage = .scanning scan) (reply : Except Failure ObjectPage) :
    j.note s (.walkerPage reply)
      = { j with pages := j.pages ++ [reply], walk := (scan.walker.receive reply).end? } := by
  unfold Journal.note
  simp only [hs]

/-- An id that the walker puts into the queue is noted in `sent`. -/
theorem note_walkerSend {id : String} {c : Cursor} (hs : s.stage = .scanning scan)
    (hw : scan.walker.stage = .offering id c) :
    j.note s .walkerSend
      = { j with sent := j.sent ++ [id], walk := scan.walker.accepted.end? } := by
  unfold Journal.note
  simp only [hs, Walker.offered?, hw]
  rfl

/-- The end of the walk is noted in `walk`. -/
theorem note_walkerQuit (hs : s.stage = .scanning scan) :
    j.note s .walkerQuit = { j with walk := scan.walker.quit.end? } := by
  unfold Journal.note
  simp only [hs]

/-- An id that the reader takes is noted in `received`, with its result when it has one at once. -/
theorem note_readerTake_cons {id : String} {queue : List String} (hs : s.stage = .scanning scan)
    (hq : scan.queue = id :: queue) :
    j.note s .readerTake
      = { j with received := j.received ++ [id] }.noteResolver (.start (s.plan.place id)) := by
  unfold Journal.note
  simp only [hs, hq]

/-- A reader that takes no id has nothing to note. -/
theorem note_readerTake_nil (hs : s.stage = .scanning scan) (hq : scan.queue = []) :
    j.note s .readerTake = j := by
  unfold Journal.note
  simp only [hs, hq]

/-- What comes of a page for the reader is noted by `noteResolver`. -/
theorem note_readerPage {r : Resolver} (hs : s.stage = .scanning scan)
    (hr : scan.resolving = some r) (reply : Except Failure ObjectPage) :
    j.note s (.readerPage reply) = j.noteResolver (r.receivePage reply) := by
  unfold Journal.note
  simp only [hs, hr]

/-- What comes of a descriptor for the reader is noted by `noteResolver`. -/
theorem note_readerObject {r : Resolver} (hs : s.stage = .scanning scan)
    (hr : scan.resolving = some r) (reply : Except Failure (List UInt8)) :
    j.note s (.readerObject reply) = j.noteResolver (r.receiveObject reply) := by
  unfold Journal.note
  simp only [hs, hr]

/-- A reader that leaves has nothing to note. -/
theorem note_readerQuit (hs : s.stage = .scanning scan) : j.note s .readerQuit = j := by
  unfold Journal.note
  simp only [hs]

/-- What a run has been resolved to is noted in `results`, with its id. -/
theorem noteResolver_of_ended {r : Resolver} {result : Except Failure (Option JobRun)}
    (hr : r.stage = .ended result) :
    j.noteResolver r = { j with results := j.results ++ [(r.place.id, result)] } := by
  rw [noteResolver, hr]

/-- A run that has not been resolved yet is not noted. -/
theorem noteResolver_of_live {r : Resolver} (live : ∀ result, r.stage ≠ .ended result) :
    j.noteResolver r = j := by
  rw [noteResolver]
  cases hr : r.stage with
  | listing c files => rfl
  | reading key results => rfl
  | ended result => exact absurd hr (live result)

end Noting

/-- Whether the last answer to the walker was the last page of its listing, one without a token for a `next` page. -/
def LastPage (j : Journal) : Prop := ∃ page, j.pages.getLast? = some (.ok page) ∧ page.next = none

end Journal

/-- **The search after events**, with its journal: `step` and `note` one event after the other. There is none, `none`,
when one of the events is not possible. -/
def Search.play : List Search.Event → Search × Journal → Option (Search × Journal)
  | [], x => some x
  | e :: rest, (s, j) =>
    match s.step e with
    | none => none
    | some s' => play rest (s', j.note s e)

/-! ## What a journal tells -/

/-- A result that lets the search go on: no failure, and no run behind `plan.windowEnd`. -/
def GoesOn (plan : SearchPlan) (result : Except Failure (Option JobRun)) : Prop :=
  ∃ run?, result = .ok run? ∧ ∀ run ∈ run?, ¬ plan.windowEnd < run.descriptor.created

/-- A result that ends the search: a run behind `plan.windowEnd`. -/
def IsLate (plan : SearchPlan) (result : Except Failure (Option JobRun)) : Prop :=
  ∃ run, result = .ok (some run) ∧ plan.windowEnd < run.descriptor.created

/-- **What a journal tells of a walker**: what it has emitted is `sent`, how it has ended is `walk`, and an end without
a failure has its reason in the signal or in a last page. -/
structure WalkLogged (w : Walker) (cancelled : Bool) (j : Journal) : Prop where
  /-- It tells how the walk ended. -/
  walk_eq : j.walk = w.end?
  /-- It holds the ids that were taken from the walker. -/
  sent_eq : j.sent = w.emitted.reverse
  /-- The id that the walker offers has a next one. -/
  offered : ∀ id c, w.stage = .offering id c → ∃ next, RunId.next id = .ok next
  /-- Behind the last page of a listing the last answer was that page. -/
  exhausted : ∀ c, w.cursor? = some c → c.exhausted = true → j.LastPage
  /-- A walk without a failure has ended behind the last page of its listing, unless the signal was
  given. -/
  ended : w.stage = .ended none → j.LastPage ∨ cancelled = true

/-- **What a journal tells of a reader**: what it has received and the queue are what was sent, and all it has resolved
let it go on. -/
structure ReadLogged (plan : SearchPlan) (scan : Scan) (j : Journal) : Prop where
  /-- The ids that were sent have been received or are in the queue. -/
  received_eq : j.received ++ scan.queue = j.sent
  /-- The ids that were received have been resolved, but for the one that the reader resolves
  now. -/
  resolved_eq :
    j.results.map Prod.fst ++ (scan.resolving.map fun r => r.place.id).toList = j.received
  /-- No result has ended the search. -/
  goes_on : ∀ p ∈ j.results, GoesOn plan p.2
  /-- The reader waits for an answer. -/
  live : ∀ r, scan.resolving = some r → ∀ result, r.stage ≠ .ended result

/-- **What a journal tells of an answer**: for runs, what must have happened before, and for a failure of the walk, that
the reader has received all ids. -/
structure Closed (plan : SearchPlan) (j : Journal) (outcome : Outcome) : Prop where
  /-- Runs are answered when nothing is missing. -/
  complete : ∀ runs, outcome = .ok runs → j.signalled = false ∧ j.results.map Prod.fst = j.received
    ∧ (∀ p ∈ j.results, ∃ run?, p.2 = .ok run?)
    ∧ ((∃ p, j.results.getLast? = some p ∧ IsLate plan p.2)
      ∨ (j.walk = some none ∧ j.LastPage ∧ j.sent = j.received))
  /-- A failure of the walk is answered when nothing else has ended the search. -/
  failed : ∀ f, j.walk = some (some f) → j.signalled = false → (∀ p ∈ j.results, GoesOn plan p.2) →
    outcome = .error f

/-- **A search with its journal**, at each of its stages. -/
inductive Logged (plan : SearchPlan) (s : Search) (j : Journal) : Prop where
  /-- The catalog has not answered. -/
  | seeding (plan_eq : s.plan = plan) (stage : s.stage = .seeding)
      (journal_eq : j = { Journal.empty with signalled := s.cancelled })
  /-- The search goes through the runs. -/
  | scanning {scan : Scan} (plan_eq : s.plan = plan) (stage : s.stage = .scanning scan)
      (signalled_eq : j.signalled = s.cancelled) (walked : WalkLogged scan.walker s.cancelled j)
      (read : ReadLogged plan scan j)
  /-- It has ended. -/
  | ended {outcome : Outcome} (stage : s.stage = .ended outcome) (closed : Closed plan j outcome)

end PayloadGate
