/-! # Taking turns in virtual time

A **`Timeline`** says which of a number of agents goes on next. An agent that is ready takes its turn when all that
became ready before it have had theirs. When nobody is ready, the clock moves on to the first agent that wakes up.
An agent that is neither ready nor asleep waits until another one wakes it.

* **`Timeline.next?`** — the agent whose turn it is.
* **`Timeline.run?`** — turn after turn, until there is an answer. -/

namespace PayloadGate.Rehearsal

/-- **Agents in virtual time.** -/
structure Timeline (ι : Type) where
  /-- The time, in milliseconds. -/
  clock : Nat
  /-- The agents that can go on, the next one first. -/
  ready : List ι
  /-- The agents that sleep, with the time at which they wake up, in the order in which they fell asleep. -/
  asleep : List (Nat × ι)

namespace Timeline

variable {ι : Type} [DecidableEq ι]

/-- One agent is ready at the start. -/
def start (first : ι) : Timeline ι := ⟨0, [first], []⟩

/-- Whether an agent waits to be woken. -/
def isWaiting (i : ι) (t : Timeline ι) : Bool := i ∉ t.ready && i ∉ t.asleep.map (·.2)

/-- An agent goes on at once, before all others. -/
def again (i : ι) (t : Timeline ι) : Timeline ι := { t with ready := i :: t.ready }

/-- An agent falls asleep for a while. -/
def sleep (i : ι) (span : Nat) (t : Timeline ι) : Timeline ι :=
  { t with asleep := t.asleep ++ [(t.clock + span, i)] }

/-- An agent is set to wake up at a time; when that is the start, it goes first. -/
def alarm (i : ι) (clock : Option Nat) (t : Timeline ι) : Timeline ι :=
  match clock with
  | none => t
  | some 0 => t.again i
  | some clock => { t with asleep := t.asleep ++ [(clock, i)] }

/-- An agent that waits, `isWaiting`, becomes ready behind all others that are. -/
def wake (i : ι) (t : Timeline ι) : Timeline ι :=
  if t.isWaiting i then { t with ready := t.ready ++ [i] } else t

/-- An agent is taken out. -/
def dismiss (i : ι) (t : Timeline ι) : Timeline ι :=
  { t with ready := t.ready.filter (· ≠ i), asleep := t.asleep.filter (·.2 ≠ i) }

/-- An agent that waits or sleeps becomes ready. -/
def rouse (i : ι) (t : Timeline ι) : Timeline ι :=
  wake i { t with asleep := t.asleep.filter (·.2 ≠ i) }

/-- The timeline at the next time at which an agent wakes up; those that wake at one time keep the order in which they
fell asleep. -/
def advance (t : Timeline ι) : Timeline ι :=
  match (t.asleep.map (·.1)).min? with
  | none => t
  | some clock =>
    ⟨clock, (t.asleep.filter (·.1 = clock)).map (·.2), t.asleep.filter (·.1 ≠ clock)⟩

/-- **The agent whose turn it is**, and the timeline without it. The leader goes first whenever it is ready. There is
none when all agents wait for each other. -/
def next? (leader : ι) (t : Timeline ι) : Option (ι × Timeline ι) :=
  -- time passes only when no agent is ready
  let t := if t.ready.isEmpty then t.advance else t
  if leader ∈ t.ready then some (leader, { t with ready := t.ready.erase leader })
  else match t.ready with
    | [] => none
    | i :: rest => some (i, { t with ready := rest })

/-- **Turn after turn, until there is an answer**, which is given with the time. There is none when it takes more than
`turns` turns, or when all agents wait for each other. -/
def run? {σ β : Type} (leader : ι) (turn : ι → Timeline ι → σ → Timeline ι × σ) (answer? : σ → Option β) :
    Nat → Timeline ι → σ → Option (β × Nat × σ)
  | 0, _, _ => none
  | turns + 1, t, s =>
    match answer? s with
    | some answer => some (answer, t.clock, s)
    | none =>
      match t.next? leader with
      | none => none
      | some (i, t) =>
        let (t, s) := turn i t s
        run? leader turn answer? turns t s

end Timeline

end PayloadGate.Rehearsal
