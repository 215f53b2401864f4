import PayloadGate.Failure
import PayloadGate.Json.Parser
import PayloadGate.Json.Printer
import PayloadGate.Run.Labels
import PayloadGate.Time.Stamp

/-! # Run descriptors

Every run directory holds a descriptor that the CI system writes and rewrites while the run goes on.

* **`Descriptor`** — what an analysis reads of it; **`Descriptor.isFinished`**,
  **`Descriptor.label?`**.
* **`Descriptor.ofBytes`** — the reader. A record may be written as an object, with its members in any
  order and others between them, or as the list of its fields.
* **`Descriptor.toJson`** — the written form. -/

namespace PayloadGate

open Time (Instant)

/-- **A run descriptor.** -/
structure Descriptor where
  /-- Name of the descriptor object. -/
  name : String
  /-- Labels, among them the one that ties the run to a payload. -/
  labels : Labels
  /-- When the run was created. -/
  created : Instant
  /-- The job of the run. -/
  job : String
  /-- The cluster it runs on. -/
  cluster : String
  /-- State as the CI system reports it. -/
  state : String
  /-- When it started. -/
  started : Option Instant
  /-- When it was completed. -/
  completed : Option Instant
  deriving DecidableEq

namespace Descriptor

/-- **A run is finished** once its completion time is recorded, `d.completed.isSome`. -/
def isFinished (d : Descriptor) : Bool := d.completed.isSome

/-- The value of the label `name`, when there is one. -/
def label? (d : Descriptor) (name : String) : Option String := d.labels.get? name

/-! ## Reading -/

open Json (Value)

/-- The value of the member `name`, when it stands exactly once; `some none` when it does not stand at all, and `none`
when it is repeated. -/
def field? (members : List (Option String × Value)) (name : String) : Option (Option Value) :=
  match members.filter (·.1 = some name) with
  | [] => some none
  | [m] => some (some m.2)
  | _ => none

/-- **The fields of a record** with the given names: the members of an object, whose names must all
be texts, or the items of a list, of which the last may be missing. -/
def record? (names : List String) : Value → Option (List (Option Value))
  | .object members => if members.all (·.1.isSome) then names.mapM (field? members) else none
  -- a list has the fields in their order, and may leave out the last ones
  | .list items =>
    if items.length ≤ names.length then
      some (items.map some ++ List.replicate (names.length - items.length) none)
    else none
  | _ => none

/-- A text whose bytes are well formed; one of another kind, or `.text none`, is none. -/
def text? : Value → Option String
  | .text s => s
  | _ => none

/-- A text, empty when the field is missing. -/
def textField? : Option Value → Option String
  | none => some ""
  | some v => text? v

/-- A timestamp: a text that reads as one by the lax rules. -/
def instant? (v : Value) : Option Instant := text? v >>= Instant.ofLax?

/-- A timestamp that may be missing or `null`. -/
def instantField? : Option Value → Option (Option Instant)
  | none | some .null => some none
  | some v => (instant? v).map some

/-- A map from texts to texts, empty when the field is missing. -/
def labelsField? : Option Value → Option Labels
  | none => some .empty
  | some (.object members) => do
    let entries ← members.mapM fun (name, v) => do some ((← name), (← text? v))
    some (.ofList entries)
  | some _ => none

/-- The part `metadata`, which tells the name, the labels and the creation time; of these the creation time has to be
there. -/
def ofMetadata? (v : Value) : Option (String × Labels × Instant) := do
  match ← record? ["name", "labels", "creationTimestamp"] v with
  | [name, labels, created] =>
    some (← textField? name, ← labelsField? labels, ← created >>= instant?)
  | _ => none

/-- The part `spec`, which tells the job and the cluster, both empty when it is missing. -/
def ofSpec? : Option Value → Option (String × String)
  | none => some ("", "")
  | some v => do
    match ← record? ["job", "cluster"] v with
    | [job, cluster] => some (← textField? job, ← textField? cluster)
    | _ => none

/-- The part `status`, which tells the state and the times, empty when it is missing. -/
def ofStatus? : Option Value → Option (String × Option Instant × Option Instant)
  | none => some ("", none, none)
  | some v => do
    match ← record? ["state", "startTime", "completionTime"] v with
    | [state, started, completed] =>
      some (← textField? state, ← instantField? started, ← instantField? completed)
    | _ => none

/-- The descriptor that a JSON value stands for, `none` when one of its parts does not read. -/
def ofJson? (v : Value) : Option Descriptor := do
  match ← record? ["metadata", "spec", "status"] v with
  | [metadata, spec, status] =>
    let (name, labels, created) ← metadata >>= ofMetadata?
    let (job, cluster) ← ofSpec? spec
    let (state, started, completed) ← ofStatus? status
    some { name, labels, created, job, cluster, state, started, completed }
  | _ => none

/-- **The descriptor that a sequence of bytes holds**, or the failure of bytes that are no JSON, or none of a
descriptor. -/
def ofBytes (bytes : List UInt8) : Except Failure Descriptor :=
  match Json.parse bytes with
  | none => .error (.invalidInput "JSON parsing error: not a JSON text")
  | some v =>
    -- text that is JSON but tells no descriptor is refused like any other
    match ofJson? v with
    | none => .error (.invalidInput "JSON parsing error: not a run descriptor")
    | some d => .ok d

/-! ## Writing -/

/-- A member `name` with a text as its value. -/
def textMember (name value : String) : Option String × Value := (some name, .text (some value))

/-- A timestamp as it is written, or `null`. -/
def instantValue : Option Instant → Value
  | none => .null
  | some t => .text (some t.zuluStamp)

/-- **The written form of a descriptor**: the three parts as objects, with all their members. -/
def toJson (d : Descriptor) : Value :=
  .object [
    (some "metadata", .object [
      textMember "name" d.name,
      (some "labels", .object (d.labels.entries.map fun e => textMember e.1 e.2)),
      textMember "creationTimestamp" d.created.zuluStamp]),
    (some "spec", .object [textMember "job" d.job, textMember "cluster" d.cluster]),
    (some "status", .object [
      textMember "state" d.state,
      (some "startTime", instantValue d.started),
      (some "completionTime", instantValue d.completed)])]

end Descriptor

end PayloadGate
