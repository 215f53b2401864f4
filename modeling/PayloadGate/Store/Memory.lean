import PayloadGate.Store.ObjectStore
import PayloadGate.Store.Pages

/-! # A store in memory

A **`MemoryStore`** holds objects, some of which may come into being only after a while, and can be told to fail. -/

namespace PayloadGate

/-- An object in memory. -/
structure MemoryObject where
  /-- What a listing tells of it. -/
  record : ObjectRecord
  /-- The content. -/
  content : List UInt8
  /-- From when on it exists, in milliseconds. -/
  availableFrom : Nat

/-- **A store in memory.** -/
structure MemoryStore where
  /-- The objects. -/
  objects : List MemoryObject
  /-- How many records a page holds. -/
  pageSize : Nat
  /-- Whether every listing begins with an empty page. -/
  leadEmpty : Bool
  /-- The calls for pages that fail, counted from zero. -/
  failingCalls : List Nat
  /-- The objects that cannot be read. -/
  failingKeys : List String
  /-- How long every call takes, in milliseconds. -/
  latency : Nat

namespace MemoryStore

/-- The objects that exist at the time `clock`, in key order. -/
def existing (m : MemoryStore) (clock : Nat) : List MemoryObject :=
  inKeyOrder (·.record.key) (m.objects.filter fun o => decide (o.availableFrom ≤ clock))

/-- The answer for a page at the time `clock`, when it is the call of the number `calls`; planned failures come
first. -/
def page (m : MemoryStore) (clock calls : Nat) (query : ListQuery) (token : Option String) :
    Except Failure ObjectPage :=
  if calls ∈ m.failingCalls then .error (.storage "listing unavailable")
  -- an empty first page, behind which the listing goes on
  else if m.leadEmpty && token.isNone then .ok ⟨[], some ""⟩
  else
    let records := ((m.existing clock).map (·.record)).filter fun r => query.admits r.key
    let (page, next) := firstPage (·.key) (max 1 m.pageSize) (behind (·.key) token records)
    .ok ⟨page, next⟩

/-- The content of the object `key` at the time `clock`. -/
def content (m : MemoryStore) (clock : Nat) (key : String) : Except Failure (List UInt8) :=
  if key ∈ m.failingKeys then .error (.storage "read unavailable")
  else match (m.existing clock).find? (·.record.key == key) with
    | some o => .ok o.content
    | none => .error (.notFound ("Object " ++ key))

/-- **The store as its callers meet it**, with its latency, its pages and its contents. -/
def toStore (m : MemoryStore) : ObjectStore := ⟨m.latency, m.page, m.content⟩

end MemoryStore

end PayloadGate
