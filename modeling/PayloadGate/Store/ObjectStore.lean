import PayloadGate.Failure
import PayloadGate.Store.Listing

/-! # Object stores

* **`ObjectStore`** — a store as its callers meet it: it takes its time, and what it answers may depend on when
  it is asked and on how often it has been asked for a page before.
* **`Visit`** — a caller's record of its calls; **`ObjectStore.askPage`** and **`ObjectStore.askObject`** make a
  call.
* **`Answers`** — what a store answers for contents, call by call; **`ObjectStore.answersFrom`** — those of a store
  from a visit on. -/

namespace PayloadGate

/-- **An object store.** Times are milliseconds since the start. -/
structure ObjectStore where
  /-- How long every call takes. -/
  latency : Nat
  /-- The answer for a page, by the time, the number of earlier calls for pages, and the token. -/
  page (clock calls : Nat) (query : ListQuery) (token : Option String) : Except Failure ObjectPage
  /-- The content of an object, by the time. -/
  content (clock : Nat) (key : String) : Except Failure (List UInt8)

/-- **What has been asked of a store.** -/
structure Visit where
  /-- The time. -/
  clock : Nat
  /-- Number of calls for pages. -/
  calls : Nat
  /-- Where the listings start that have been begun, last one first. -/
  starts : List (Option String)

namespace Visit

/-- The record of a store of which nothing has been asked. -/
def start : Visit := ⟨0, 0, []⟩

/-- The record `v` with one call for a page more. A call without a `token` begins a listing. -/
def notePage (v : Visit) (query : ListQuery) (token : Option String) : Visit :=
  { v with
    calls := v.calls + 1
    starts := if token.isNone then query.start :: v.starts else v.starts }

end Visit

/-- **What a store answers for contents**, call by call: `answers n key` when `key` is asked for as the `n`-th one. What
it holds may change from one call to the next. -/
abbrev Answers : Type := Nat → String → Except Failure (List UInt8)

/-- The `n`-th call for a content, with the number of the next one. -/
def Answers.read (answers : Answers) (key : String) (n : Nat) : Except Failure (List UInt8) × Nat :=
  (answers n key, n + 1)

namespace ObjectStore

/-- The answer for a page that is due now, with the record of the call; no time passes. -/
def answerPage (store : ObjectStore) (query : ListQuery) (token : Option String) (v : Visit) :
    Except Failure ObjectPage × Visit :=
  (store.page v.clock v.calls query token, v.notePage query token)

/-- **A call for a page**, which ends by the latency of the store later. -/
def askPage (store : ObjectStore) (query : ListQuery) (token : Option String) (v : Visit) :
    Except Failure ObjectPage × Visit :=
  store.answerPage query token { v with clock := v.clock + store.latency }

/-- **A call for the content of the object `key`**, which ends by the latency of the store later. -/
def askObject (store : ObjectStore) (key : String) (v : Visit) : Except Failure (List UInt8) × Visit :=
  let v := { v with clock := v.clock + store.latency }
  (store.content v.clock key, v)

/-- **The answers of a store from a visit on**, when calls for contents follow each other: each ends by the latency of
the store later than the one before. -/
def answersFrom (store : ObjectStore) (v : Visit) : Answers :=
  fun n key => store.content (v.clock + (n + 1) * store.latency) key

end ObjectStore

end PayloadGate
