import PayloadGate.Store.Cursor
import Mathlib.Data.List.Pairwise
import Mathlib.Data.String.Basic

/-! # Stores that do not change

A **`Snapshot`** is what a store holds while nothing changes. Its listings are delivered in pages,
and nothing but the order of the objects binds a store in the way it cuts them.

* **`Snapshot.listing`** — the objects of a listing, in ascending order of their keys.
* **`Paging`** — a list of pages that makes up a listing: every page but the last has a token, and a
  page may be empty.
* **`Snapshot.ahead`** — what a cursor has ahead.
* **`Delivers`** — a store that answers the calls for a listing with given pages, one after the
  other.
* **`Snapshot.Serves`** — a store that answers every listing of one kind completely, whenever it is
  begun; **`Snapshot.onePage`** — one that does so on one page. -/

namespace PayloadGate

/-- **What a store holds while nothing changes**: its objects in ascending order of their keys, and their contents. -/
structure Snapshot where
  /-- The objects. -/
  records : List ObjectRecord
  /-- They are in ascending order of their keys, one for each key. -/
  ascending : records.Pairwise fun a b => a.key < b.key
  /-- What a call for the content of a key answers. -/
  content : String → Except Failure (List UInt8)

namespace Snapshot

variable {store : Snapshot}

/-- **The objects of the listing `q`**, in ascending order of their keys. -/
def listing (store : Snapshot) (q : ListQuery) : List ObjectRecord :=
  store.records.filter fun r => q.admits r.key

/-- An object is listed when its key belongs to the listing, `q.admits r.key`. -/
@[simp] theorem mem_listing {q : ListQuery} {r : ObjectRecord} :
    r ∈ store.listing q ↔ r ∈ store.records ∧ q.admits r.key = true := by
  rw [listing, List.mem_filter]

/-- A listing is in ascending order, as a part of the records. -/
theorem ascending_listing (store : Snapshot) (q : ListQuery) :
    (store.listing q).Pairwise fun a b => a.key < b.key :=
  store.ascending.filter _

/-- A listing `q'` whose keys are those of `q` that `keep` lets through is the filtered listing. -/
theorem listing_eq_filter {q q' : ListQuery} {keep : ObjectRecord → Bool}
    (h : ∀ r, q'.admits r.key = (q.admits r.key && keep r)) :
    store.listing q' = (store.listing q).filter keep := by
  rw [listing, listing, List.filter_filter]
  apply List.filter_congr
  intro r _
  rw [h r, Bool.and_comm]

end Snapshot

/-! ## Pages -/

/-- **Pages that make up the listing `records`.** The last page has no token, and each other one has. -/
inductive Paging : List ObjectPage → List ObjectRecord → Prop where
  /-- One page holds all that is left. -/
  | last (records : List ObjectRecord) : Paging [⟨records, none⟩] records
  /-- A page with a token, and further pages. -/
  | more (records : List ObjectRecord) (token : String) {pages : List ObjectPage}
      {rest : List ObjectRecord} (h : Paging pages rest) :
      Paging (⟨records, some token⟩ :: pages) (records ++ rest)

namespace Paging

/-- A listing without a page is none: even of no objects there is one page. -/
theorem not_nil {records : List ObjectRecord} : ¬ Paging [] records := fun h => nomatch h

/-- **The first page of a listing** holds the beginning. Without a token nothing is left behind it;
with one the pages behind it make up the rest. -/
theorem exists_rest {page : ObjectPage} {pages : List ObjectPage} {records : List ObjectRecord}
    (h : Paging (page :: pages) records) :
    ∃ rest, records = page.records ++ rest ∧ (page.next = none → rest = [])
      ∧ (page.next ≠ none → Paging pages rest) := by
  cases h with
  | last => exact ⟨[], by rw [List.append_nil], fun _ => rfl, fun hne => absurd rfl hne⟩
  | more _ token hrest => exact ⟨_, rfl, fun hnone => absurd hnone (by simp), fun _ => hrest⟩

/-- The objects of a listing are those of its pages, one page after the other. -/
theorem records_eq {pages : List ObjectPage} {records : List ObjectRecord} (h : Paging pages records) :
    records = pages.flatMap (·.records) := by
  induction h with
  | last records => simp
  | more records token _ ih => rw [List.flatMap_cons, ← ih]

end Paging

namespace Snapshot

variable {store : Snapshot} {c : Cursor} {left : List ObjectRecord}

/-- **What a cursor has ahead** that stands before the first page of its listing, or before pages that hold `left`: the
whole listing as long as it has no token. -/
def ahead (store : Snapshot) (c : Cursor) (left : List ObjectRecord) : List ObjectRecord :=
  match c.token with
  | none => store.listing c.query
  | some _ => left

/-- Before the first page, with `c.token = none`, the whole listing is ahead. -/
theorem ahead_of_eq_none (h : c.token = none) : store.ahead c left = store.listing c.query := by
  rw [ahead, h]

/-- Behind a page, with a token, what is `left` is ahead. -/
theorem ahead_of_ne_none (h : c.token ≠ none) : store.ahead c left = left := by
  obtain ⟨token, htoken⟩ := Option.ne_none_iff_exists'.1 h
  rw [ahead, htoken]

end Snapshot

/-! ## Stores that deliver them -/

section Serving

variable {σ : Type}

/-- **A store that delivers pages**: asked for the page of a token, and then for the page of each
token that it has given, it answers with the pages in their order. -/
def Delivers (ask : ListQuery → Option String → σ → Except Failure ObjectPage × σ) (q : ListQuery) :
    Option String → σ → List ObjectPage → Prop
  | _, _, [] => True
  | token, s, page :: pages =>
    ∃ s', ask q token s = (.ok page, s') ∧ Delivers ask q page.next s' pages

/-- **A store that serves a listing**: whenever it is begun, in whatever state, the listing is delivered completely, in
some number of pages. The pages may be cut differently each time. -/
def Snapshot.Serves (store : Snapshot)
    (ask : ListQuery → Option String → σ → Except Failure ObjectPage × σ) (q : ListQuery) : Prop :=
  ∀ s, ∃ pages, Paging pages (store.listing q) ∧ Delivers ask q none s pages

/-- The answer of a store that puts every listing on one page, without a token. -/
def Snapshot.onePage (store : Snapshot) (q : ListQuery) (_ : Option String) (s : σ) :
    Except Failure ObjectPage × σ :=
  (.ok ⟨store.listing q, none⟩, s)

/-- A store that puts every listing on one page serves them all. -/
theorem Snapshot.serves_onePage (store : Snapshot) (q : ListQuery) :
    store.Serves (store.onePage : _ → _ → σ → _) q :=
  fun s => ⟨[⟨store.listing q, none⟩], Paging.last _, s, rfl, trivial⟩

end Serving

/-! ## Enough steps -/

/-- What a play with enough steps comes to from its second step on, it comes to with one step more: "for all numbers of
steps from some `enough` on" goes over from `p` to `q`. -/
theorem exists_enough_succ {p q : Nat → Prop} (h : ∃ enough, ∀ steps, enough ≤ steps → p steps)
    (hstep : ∀ steps, p steps → q (steps + 1)) : ∃ enough, ∀ steps, enough ≤ steps → q steps := by
  obtain ⟨enough, henough⟩ := h
  -- one more step is spent on what `hstep` says of `p`
  refine ⟨enough + 1, fun steps hsteps => ?_⟩
  obtain ⟨steps, rfl⟩ := Nat.exists_eq_add_of_le' (Nat.le_of_add_left_le hsteps)
  exact hstep steps (henough steps (by omega))

end PayloadGate
