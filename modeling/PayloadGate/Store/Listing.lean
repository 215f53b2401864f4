import PayloadGate.Time.Instant

/-! # Listings of an object store

Objects have keys, and a store can list the keys with a common start in ascending order, page by page.

* **`ListQuery`** — which keys a listing is about; **`ListQuery.admits`** — whether a key is one of them.
* **`ObjectRecord`** — what a listing tells of an object.
* **`ObjectPage`** — a page of a listing, with the token of the page behind it. -/

namespace PayloadGate

/-- **The keys of a listing**: those that begin with `under`, from `start` on and before `stop`. -/
structure ListQuery where
  /-- All keys start with this text. -/
  under : String
  /-- No key comes before this one. -/
  start : Option String
  /-- All keys come before this one. -/
  stop : Option String
  deriving DecidableEq

namespace ListQuery

/-- All keys that start with the text `under`. -/
def allUnder (under : String) : ListQuery := ⟨under, none, none⟩

/-- **Whether a key belongs to a listing**, as a test that can be run. -/
def admits (q : ListQuery) (key : String) : Bool :=
  q.under.toList.isPrefixOf key.toList
    && q.start.all (fun start => decide (start ≤ key))
    && q.stop.all (fun stop => decide (key < stop))

/-- The keys of a listing, by its three limits: `under` is a prefix, `start ≤ key` and `key < stop`. -/
theorem admits_iff {q : ListQuery} {key : String} :
    q.admits key = true ↔ q.under.toList <+: key.toList ∧ (∀ start ∈ q.start, start ≤ key)
      ∧ ∀ stop ∈ q.stop, key < stop := by
  rcases q with ⟨under, start, stop⟩
  cases start <;> cases stop <;> simp [admits, List.isPrefixOf_iff_prefix, and_assoc]

end ListQuery

/-- **What a listing tells of an object**: its key and when it was created. -/
structure ObjectRecord where
  /-- The key. -/
  key : String
  /-- When the object was created. -/
  created : Time.Instant
  deriving DecidableEq

/-- **A page of a listing**: its objects, and the token of the page behind it when there is one. -/
structure ObjectPage where
  /-- The objects, in ascending order of their keys. -/
  records : List ObjectRecord
  /-- The token of the next page; there is none behind the last page. -/
  next : Option String
  deriving DecidableEq

end PayloadGate
