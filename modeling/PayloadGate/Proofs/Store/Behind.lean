import PayloadGate.Proofs.Store.Snapshot

/-! # Listings from behind their start

A listing begins with the object at its start, when there is one. Some stores list from behind the start: their
listings lack this object. Such a store becomes one that lists from the start when the object is put before the first
page of each listing.

* **`Snapshot.listingBehind`**, **`Snapshot.atStart`** — the objects behind the start of a listing, and the one at it.
* **`Snapshot.ServesBehind`** — a store that answers every listing from behind its start.
* **`Snapshot.withStart`**, **`Snapshot.serves_withStart`** — the store that lists from the start. -/

namespace PayloadGate

/-! ## A property that holds from some point on -/

section Monotone

variable {α : Type} {p : α → Bool} {xs : List α}

/-- When `p` holds from some point of `xs` on, what is not behind the point comes before what is, and together they are
`xs`. -/
theorem filter_not_append_filter (h : xs.Pairwise fun a b => p a = true → p b = true) :
    (xs.filter fun x => !p x) ++ xs.filter p = xs := by
  induction xs with
  | nil => rfl
  | cons x xs ih =>
    obtain ⟨hx, hxs⟩ := List.pairwise_cons.1 h
    cases hp : p x with
    | false => simp [hp, ih hxs]
    | true =>
      -- with `x` all that follows is behind the start, so the first part is empty
      have hall : ∀ y ∈ xs, p y = true := fun y hy => hx y hy hp
      have hnone : (xs.filter fun y => !p y) = [] := by simpa using hall
      rw [List.filter_cons, List.filter_cons, hp, hnone, List.filter_eq_self.2 hall]
      rfl

/-- What comes before the point is what is not behind it: `takeWhile` and `filter` of `!p` are the same. -/
theorem takeWhile_not_eq_filter (h : xs.Pairwise fun a b => p a = true → p b = true) :
    (xs.takeWhile fun x => !p x) = xs.filter fun x => !p x := by
  induction xs with
  | nil => rfl
  | cons x xs ih =>
    obtain ⟨hx, hxs⟩ := List.pairwise_cons.1 h
    cases hp : p x with
    | false => simp [hp, ih hxs]
    | true =>
      have hnone : (xs.filter fun y => !p y) = [] := by simpa using fun y hy => hx y hy hp
      simp [hp, hnone]

end Monotone

/-! ## The object at the start -/

/-- Whether a key lies behind the start of a listing, `start < key`; without a start each one does. -/
def ListQuery.isBehindStart (q : ListQuery) (key : String) : Bool := q.start.all fun start => decide (start < key)

namespace Snapshot

variable {σ : Type} {store : Snapshot} {q : ListQuery}
  {ask : ListQuery → Option String → σ → Except Failure ObjectPage × σ}

/-- **The objects of a listing behind its start**, in ascending order of their keys. -/
def listingBehind (store : Snapshot) (q : ListQuery) : List ObjectRecord :=
  (store.listing q).filter fun r => q.isBehindStart r.key

/-- **The object at the start of a listing**, when there is one: a list of at most one object. -/
def atStart (store : Snapshot) (q : ListQuery) : List ObjectRecord :=
  (store.listing q).filter fun r => !q.isBehindStart r.key

/-- The object at the start comes first: the listing is `atStart` and then `listingBehind`. -/
theorem atStart_append_listingBehind (store : Snapshot) (q : ListQuery) :
    store.atStart q ++ store.listingBehind q = store.listing q := by
  refine filter_not_append_filter ((store.ascending_listing q).imp fun {a b} hab ha => ?_)
  rw [ListQuery.isBehindStart, Option.all_eq_true] at ha ⊢
  exact fun start hstart => decide_eq_true (lt_trans (of_decide_eq_true (ha start hstart)) hab)

/-- The object at the start has the key with which the listing starts, `q.start = some r.key`. -/
theorem start_eq_of_mem_atStart {r : ObjectRecord} (h : r ∈ store.atStart q) : q.start = some r.key := by
  obtain ⟨hlisting, hbehind⟩ := List.mem_filter.1 h
  obtain ⟨-, hstart, -⟩ := ListQuery.admits_iff.1 (Snapshot.mem_listing.1 hlisting).2
  cases hq : q.start with
  | none => simp [ListQuery.isBehindStart, hq] at hbehind
  | some start =>
    -- `q` admits no key before its start, and this one is not behind it
    have hle : start ≤ r.key := hstart start hq
    have hge : ¬ start < r.key := by simpa [ListQuery.isBehindStart, hq] using hbehind
    rw [le_antisymm hle (not_lt.1 hge)]

/-- **A store that serves a listing from behind its start**: what it delivers makes up `listingBehind`. The pages may be
cut differently each time. -/
def ServesBehind (store : Snapshot) (ask : ListQuery → Option String → σ → Except Failure ObjectPage × σ)
    (q : ListQuery) : Prop :=
  ∀ s, ∃ pages, Paging pages (store.listingBehind q) ∧ Delivers ask q none s pages

/-- **The store that lists from the start**: before the first page of a listing, the one asked for without a token,
stands the object at its start. -/
def withStart (store : Snapshot) (ask : ListQuery → Option String → σ → Except Failure ObjectPage × σ)
    (q : ListQuery) (token : Option String) (s : σ) : Except Failure ObjectPage × σ :=
  match token with
  | none => ((ask q none s).1.map fun page => ⟨store.atStart q ++ page.records, page.next⟩, (ask q none s).2)
  | some token => ask q (some token) s

/-- What it answers is the same, or a page with `atStart` before its objects. -/
theorem withStart_eq_or (store : Snapshot) (ask : ListQuery → Option String → σ → Except Failure ObjectPage × σ)
    (q : ListQuery) (token : Option String) (s : σ) :
    store.withStart ask q token s = ask q token s
      ∨ ∃ page s', ask q token s = (.ok page, s')
        ∧ store.withStart ask q token s = (.ok ⟨store.atStart q ++ page.records, page.next⟩, s') := by
  cases token with
  | some token => exact .inl rfl
  | none =>
    -- only the first page is changed: a call with a token is passed on as it is
    rcases hask : ask q none s with ⟨reply, s'⟩
    cases reply with
    | error f => exact .inl (by simp only [withStart, hask, Except.map])
    | ok page => exact .inr ⟨page, s', rfl, by simp only [withStart, hask, Except.map]⟩

/-- The later pages, those of a token, are the same. -/
theorem delivers_withStart {records : List ObjectRecord} {pages : List ObjectPage} (h : Paging pages records)
    {token : String} {s : σ} (hask : Delivers ask q (some token) s pages) :
    Delivers (store.withStart ask) q (some token) s pages := by
  induction h generalizing token s with
  | last records =>
    obtain ⟨s', hpage, -⟩ := hask
    exact ⟨s', hpage, trivial⟩
  | more records next _ ih =>
    obtain ⟨s', hpage, hrest⟩ := hask
    exact ⟨s', hpage, ih hrest⟩

/-- **It serves the listings** from their start that the other one serves from behind it. -/
theorem serves_withStart (h : store.ServesBehind ask q) : store.Serves (store.withStart ask) q := by
  intro s
  obtain ⟨pages, hpaging, hask⟩ := h s
  rw [← atStart_append_listingBehind]
  generalize store.listingBehind q = records at hpaging
  cases hpaging with
  | last =>
    obtain ⟨s', hpage, -⟩ := hask
    refine ⟨_, .last _, s', ?_, trivial⟩
    simp only [withStart, hpage, Except.map]
  | @more first next pages rest hrest =>
    obtain ⟨s', hpage, hmore⟩ := hask
    refine ⟨⟨store.atStart q ++ first, some next⟩ :: pages, ?_, s', ?_, delivers_withStart hrest hmore⟩
    · rw [← List.append_assoc]
      exact .more _ next hrest
    · simp only [withStart, hpage, Except.map]

end Snapshot

end PayloadGate
