import PayloadGate.Store.Memory
import PayloadGate.Proofs.Store.Snapshot

/-! # Stores in memory that do not change

A store in memory whose objects exist from the start and whose listings do not fail does not change.
It serves every listing under a text that is not empty, for any page size, with or without an empty
first page.

* **`pairwise_inKeyOrder`** — entries in key order are in ascending order, one for each key.
* **`behind_getLast`** — behind the last key of a page comes the rest of the listing.
* **`exists_paging`** — a listing is cut into pages of one size.
* **`MemoryStore.Steady`**, **`MemoryStore.snapshot`** — a store in memory that does not change, and
  what it holds.
* **`MemoryStore.Steady.serves`** — a steady store in memory serves its listings. -/

namespace PayloadGate

section KeyOrder

variable {α : Type} {key : α → String}

/-- Only entries of the list are kept: `keepLast` drops some and adds none. -/
theorem mem_of_mem_keepLast {x : α} {entries : List α} (h : x ∈ keepLast key entries) :
    x ∈ entries := by
  induction entries using keepLast.induct key with
  | case1 => exact h
  | case2 y => exact h
  | case3 y z rest hyz ih =>
    rw [keepLast, if_pos hyz] at h
    exact List.mem_cons_of_mem y (ih h)
  | case4 y z rest hyz ih =>
    rw [keepLast, if_neg hyz] at h
    rcases List.mem_cons.1 h with rfl | h
    · exact List.mem_cons_self
    · exact List.mem_cons_of_mem y (ih h)

/-- Of entries in order, `key x ≤ key y`, one is kept for each key: what is left has `key x < key y`. -/
theorem pairwise_keepLast {entries : List α} (h : entries.Pairwise fun x y => key x ≤ key y) :
    (keepLast key entries).Pairwise fun x y => key x < key y := by
  induction entries using keepLast.induct key with
  | case1 => exact List.Pairwise.nil
  | case2 y => exact List.pairwise_singleton _ y
  | case3 y z rest hyz ih =>
    rw [keepLast, if_pos hyz]
    exact ih (List.Pairwise.of_cons h)
  | case4 y z rest hyz ih =>
    rw [keepLast, if_neg hyz, List.pairwise_cons]
    obtain ⟨hy, hrest⟩ := List.pairwise_cons.1 h
    refine ⟨fun x hx => ?_, ih hrest⟩
    -- the next key is another one, and the keys behind it are not smaller
    have hyz' : key y < key z := lt_of_le_of_ne (hy z List.mem_cons_self) hyz
    rcases List.mem_cons.1 (mem_of_mem_keepLast hx) with rfl | hx
    · exact hyz'
    · exact lt_of_lt_of_le hyz' (List.rel_of_pairwise_cons hrest hx)

/-- **Entries in key order** are in ascending order, one for each key, whatever `entries` are. -/
theorem pairwise_inKeyOrder (key : α → String) (entries : List α) :
    (inKeyOrder key entries).Pairwise fun x y => key x < key y := by
  have htrans : ∀ x y z : α, decide (key x ≤ key y) = true → decide (key y ≤ key z) = true →
      decide (key x ≤ key z) = true := fun x y z hxy hyz =>
    decide_eq_true (le_trans (of_decide_eq_true hxy) (of_decide_eq_true hyz))
  have htotal : ∀ x y : α, (decide (key x ≤ key y) || decide (key y ≤ key x)) = true :=
    fun x y => by
    simpa using le_total (key x) (key y)
  have hsorted := List.pairwise_mergeSort htrans htotal entries
  exact pairwise_keepLast (hsorted.imp fun h => of_decide_eq_true h)

/-- Entries that stand in ascending order are in key order: `inKeyOrder` leaves them as they are. -/
theorem inKeyOrder_of_pairwise {entries : List α} (h : entries.Pairwise fun x y => key x < key y) :
    inKeyOrder key entries = entries := by
  rw [inKeyOrder, List.mergeSort_of_pairwise (h.imp fun hlt => decide_eq_true (le_of_lt hlt))]
  induction entries using keepLast.induct key with
  | case1 => rfl
  | case2 y => rfl
  | case3 y z rest hyz ih =>
    exact absurd hyz (ne_of_lt (List.rel_of_pairwise_cons h List.mem_cons_self))
  | case4 y z rest hyz ih => rw [keepLast, if_neg hyz, ih (List.Pairwise.of_cons h)]

/-- **Behind the last key of a page comes the rest** of the listing: `behind` this key and `drop size` are the same. -/
theorem behind_getLast {entries : List α} {size : Nat} {last : α}
    (h : entries.Pairwise fun x y => key x < key y)
    (hlast : (entries.take size).getLast? = some last) :
    behind key (some (key last)) entries = entries.drop size := by
  have hsplit : (entries.take size ++ entries.drop size).Pairwise fun x y => key x < key y := by
    rw [List.take_append_drop]
    exact h
  obtain ⟨htake, -, hacross⟩ := List.pairwise_append.1 hsplit
  have hmem : last ∈ entries.take size := List.mem_of_getLast? hlast
  -- no entry of the page is behind its last one
  have hpage : (entries.take size).filter (fun x => decide (key last < key x)) = [] := by
    rw [List.filter_eq_nil_iff]
    intro x hx hlt
    rw [decide_eq_true_eq] at hlt
    obtain ⟨front, hfront⟩ := List.getLast?_eq_some_iff.1 hlast
    rw [hfront] at htake hx
    rcases List.mem_append.1 hx with hx | hx
    · exact absurd hlt (lt_asymm ((List.pairwise_append.1 htake).2.2 x hx last List.mem_cons_self))
    · rw [List.mem_singleton.1 hx] at hlt
      exact absurd hlt (lt_irrefl _)
  -- all entries behind the page are
  have hrest : (entries.drop size).filter (fun x => decide (key last < key x))
      = entries.drop size := by
    rw [List.filter_eq_self]
    intro x hx
    exact decide_eq_true (hacross last hmem x hx)
  calc behind key (some (key last)) entries
      = (entries.take size ++ entries.drop size).filter (fun x => decide (key last < key x)) := by
        rw [List.take_append_drop]; rfl
    _ = entries.drop size := by rw [List.filter_append, hpage, hrest, List.nil_append]

/-- Of what is `behind` a `place`, a `later` place leaves what it leaves of the whole. -/
theorem behind_behind {place later : Option String} {entries : List α}
    (h : ∀ p ∈ place, ∀ l ∈ later, p < l) (hsome : later ≠ none) :
    behind key later (behind key place entries) = behind key later entries := by
  obtain ⟨l, rfl⟩ := Option.ne_none_iff_exists'.1 hsome
  rw [behind, behind, behind, List.filter_filter]
  apply List.filter_congr
  intro x _
  by_cases hx : l < key x
  · have hplace : (place.all fun p => decide (p < key x)) = true := by
      rw [Option.all_eq_true]
      exact fun p hp => decide_eq_true (lt_trans (h p hp l rfl) hx)
    rw [hplace, Bool.and_true]
  · rw [Option.all_some, decide_eq_false hx, Bool.false_and]

/-- Behind the last key of a page comes the rest, also when the page is a later one, cut from the `rest` behind a
`place`. -/
theorem behind_getLast_of_behind {place : Option String} {entries rest : List α} {size : Nat}
    {last : α} (h : entries.Pairwise fun x y => key x < key y)
    (hrest : behind key place entries = rest) (hlast : (rest.take size).getLast? = some last) :
    behind key (some (key last)) entries = rest.drop size := by
  have hasc : rest.Pairwise fun x y => key x < key y := by
    rw [← hrest]
    exact h.filter _
  rw [← behind_getLast hasc hlast, ← hrest, behind_behind _ (Option.some_ne_none _)]
  rintro p hp later ⟨⟩
  obtain rfl : place = some p := hp
  have hmem : last ∈ behind key (some p) entries := by
    rw [hrest]
    exact List.mem_of_mem_take (List.mem_of_getLast? hlast)
  exact (mem_behind_some.1 hmem).2

end KeyOrder

/-! ## Pages of one size -/

/-- The page of a listing behind a token, in pages of `size` entries. -/
def pageOf (size : Nat) (entries : List ObjectRecord) (token : Option String) : ObjectPage :=
  let (records, next) := firstPage (·.key) size (behind (·.key) token entries)
  ⟨records, next⟩

/-- **A listing is cut into pages of one size**, of which each leads to the one behind its last key. What follows from
the pages is left open: it has to follow from each page and from the pages behind it. The induction is on the number of
the objects that are left. -/
theorem exists_paging {σ : Type} {size : Nat} {entries : List ObjectRecord} {allowed : Option String → Prop}
    {follows : Option String → σ → List ObjectPage → Prop} (hsize : 1 ≤ size)
    (hentries : entries.Pairwise fun a b => a.key < b.key) (hnil : ∀ token s, follows token s [])
    (hallowed : ∀ r ∈ entries, allowed (some r.key))
    (hpage : ∀ token s, allowed token → ∃ s', ∀ pages, follows (pageOf size entries token).next s' pages →
      follows token s (pageOf size entries token :: pages))
    {token : Option String} (s : σ) (htoken : allowed token) {rest : List ObjectRecord}
    (hrest : behind (·.key) token entries = rest) : ∃ pages, Paging pages rest ∧ follows token s pages := by
  induction hlen : rest.length using Nat.strong_induction_on generalizing token rest s with
  | _ n ih =>
    obtain ⟨s', hpages⟩ := hpage token s htoken
    rw [pageOf, hrest] at hpages
    by_cases hmore : size < rest.length
    · -- a page of this size, and behind its last key the pages of the rest
      obtain ⟨last, hlast⟩ : ∃ last, (rest.take size).getLast? = some last := by
        have htake : (rest.take size).length = size := List.length_take_of_le (le_of_lt hmore)
        rw [← Option.isSome_iff_exists, List.getLast?_isSome]
        exact List.ne_nil_of_length_pos (by omega)
      have hmem : last ∈ entries := by
        have hlast' := List.mem_of_mem_take (List.mem_of_getLast? hlast)
        rw [← hrest] at hlast'
        exact List.mem_of_mem_filter hlast'
      have hbehind : behind (·.key) (some last.key) entries = rest.drop size :=
        behind_getLast_of_behind hentries hrest hlast
      have hnext : firstPage (·.key) size rest = (rest.take size, some last.key) := by
        rw [firstPage, if_pos hmore, hlast]
        rfl
      rw [hnext] at hpages
      obtain ⟨pages, hpaging, hfollows⟩ := ih (rest.drop size).length
        (by rw [List.length_drop]; omega) s' (hallowed last hmem) hbehind rfl
      refine ⟨⟨rest.take size, some last.key⟩ :: pages, ?_, hpages pages hfollows⟩
      have hpaging' := Paging.more (rest.take size) last.key hpaging
      rwa [List.take_append_drop] at hpaging'
    · -- the last page
      have hnext : firstPage (·.key) size rest = (rest, none) := by
        rw [firstPage, if_neg hmore, List.take_of_length_le (not_lt.1 hmore)]
      rw [hnext] at hpages
      exact ⟨[⟨rest, none⟩], Paging.last rest, hpages [] (hnil _ _)⟩

namespace MemoryStore

variable {m : MemoryStore} {q : ListQuery}

/-- **A store in memory that does not change**: its objects exist from the start, `availableFrom = 0`, and no listing
fails. -/
structure Steady (m : MemoryStore) : Prop where
  /-- No call for a page fails. -/
  no_failures : m.failingCalls = []
  /-- Every object exists from the start. -/
  available : ∀ o ∈ m.objects, o.availableFrom = 0

/-- What a steady store in memory holds: the records in key order, and the contents as they are at the start. -/
def snapshot (m : MemoryStore) : Snapshot where
  records := (m.existing 0).map (·.record)
  ascending := by
    rw [List.pairwise_map]
    exact pairwise_inKeyOrder (fun o : MemoryObject => o.record.key) _
  content := m.content 0

/-- The objects of a steady store are there at all times: those of `clock` are those of `0`. -/
theorem Steady.existing_eq (hm : m.Steady) (clock : Nat) : m.existing clock = m.existing 0 := by
  rw [existing, existing]
  congr 1
  apply List.filter_congr
  intro o ho
  rw [hm.available o ho]
  simp

/-- A steady store whose objects stand in ascending order has them as they stand. -/
theorem Steady.existing_eq_objects (hm : m.Steady)
    (h : m.objects.Pairwise fun a b => a.record.key < b.record.key) (clock : Nat) : m.existing clock = m.objects := by
  have hall : (m.objects.filter fun o => decide (o.availableFrom ≤ 0)) = m.objects := by
    rw [List.filter_eq_self]
    exact fun o ho => decide_eq_true (le_of_eq (hm.available o ho))
  rw [hm.existing_eq, existing, hall, inKeyOrder_of_pairwise h]

/-- A steady store whose objects stand in ascending order holds their records as they stand. -/
theorem Steady.records_snapshot (hm : m.Steady)
    (h : m.objects.Pairwise fun a b => a.record.key < b.record.key) :
    m.snapshot.records = m.objects.map (·.record) := by
  show (m.existing 0).map (·.record) = m.objects.map (·.record)
  rw [hm.existing_eq_objects h]

/-- The page behind a token, when nothing fails and it is not an empty first page: `pageOf` with the size of the
store. -/
def pageBehind (m : MemoryStore) (q : ListQuery) (token : Option String) : ObjectPage :=
  pageOf (max 1 m.pageSize) (m.snapshot.listing q) token

/-- The page of a steady store behind a token, when it is not an empty first page, whatever `clock` and `calls` are. -/
theorem Steady.page_eq (hm : m.Steady) {token : Option String} (clock calls : Nat)
    (h : (m.leadEmpty && token.isNone) = false) :
    m.page clock calls q token = .ok (m.pageBehind q token) := by
  rw [page, hm.no_failures, if_neg List.not_mem_nil, h, hm.existing_eq clock]
  rfl

/-- A steady store answers a call for a page as it does at any time, and the record of the call goes on by its
latency. -/
theorem Steady.askPage_eq (hm : m.Steady) {token : Option String} (v : Visit)
    (h : (m.leadEmpty && token.isNone) = false) :
    m.toStore.askPage q token v
      = (.ok (m.pageBehind q token),
        ({ v with clock := v.clock + m.latency }).notePage q token) := by
  rw [ObjectStore.askPage, ObjectStore.answerPage, toStore]
  simp only [hm.page_eq _ _ h]

/-- A steady store answers a call for the content of `key` as its `snapshot` does. -/
theorem Steady.askObject_fst (hm : m.Steady) (key : String) (v : Visit) :
    (m.toStore.askObject key v).1 = m.snapshot.content key := by
  show m.content (v.clock + m.latency) key = m.content 0 key
  rw [content, content, hm.existing_eq]

/-- **A steady store delivers what is behind a token**, the `rest`, in pages of its size: by `exists_paging`. -/
theorem Steady.exists_pages (hm : m.Steady) {token : Option String} {rest : List ObjectRecord}
    (hrest : behind (·.key) token (m.snapshot.listing q) = rest)
    (htoken : (m.leadEmpty && token.isNone) = false) (v : Visit) :
    ∃ pages, Paging pages rest ∧ Delivers m.toStore.askPage q token v pages :=
  exists_paging (le_max_left 1 m.pageSize) (m.snapshot.ascending_listing q) (fun _ _ => trivial) (by simp)
    (fun _ v htoken => ⟨_, fun _ hpages => ⟨_, hm.askPage_eq v htoken, hpages⟩⟩) v htoken hrest

/-- **A steady store in memory serves its listings**, with an empty first page or without. An empty page has the empty
token, and no key of a listing under some text is empty (`q.under ≠ ""`), so that everything is behind it. -/
theorem Steady.serves (hm : m.Steady) (hq : q.under ≠ "") :
    m.snapshot.Serves m.toStore.askPage q := by
  intro v
  by_cases hlead : m.leadEmpty = true
  · -- behind the empty token comes the whole listing
    have hbehind : behind (·.key) (some "") (m.snapshot.listing q) = m.snapshot.listing q := by
      rw [behind, List.filter_eq_self]
      intro r hr
      obtain ⟨hbegins, -, -⟩ := ListQuery.admits_iff.1 (Snapshot.mem_listing.1 hr).2
      rw [Option.all_some, decide_eq_true_eq, String.lt_iff_toList_lt, String.toList_empty]
      cases hkey : r.key.toList with
      | nil =>
        -- an empty key does not begin with the text
        rw [hkey, List.prefix_nil, String.toList_eq_nil_iff] at hbegins
        exact absurd hbegins hq
      | cons c cs => exact List.nil_lt_cons c cs
    obtain ⟨pages, hpaging, hdelivers⟩ := hm.exists_pages hbehind (by simp)
      (({ v with clock := v.clock + m.latency }).notePage q none)
    refine ⟨⟨[], some ""⟩ :: pages, Paging.more [] "" hpaging, _, ?_, hdelivers⟩
    rw [ObjectStore.askPage, ObjectStore.answerPage, toStore]
    simp [page, hm.no_failures, hlead]
  · exact hm.exists_pages (behind_none _ _) (by simpa using hlead) v

end MemoryStore

end PayloadGate
