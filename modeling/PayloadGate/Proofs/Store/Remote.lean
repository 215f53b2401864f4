import PayloadGate.Proofs.Store.Behind
import PayloadGate.Proofs.Store.Exchange
import PayloadGate.Proofs.Store.Steady
import PayloadGate.Rehearsal.Bucket
import Mathlib.Data.List.TakeWhile

/-! # Services that list what they hold

A service lists the objects behind a key, without an end, in pages of any sizes. Its callers find the end of a listing
among the entries, and then ask for no further page.

* **`Replies`**, **`Lists`** — a service that lists what it holds; the pages may be cut differently each time.
* **`ObjectPage.cut`**, **`cutAt`** — pages up to the end of a listing.
* **`Lists.servesBehind`** — callers are served every listing from behind its start.
* **`Cursor.Yields`**, **`Lists.yields`** — going through a listing, and the number of pages that it takes.
* **`Rehearsal.BucketService.lists`** — a service with one bucket lists what it holds. -/

namespace PayloadGate

variable {bucket : Visit → RemoteBucket} {store : Snapshot} {q : ListQuery} {stop token : Option String} {v : Visit}
  {page : ObjectPage} {pages : List ObjectPage} {records : List ObjectRecord}

/-! ## Replies -/

/-- What a service tells of an object: its key and its time. -/
def ObjectRecord.entry (r : ObjectRecord) : ListedEntry := ⟨some r.key, some r.created⟩

/-- The reply that tells a page: its entries, and its token. -/
def ObjectPage.reply (page : ObjectPage) : PageReply := ⟨page.records.map (·.entry), page.next⟩

/-- **A call for a page** to a service, which may have changed its ways since the last one: `bucket v` is what it is at
the visit `v`. -/
def askRemote (bucket : Visit → RemoteBucket) (q : ListQuery) (token : Option String) (v : Visit) :
    Except Failure ObjectPage × Visit :=
  (bucket v).toStore.askPage q token v

/-- **A call for the content of the object `key`.** -/
def readRemote (bucket : Visit → RemoteBucket) (key : String) (v : Visit) : Except Failure (List UInt8) × Visit :=
  (bucket v).toStore.askObject key v

/-- The page that a call comes to, and the record of the call. -/
theorem askRemote_eq (bucket : Visit → RemoteBucket) (q : ListQuery) (token : Option String) (v : Visit) :
    askRemote bucket q token v = (readPage q ((bucket v).page (q.request token)), v.notePage q token) := rfl

/-- **A service replies with `pages`**, asked for the page of a token, and then for the page of each token that it has
given. -/
def Replies (bucket : Visit → RemoteBucket) (q : ListQuery) : Option String → Visit → List ObjectPage → Prop
  | _, _, [] => True
  | token, v, page :: pages =>
    (bucket v).page (q.request token) = .ok page.reply ∧ Replies bucket q page.next (v.notePage q token) pages

/-- A listing without its end. The service is told no other, so its pages may reach behind `q.stop`. -/
def ListQuery.endless (q : ListQuery) : ListQuery := ⟨q.under, q.start, none⟩

/-- **A service lists what it holds**: the keys under a text that lie strictly behind the start of the listing, in
ascending order, each with the time of its object, in pages of any size. -/
structure Lists (bucket : Visit → RemoteBucket) (store : Snapshot) : Prop where
  /-- Whenever a listing is begun, it is told completely, in some number of pages. -/
  pages : ∀ q v, ∃ pages, Paging pages (store.listingBehind q.endless) ∧ Replies bucket q none v pages
  /-- The contents. -/
  content : ∀ v key, (bucket v).read key = store.content key

/-! ## The end of a listing -/

/-- Whether a key lies at or behind the end of a listing, `stop ≤ key`; without an end none does. -/
def reaches (stop : Option String) (key : String) : Bool := stop.any fun s => decide (s ≤ key)

/-- Behind a key that reaches the end are only such keys, in ascending order. -/
theorem pairwise_reaches (h : records.Pairwise fun a b => a.key < b.key) (stop : Option String) :
    records.Pairwise fun a b => reaches stop a.key = true → reaches stop b.key = true := by
  refine h.imp fun {a b} hab ha => ?_
  rw [reaches, Option.any_eq_true] at ha ⊢
  obtain ⟨s, hs, hle⟩ := ha
  exact ⟨s, hs, decide_eq_true (le_trans (of_decide_eq_true hle) (le_of_lt hab))⟩

/-- What comes before the end does not reach it: `key < s` is the negation of `s ≤ key`. -/
theorem all_lt_eq_not_reaches (stop : Option String) (key : String) :
    (stop.all fun s => decide (key < s)) = !reaches stop key := by
  cases stop with
  | none => rfl
  | some s => simp [reaches, ← not_lt]

/-- Objects that do not reach the end are all taken. -/
theorem takeWhile_of_not_any (h : (records.any fun r => reaches stop r.key) = false) :
    (records.takeWhile fun r => !reaches stop r.key) = records :=
  List.takeWhile_eq_self_iff.2 fun r hr => by simpa using List.any_eq_false.1 h r hr

/-- A listing with an end holds what of the endless one does not reach it. -/
theorem listingBehind_eq_filter (store : Snapshot) (q : ListQuery) :
    store.listingBehind q = (store.listingBehind q.endless).filter fun r => !reaches q.stop r.key := by
  have hadmits : ∀ r : ObjectRecord, q.admits r.key = (q.endless.admits r.key && !reaches q.stop r.key) := by
    intro r
    rw [← all_lt_eq_not_reaches, ListQuery.admits, ListQuery.admits, ListQuery.endless, Option.all_none,
      Bool.and_true]
  rw [Snapshot.listingBehind, Snapshot.listing_eq_filter hadmits, Snapshot.listingBehind, List.filter_filter,
    List.filter_filter]
  exact List.filter_congr fun r _ => Bool.and_comm _ _

/-- **A page up to the end of a listing.** Behind the end there is no page: the token is dropped when one of the objects
reaches it. -/
def ObjectPage.cut (stop : Option String) (page : ObjectPage) : ObjectPage :=
  if page.records.any fun r => reaches stop r.key then ⟨page.records.takeWhile fun r => !reaches stop r.key, none⟩
  else page

/-- **Pages up to the end of a listing**: those that do not reach it, and the first one that does, up to it. -/
def cutAt (stop : Option String) : List ObjectPage → List ObjectPage
  | [] => []
  | page :: pages =>
    if page.records.any fun r => reaches stop r.key then [page.cut stop] else page :: cutAt stop pages

/-- The objects before the end are read off their entries, and whether the end is among them: `takeWhile` and `any` of
`reaches`. -/
theorem readEntries_entries (stop : Option String) (records : List ObjectRecord) :
    readEntries stop (records.map (·.entry))
      = .ok (records.takeWhile fun r => !reaches stop r.key, records.any fun r => reaches stop r.key) := by
  induction records with
  | nil => rfl
  | cons r records ih =>
    rw [List.map_cons, ObjectRecord.entry, readEntries, ih, List.takeWhile_cons, List.any_cons]
    cases hr : reaches stop r.key with
    | true =>
      rw [reaches] at hr
      rw [if_pos hr]
      rfl
    | false =>
      rw [reaches] at hr
      rw [if_neg (by rw [hr]; simp)]
      rfl

/-- **A page is read up to the end** of the listing: `readPage` of a reply is `page.cut q.stop`. -/
theorem readPage_reply (q : ListQuery) (page : ObjectPage) :
    readPage q (.ok page.reply) = .ok (page.cut q.stop) := by
  rw [ObjectPage.cut]
  cases hany : page.records.any fun r => reaches q.stop r.key with
  | true => simp [readPage, ObjectPage.reply, readEntries_entries, hany, bind, Except.bind]
  | false =>
    simp [readPage, ObjectPage.reply, readEntries_entries, hany, bind, Except.bind, takeWhile_of_not_any hany]

/-- The pages up to the end make up the listing up to its end. -/
theorem paging_cutAt (h : Paging pages records) (hrecords : records.Pairwise fun a b => a.key < b.key)
    (stop : Option String) : Paging (cutAt stop pages) (records.filter fun r => !reaches stop r.key) := by
  induction h with
  | last records =>
    rw [cutAt, ObjectPage.cut, ← takeWhile_not_eq_filter (pairwise_reaches hrecords stop)]
    cases hany : records.any fun r => reaches stop r.key with
    | true => exact .last _
    | false =>
      rw [takeWhile_of_not_any hany]
      exact .last _
  | @more records token pages rest hpaging ih =>
    obtain ⟨hpage, hrest, -⟩ := List.pairwise_append.1 hrecords
    have hmonotone := List.pairwise_append.1 (pairwise_reaches hrecords stop)
    rw [cutAt, ObjectPage.cut, List.filter_append, ← takeWhile_not_eq_filter (pairwise_reaches hpage stop)]
    cases hany : records.any fun r => reaches stop r.key with
    | true =>
      -- nothing behind the page comes before the end
      obtain ⟨r, hr, hreaches⟩ := List.any_eq_true.1 hany
      have hnone : (rest.filter fun r => !reaches stop r.key) = [] := by
        simpa using fun x hx => hmonotone.2.2 r hr x hx hreaches
      rw [hnone, List.append_nil]
      exact .last _
    | false =>
      rw [takeWhile_of_not_any hany]
      exact .more _ token (ih hrest)

/-- **Callers are delivered the pages up to the end**, `cutAt q.stop pages`, when the service replies with `pages`. -/
theorem delivers_cutAt (h : Replies bucket q token v pages) :
    Delivers (askRemote bucket) q token v (cutAt q.stop pages) := by
  induction pages generalizing token v with
  | nil => trivial
  | cons page pages ih =>
    obtain ⟨hreply, hmore⟩ := h
    have hask : askRemote bucket q token v = (.ok (page.cut q.stop), v.notePage q token) := by
      rw [askRemote_eq, hreply, readPage_reply]
    rw [cutAt]
    cases hany : page.records.any fun r => reaches q.stop r.key with
    | true => exact ⟨_, hask, trivial⟩
    | false =>
      rw [ObjectPage.cut, hany, if_neg Bool.false_ne_true] at hask
      exact ⟨_, hask, ih hmore⟩

/-- The pages of a listing up to its end make up `store.listingBehind q`, when the service replies with pages of the
endless one. -/
theorem paging_cutAt_listingBehind (h : Paging pages (store.listingBehind q.endless)) :
    Paging (cutAt q.stop pages) (store.listingBehind q) := by
  rw [listingBehind_eq_filter]
  exact paging_cutAt h ((store.ascending_listing q.endless).filter _) q.stop

/-- **A service serves every listing from behind its start**, whatever its end is. -/
theorem Lists.servesBehind (h : Lists bucket store) (q : ListQuery) : store.ServesBehind (askRemote bucket) q := by
  intro v
  obtain ⟨pages, hpaging, hreplies⟩ := h.pages q v
  exact ⟨cutAt q.stop pages, paging_cutAt_listingBehind hpaging, delivers_cutAt hreplies⟩

/-- **How many pages there are up to the end**: those that do not reach it, and the one that does, if there is one. -/
theorem length_cutAt (stop : Option String) (pages : List ObjectPage) :
    (cutAt stop pages).length
      = min pages.length ((pages.takeWhile fun p => p.records.all fun r => !reaches stop r.key).length + 1) := by
  induction pages with
  | nil => rfl
  | cons page pages ih =>
    have hall : (page.records.all fun r => !reaches stop r.key) = !page.records.any fun r => reaches stop r.key := by
      rw [List.not_any_eq_all_not]
    rw [cutAt, List.takeWhile_cons, hall]
    cases hany : page.records.any fun r => reaches stop r.key with
    | true => simp
    | false => simp [ih]

/-! ## Going through a listing -/

namespace Cursor

variable {ask : ListQuery → Option String → Visit → Except Failure ObjectPage × Visit} {c c' : Cursor} {v' : Visit}

/-- **Going through a listing** yields objects: the next object is asked for until there is none. The state behind the
last answer is a part of the relation, for the number of calls. -/
inductive Yields (ask : ListQuery → Option String → Visit → Except Failure ObjectPage × Visit) :
    Cursor → Visit → List ObjectRecord → Visit → Prop where
  /-- There is none. -/
  | ended {pages : Nat} {c c' : Cursor} {v v' : Visit} (h : c.next? ask pages v = some (.ok none, c', v')) :
      Yields ask c v [] v'
  /-- There is one, and further ones. -/
  | more {pages : Nat} {c c' : Cursor} {v v' v'' : Visit} {r : ObjectRecord} {rest : List ObjectRecord}
      (h : c.next? ask pages v = some (.ok (some r), c', v')) (hrest : Yields ask c' v' rest v'') :
      Yields ask c v (r :: rest) v''

/-- **The next object does not depend on how many pages may be fetched**, `n` or `m`, as long as they are enough. -/
theorem next?_eq_of_some {n m : Nat} {x y : Except Failure (Option ObjectRecord) × Cursor × Visit}
    (hx : c.next? ask n v = some x) (hy : c.next? ask m v = some y) : x = y := by
  induction n generalizing m c v with
  | zero =>
    cases hlook : c.look with
    | record r rest =>
      rw [next?_of_record hlook] at hx hy
      exact Option.some.inj (hx.symm.trans hy)
    | ended =>
      rw [next?_of_ended hlook] at hx hy
      exact Option.some.inj (hx.symm.trans hy)
    | page => exact absurd ((next?_zero_of_page hlook v).symm.trans hx) (by simp)
  | succ n ih =>
    cases hlook : c.look with
    | record r rest =>
      rw [next?_of_record hlook] at hx hy
      exact Option.some.inj (hx.symm.trans hy)
    | ended =>
      rw [next?_of_ended hlook] at hx hy
      exact Option.some.inj (hx.symm.trans hy)
    | page =>
      -- only a page costs fuel, and both have some of it left, or one of them would have no answer
      cases m with
      | zero => exact absurd ((next?_zero_of_page hlook v).symm.trans hy) (by simp)
      | succ m =>
        rw [next?_succ_of_page hlook] at hx hy
        rcases hask : ask c.query c.token v with ⟨reply, v'⟩
        rw [hask] at hx hy
        cases reply with
        | error f => exact Option.some.inj (hx.symm.trans hy)
        | ok page => exact ih hx hy

/-- **What going through a listing yields is determined**: objects and state are the same in any two derivations. -/
theorem Yields.unique {xs ys : List ObjectRecord} {v' v'' : Visit} (h : Yields ask c v xs v')
    (h' : Yields ask c v ys v'') : xs = ys ∧ v' = v'' := by
  induction h generalizing ys v'' with
  | ended h =>
    cases h' with
    | ended h' =>
      obtain ⟨-, -, rfl⟩ := by simpa using next?_eq_of_some h h'
      exact ⟨rfl, rfl⟩
    | more h' => exact absurd (next?_eq_of_some h h') (by simp)
  | more h _ ih =>
    cases h' with
    | ended h' => exact absurd (next?_eq_of_some h h') (by simp)
    | more h' hrest' =>
      obtain ⟨rfl, rfl, rfl⟩ := by simpa using next?_eq_of_some h h'
      obtain ⟨rfl, rfl⟩ := ih hrest'
      exact ⟨rfl, rfl⟩

/-- A page that has been fetched changes nothing in what is yielded. -/
theorem Yields.of_page {xs : List ObjectRecord} {v'' : Visit} {page : ObjectPage} (h : c.look = .page)
    (hask : ask c.query c.token v = (.ok page, v')) (hyields : Yields ask (c.receive (.ok page)) v' xs v'') :
    Yields ask c v xs v'' := by
  have hnext : ∀ n, c.next? ask (n + 1) v = (c.receive (.ok page)).next? ask n v' := fun n => by
    rw [next?_succ_of_page h, hask]
  cases hyields with
  | ended hended => exact .ended ((hnext _).trans hended)
  | more hmore hrest => exact .more ((hnext _).trans hmore) hrest

/-- **What lies `ahead` is yielded**, with as many calls for pages as it has. The induction is on what lies ahead. -/
theorem Yields.of_ahead (hcalls : ∀ q token v, (ask q token v).2.calls = v.calls + 1) {ahead : List Exchange}
    (h : c.Ahead ask v ahead) :
    ∃ xs v', Yields ask c v xs v' ∧ Exchange.answers ahead = xs.map (fun r => .ok (some r))
      ∧ v'.calls = v.calls + (Exchange.calls ahead).length := by
  induction h with
  | @ended c v h => exact ⟨[], v, .ended (next?_of_ended h 0 v), rfl, rfl⟩
  | @record c rest v r ahead h _ ih =>
    obtain ⟨xs, v', hyields, hanswers, hlength⟩ := ih
    refine ⟨r :: xs, v', .more (next?_of_record h 0 v) hyields, ?_, hlength⟩
    rw [Exchange.object, Exchange.answers, hanswers, List.map_cons]
  | @page c v v₁ page ahead h hask _ ih =>
    obtain ⟨xs, v', hyields, hanswers, hlength⟩ := ih
    have hone : v₁.calls = v.calls + 1 := by simpa [hask] using hcalls c.query c.token v
    refine ⟨xs, v', .of_page h hask hyields, hanswers, ?_⟩
    rw [hlength, hone, Exchange.calls, List.length_cons]
    omega

/-- **Going through the `pages` of a listing** yields their objects, each once and in order, and fetches every page
once. -/
theorem yields_of_delivers (hcalls : ∀ q token v, (ask q token v).2.calls = v.calls + 1) (hbuffer : c.buffer = [])
    (hexhausted : c.exhausted = false) (hpaging : Paging pages records)
    (hask : Delivers ask c.query c.token v pages) :
    ∃ v', Yields ask c v records v' ∧ v'.calls = v.calls + pages.length := by
  obtain ⟨xs, v', hyields, hanswers, hlength⟩ :=
    Yields.of_ahead hcalls (ahead_of_delivers hbuffer hexhausted hpaging hask)
  rw [answers_exchanges, ← hpaging.records_eq] at hanswers
  obtain rfl : records = xs := List.map_injective_iff.2 (fun a b hab => by simpa using hab) hanswers
  refine ⟨v', hyields, ?_⟩
  rw [hlength, calls_exchanges]
  simp

end Cursor

/-- **Going through a listing of a service** yields the objects behind its start and before its end, each once and in
order. When the service replies with pages, those are fetched that do not reach the end, and the one that does. -/
theorem Lists.yields (hpaging : Paging pages (store.listingBehind q.endless))
    (hreplies : Replies bucket q none v pages) :
    ∃ v', Cursor.Yields (askRemote bucket) (.start q) v (store.listingBehind q) v'
      ∧ v'.calls = v.calls
        + min pages.length ((pages.takeWhile fun p => p.records.all fun r => !reaches q.stop r.key).length + 1) := by
  rw [← length_cutAt]
  exact Cursor.yields_of_delivers (fun _ _ _ => rfl) rfl rfl (paging_cutAt_listingBehind hpaging)
    (delivers_cutAt hreplies)

/-! ## A service with one bucket -/

/-- A listing without an end holds what comes behind its start, of all keys under its text. -/
theorem listingBehind_endless (store : Snapshot) (q : ListQuery) :
    store.listingBehind q.endless
      = behind (·.key) q.start (store.records.filter fun r => q.under.toList.isPrefixOf r.key.toList) := by
  rw [Snapshot.listingBehind, Snapshot.listing, behind, List.filter_filter, List.filter_filter]
  refine List.filter_congr fun r _ => ?_
  rw [ListQuery.admits, ListQuery.isBehindStart, ListQuery.endless, Option.all_none, Bool.and_true]
  cases q.start with
  | none => simp
  | some start =>
    rw [Option.all_some, Option.all_some]
    by_cases hlt : start < r.key
    · simp [hlt, le_of_lt hlt]
    · simp [hlt]

namespace Rehearsal

/-- An object as a listing tells of it; one without a time is none that `Answers` lets through. -/
def StoredObject.record (o : StoredObject) : ObjectRecord := ⟨o.key, o.modified.getD ⟨0, 0⟩⟩

namespace BucketService

variable {s : BucketService} {name : String}

/-- **A service that lists its objects**: it refuses no listing, every entry has a key, and every object has a time. -/
structure Answers (s : BucketService) : Prop where
  /-- It refuses no listing. -/
  lists : s.refusesLists = false
  /-- Every entry has a key. -/
  named : s.nameless = false
  /-- Every object has a time. -/
  timed : ∀ o ∈ s.ordered, o.modified ≠ none

/-- What a service with one bucket `name` holds. -/
def snapshot (s : BucketService) (name : String) : Snapshot where
  records := s.ordered.map (·.record)
  ascending := List.pairwise_map.2 (pairwise_inKeyOrder (·.key) s.objects)
  content := (s.bucket name).read

/-- It replies with a page of its size, behind the token of the request or, on the first page, behind its start. -/
theorem Answers.page_eq (h : s.Answers) (r : PageRequest) :
    (s.bucket name).page r = .ok (pageOf (max 1 s.pageSize)
      ((s.snapshot name).records.filter fun o => r.under.toList.isPrefixOf o.key.toList)
      (r.token.or r.after)).reply := by
  -- every object of a service that `Answers` has a name and a time, so that its entry is that of its record
  have hentries : ∀ os : List StoredObject, (∀ o ∈ os, o ∈ s.ordered) →
      (os.map fun o => (⟨some o.key, o.modified⟩ : ListedEntry)) = (os.map (·.record)).map (·.entry) := by
    intro os hos
    rw [List.map_map]
    refine List.map_congr_left fun o ho => ?_
    obtain ⟨t, ht⟩ := Option.ne_none_iff_exists'.1 (h.timed o (hos o ho))
    simp [StoredObject.record, ObjectRecord.entry, ht]
  have hrecords : (s.snapshot name).records.filter (fun o => r.under.toList.isPrefixOf o.key.toList)
      = (s.ordered.filter fun o => r.under.toList.isPrefixOf o.key.toList).map (·.record) := by
    rw [snapshot, List.filter_map]
    rfl
  have hbehind : behind (·.key) (r.token.or r.after)
        ((s.ordered.filter fun o => r.under.toList.isPrefixOf o.key.toList).map (·.record))
      = (behind (·.key) (r.token.or r.after)
          (s.ordered.filter fun o => r.under.toList.isPrefixOf o.key.toList)).map (·.record) := by
    rw [behind, List.filter_map]
    rfl
  have hpage : (s.bucket name).page r = .ok (s.page r) := by
    rw [bucket]
    simp [h.lists]
  rw [hpage, page, hrecords, pageOf, hbehind]
  have hleft : ∀ o ∈ behind (·.key) (r.token.or r.after)
      (s.ordered.filter fun o => r.under.toList.isPrefixOf o.key.toList), o ∈ s.ordered :=
    fun o ho => List.mem_of_mem_filter (List.mem_of_mem_filter ho)
  generalize behind (·.key) (r.token.or r.after)
    (s.ordered.filter fun o => r.under.toList.isPrefixOf o.key.toList) = left at hleft
  simp only [h.named, Bool.false_eq_true, if_false, firstPage, ObjectPage.reply, ← List.map_take, List.length_map,
    List.getLast?_map, Option.map_map]
  rw [hentries _ fun o ho => hleft o (List.mem_of_mem_take ho)]
  rfl

/-- **A service with one bucket lists what it holds**, in pages of one size, so that `Lists` is not an empty
assumption. -/
theorem lists (h : s.Answers) (name : String) : Lists (fun _ => s.bucket name) (s.snapshot name) := by
  refine ⟨fun q v => ?_, fun _ _ => rfl⟩
  have hpairwise : ((s.snapshot name).records.filter fun o => q.under.toList.isPrefixOf o.key.toList).Pairwise
      fun a b => a.key < b.key := (s.snapshot name).ascending.filter _
  rw [listingBehind_endless]
  generalize hall : ((s.snapshot name).records.filter fun o => q.under.toList.isPrefixOf o.key.toList) = all
    at hpairwise
  -- behind a key of the listing comes the same, with the start of the listing and without it
  have hsame : ∀ token, (∀ t ∈ token, ∃ r ∈ behind (·.key) q.start all, r.key = t) →
      behind (·.key) (token.or q.start) all = behind (·.key) token (behind (·.key) q.start all) := by
    intro token htoken
    cases token with
    | none => rw [Option.none_or, behind_none]
    | some t =>
      rw [Option.some_or, behind_behind (fun p hp l hl => ?_) (Option.some_ne_none t)]
      obtain rfl := Option.some.inj hl
      obtain ⟨r, hr, rfl⟩ := htoken t rfl
      rw [show q.start = some p from hp] at hr
      exact (mem_behind_some.1 hr).2
  have hleft : (behind (·.key) q.start all).Pairwise fun a b => a.key < b.key := hpairwise.filter _
  have hallowed : ∀ r ∈ behind (·.key) q.start all, ∀ t ∈ some r.key, ∃ r' ∈ behind (·.key) q.start all, r'.key = t :=
    fun r hr t ht => ⟨r, hr, Option.some.inj ht⟩
  have hdone : ∀ token v, Replies (fun _ => s.bucket name) q token v [] := fun _ _ => trivial
  have hpage : ∀ (token : Option String) (v : Visit), (∀ t ∈ token, ∃ r ∈ behind (·.key) q.start all, r.key = t) →
      ∃ v', ∀ pages,
        Replies (fun _ => s.bucket name) q (pageOf (max 1 s.pageSize) (behind (·.key) q.start all) token).next v'
          pages →
        Replies (fun _ => s.bucket name) q token v
          (pageOf (max 1 s.pageSize) (behind (·.key) q.start all) token :: pages) := by
    intro token v htoken
    refine ⟨v.notePage q token, fun pages hpages => ⟨?_, hpages⟩⟩
    rw [h.page_eq, ListQuery.request, hall, pageOf, pageOf, hsame token htoken]
  exact exists_paging (le_max_left 1 s.pageSize) hleft hdone hallowed hpage v (by simp) (behind_none _ _)

end BucketService

end Rehearsal

end PayloadGate
