import PayloadGate.Proofs.Store.Snapshot

/-! # What is exchanged along a listing

A caller asks a cursor for the next object again and again, and the cursor calls the store for pages as it needs them.
A page may be empty though there are further ones, and a token may be any text, also the empty one.

* **`Exchange`** — a call for a page, or the answer to a caller; **`overheard`**, **`Cursor.nextTimes?`** — what is
  exchanged while the next object is asked for so many times.
* **`Cursor.Ahead`** — what is exchanged from a place on; **`Cursor.Ahead.exists_next?`**,
  **`Cursor.Ahead.exists_nextTimes?`** — what one call takes of it, and what many calls take.
* **`exchanges`** — what is exchanged along the pages of a listing, to its end.
* **`Conversation`**, **`conversation_of_delivers`** — every object is answered once and in order, and every page is
  called for once, when all objects before it have been answered. -/

namespace PayloadGate

/-- **What is exchanged** between a caller, a cursor and a store. -/
inductive Exchange where
  /-- The cursor calls the store for the page of a token. -/
  | call (q : ListQuery) (token : Option String)
  /-- The cursor answers its caller: there is an object, there is none, or there was a failure. -/
  | answer (reply : Except Failure (Option ObjectRecord))

namespace Exchange

/-- The exchange in which the object `r` is answered. -/
def object (r : ObjectRecord) : Exchange := .answer (.ok (some r))

/-- **The calls for pages**, in their order, with query and token. -/
def calls : List Exchange → List (ListQuery × Option String)
  | [] => []
  | .call q token :: told => (q, token) :: calls told
  | .answer _ :: told => calls told

/-- **The answers to the caller**, in their order. -/
def answers : List Exchange → List (Except Failure (Option ObjectRecord))
  | [] => []
  | .call _ _ :: told => answers told
  | .answer reply :: told => reply :: answers told

/-- **What is exchanged while a caller asks `n` times**, of what lies ahead. At the end every call is answered with
nothing, `.ok none`. -/
def during : List Exchange → Nat → List Exchange
  | [], n => List.replicate n (.answer (.ok none))
  | _ :: _, 0 => []
  | .call q token :: ahead, n + 1 => .call q token :: during ahead (n + 1)
  | .answer reply :: ahead, n + 1 => .answer reply :: during ahead n

variable {ahead before behind told told' : List Exchange} {q : ListQuery} {token : Option String} {n : Nat}

/-- Calls are told one after the other: `calls` goes over `++`. -/
@[simp] theorem calls_append : calls (told ++ told') = calls told ++ calls told' := by
  induction told with
  | nil => rfl
  | cons x told ih => cases x <;> simp [calls, ih]

/-- Answers are told one after the other: `answers` goes over `++`. -/
@[simp] theorem answers_append : answers (told ++ told') = answers told ++ answers told' := by
  induction told with
  | nil => rfl
  | cons x told ih => cases x <;> simp [answers, ih]

/-- Objects are answered without a call. -/
@[simp] theorem calls_map_object (records : List ObjectRecord) : calls (records.map object) = [] := by
  induction records with
  | nil => rfl
  | cons r records ih => exact ih

/-- Objects are answered in their order, each by `.ok (some r)`. -/
@[simp] theorem answers_map_object (records : List ObjectRecord) :
    answers (records.map object) = records.map fun r => .ok (some r) := by
  induction records with
  | nil => rfl
  | cons r records ih => exact congrArg (.ok (some r) :: ·) ih

/-- At the end nothing is called for, however often the caller asks. -/
theorem calls_during_nil (n : Nat) : calls (during [] n) = [] := by
  induction n with
  | zero => rfl
  | succ n ih => exact ih

/-- At the end every answer is that there is no object: `n` times `.ok none`. -/
theorem answers_during_nil (n : Nat) : answers (during [] n) = List.replicate n (.ok none) := by
  induction n with
  | zero => rfl
  | succ n ih => exact congrArg (.ok none :: ·) ih

/-- A caller that does not ask hears nothing. -/
@[simp] theorem during_zero (ahead : List Exchange) : during ahead 0 = [] := by
  cases ahead <;> rfl

/-- **The answers that a caller gets** are the first `n` of those that lie ahead, and then nothing, `.ok none`, as often
as is left of `n`. -/
theorem answers_during (ahead : List Exchange) (n : Nat) :
    answers (during ahead n)
      = (answers ahead).take n ++ List.replicate (n - (answers ahead).length) (.ok none) := by
  induction ahead generalizing n with
  | nil => simp [answers_during_nil, answers]
  | cons x ahead ih =>
    cases n with
    | zero => simp [answers]
    | succ n =>
      cases x with
      | call q token => simpa [during, answers] using ih (n + 1)
      | answer reply => simpa [during, answers] using ih n

/-- The calls for pages are made in their order: they are a prefix of those ahead. -/
theorem calls_during_prefix (ahead : List Exchange) (n : Nat) : calls (during ahead n) <+: calls ahead := by
  induction ahead generalizing n with
  | nil => simp [calls_during_nil, calls]
  | cons x ahead ih =>
    cases n with
    | zero => simp [calls]
    | succ n =>
      cases x with
      | call q token => simpa [during, calls] using ih (n + 1)
      | answer reply => simpa [during, calls] using ih n

/-- All calls for pages are made for a caller that asks more often than there are objects. -/
theorem calls_during_of_lt (h : (answers ahead).length < n) : calls (during ahead n) = calls ahead := by
  induction ahead generalizing n with
  | nil => rw [calls_during_nil, calls]
  | cons x ahead ih =>
    cases n with
    | zero => exact absurd h (Nat.not_lt_zero _)
    | succ n =>
      cases x with
      | call q token => simpa [during, calls] using ih (n := n + 1) h
      | answer reply => simpa [during, calls] using ih (n := n) (Nat.lt_of_succ_lt_succ h)

/-- What comes before a call for a page is what lies ahead before it. -/
theorem exists_of_during_eq (h : during ahead n = before ++ .call q token :: behind) :
    ∃ rest, ahead = before ++ .call q token :: rest := by
  induction ahead generalizing n before with
  | nil =>
    have hmem : Exchange.call q token ∈ List.replicate n (.answer (.ok none)) := by
      rw [← during.eq_1, h]
      exact List.mem_append_right _ List.mem_cons_self
    exact absurd (List.eq_of_mem_replicate hmem) (by simp)
  | cons x ahead ih =>
    cases n with
    | zero => exact absurd h (by simp)
    | succ n =>
      -- the first of what lies ahead is the first of what is exchanged
      obtain ⟨m, hm⟩ : ∃ m, during (x :: ahead) (n + 1) = x :: during ahead m := by
        cases x <;> exact ⟨_, rfl⟩
      rw [hm] at h
      cases before with
      | nil =>
        obtain ⟨rfl, -⟩ := List.cons.inj h
        exact ⟨ahead, rfl⟩
      | cons y before =>
        obtain ⟨rfl, hrest⟩ := List.cons.inj h
        obtain ⟨rest, rfl⟩ := ih hrest
        exact ⟨rest, rfl⟩

end Exchange

open Exchange

/-! ## Asking again and again -/

section Asking

variable {σ : Type} {ask : ListQuery → Option String → σ → Except Failure ObjectPage × σ} {s : σ} {c : Cursor}
  {q : ListQuery} {token : Option String} {pages : List ObjectPage} {records : List ObjectRecord}
  {ahead : List Exchange} {most : Nat}

/-- **A store whose calls are overheard**: the state has what was exchanged beside that of the store. -/
def overheard (ask : ListQuery → Option String → σ → Except Failure ObjectPage × σ) (q : ListQuery)
    (token : Option String) (t : σ × List Exchange) : Except Failure ObjectPage × σ × List Exchange :=
  let (reply, s) := ask q token t.1
  (reply, s, t.2 ++ [.call q token])

namespace Cursor

/-- **Asking for the next object `n` times**, and what is exchanged meanwhile. Each time at most `most` pages are
fetched; the result is `none` when more are needed. -/
def nextTimes? (ask : ListQuery → Option String → σ → Except Failure ObjectPage × σ) (most : Nat) :
    Nat → Cursor → σ × List Exchange → Option (Cursor × σ × List Exchange)
  | 0, c, t => some (c, t)
  | n + 1, c, t =>
    match c.next? (overheard ask) most t with
    | none => none
    | some (reply, c, s, told) => nextTimes? ask most n c (s, told ++ [.answer reply])

/-- **What is exchanged from a place on**, as long as no call fails: the objects of the buffer, then a call and what is
ahead behind its page. -/
inductive Ahead (ask : ListQuery → Option String → σ → Except Failure ObjectPage × σ) :
    Cursor → σ → List Exchange → Prop where
  /-- Nothing at the end. -/
  | ended {c : Cursor} {s : σ} (h : c.look = .ended) : Ahead ask c s []
  /-- An object is answered, and what lies behind it. -/
  | record {c rest : Cursor} {s : σ} {r : ObjectRecord} {ahead : List Exchange} (h : c.look = .record r rest)
      (hrest : Ahead ask rest s ahead) : Ahead ask c s (.object r :: ahead)
  /-- The store is called for a page. -/
  | page {c : Cursor} {s s' : σ} {page : ObjectPage} {ahead : List Exchange} (h : c.look = .page)
      (hask : ask c.query c.token s = (.ok page, s')) (hpage : Ahead ask (c.receive (.ok page)) s' ahead) :
      Ahead ask c s (.call c.query c.token :: ahead)

/-- **One call** is answered, and takes what lies ahead up to its answer: `spoken` and then `reply`. -/
theorem Ahead.exists_next? (h : Ahead ask c s ahead) (hmost : (calls ahead).length ≤ most) (told : List Exchange) :
    ∃ reply c' s' spoken rest, c.next? (overheard ask) most (s, told) = some (reply, c', s', told ++ spoken)
      ∧ Ahead ask c' s' rest ∧ (calls rest).length ≤ most
      ∧ ∀ n, during ahead (n + 1) = spoken ++ .answer reply :: during rest n := by
  -- by induction on what is ahead: a record in the buffer costs no call, a page costs one of `most`
  induction h generalizing most told with
  | @ended c s h =>
    refine ⟨.ok none, c, s, [], [], ?_, .ended h, Nat.zero_le _, fun n => rfl⟩
    rw [List.append_nil]
    exact next?_of_ended h most _
  | @record c rest s r ahead h hrest _ =>
    refine ⟨.ok (some r), rest, s, [], ahead, ?_, hrest, hmost, fun n => rfl⟩
    rw [List.append_nil]
    exact next?_of_record h most _
  | @page c s s' page ahead h hask _ ih =>
    cases most with
    | zero => exact absurd hmost (by simp [calls])
    | succ most =>
      have hfewer : (calls ahead).length ≤ most := Nat.le_of_succ_le_succ hmost
      obtain ⟨reply, c', s'', spoken, rest, hnext, hahead, hrest, hduring⟩ :=
        ih hfewer (told ++ [.call c.query c.token])
      refine ⟨reply, c', s'', .call c.query c.token :: spoken, rest, ?_, hahead, by omega, ?_⟩
      · rw [next?_succ_of_page h, overheard, hask]
        simpa using hnext
      · intro n
        rw [during, hduring n, List.cons_append]

/-- **Many calls** are all answered, and take what lies ahead up to the last answer. By induction on their number
`n`. -/
theorem Ahead.exists_nextTimes? (h : Ahead ask c s ahead) (hmost : (calls ahead).length ≤ most) (n : Nat)
    (told : List Exchange) : ∃ c' s', c.nextTimes? ask most n (s, told) = some (c', s', told ++ during ahead n) := by
  induction n generalizing c s ahead told with
  | zero => exact ⟨c, s, by rw [during_zero, List.append_nil, nextTimes?]⟩
  | succ n ih =>
    obtain ⟨reply, c', s', spoken, rest, hnext, hahead, hrest, hduring⟩ := h.exists_next? hmost told
    obtain ⟨c'', s'', htimes⟩ := ih hahead hrest (told ++ spoken ++ [.answer reply])
    refine ⟨c'', s'', ?_⟩
    rw [nextTimes?, hnext]
    simpa [hduring n] using htimes

/-- The objects of the `buffer` are answered first, before what lies ahead without them. -/
theorem Ahead.of_buffer {buffer : List ObjectRecord} (hbuffer : c.buffer = buffer)
    (h : Ahead ask { c with buffer := [] } s ahead) : Ahead ask c s (buffer.map .object ++ ahead) := by
  induction buffer generalizing c with
  | nil =>
    rw [← hbuffer] at h
    exact h
  | cons r buffer ih => exact .record (look_of_buffer_cons hbuffer) (ih rfl h)

end Cursor

/-! ## Along the pages of a listing -/

/-- **What is exchanged along pages**: a call for each, with the token of the one before it, and then its objects. -/
def exchanges (q : ListQuery) : Option String → List ObjectPage → List Exchange
  | _, [] => []
  | token, page :: pages => .call q token :: (page.records.map .object ++ exchanges q page.next pages)

/-- **What lies ahead before the pages of a listing** is what is exchanged along them. The induction is on the pages;
behind the last one nothing is called for. -/
theorem ahead_of_delivers (hbuffer : c.buffer = []) (hexhausted : c.exhausted = false) (hpaging : Paging pages records)
    (hask : Delivers ask c.query c.token s pages) : c.Ahead ask s (exchanges c.query c.token pages) := by
  induction hpaging generalizing c s with
  | last records =>
    obtain ⟨s', hpage, -⟩ := hask
    refine .page (Cursor.look_eq_page hbuffer hexhausted) hpage (.of_buffer ?_ (.ended rfl))
    rw [Cursor.buffer_receive_ok, hbuffer, List.nil_append]
  | @more first token pages rest _ ih =>
    obtain ⟨s', hpage, hmore⟩ := hask
    have hahead := ih (c := { c.receive (.ok ⟨first, some token⟩) with buffer := [] }) rfl rfl hmore
    refine .page (Cursor.look_eq_page hbuffer hexhausted) hpage (.of_buffer ?_ hahead)
    rw [Cursor.buffer_receive_ok, hbuffer, List.nil_append]

/-- The answers along pages are their objects, each by `.ok (some r)`. -/
theorem answers_exchanges (q : ListQuery) (token : Option String) (pages : List ObjectPage) :
    answers (exchanges q token pages) = (pages.flatMap (·.records)).map fun r => .ok (some r) := by
  induction pages generalizing token with
  | nil => rfl
  | cons page pages ih =>
    rw [exchanges, answers, answers_append, answers_map_object, ih, List.flatMap_cons, List.map_append]

/-- The calls along pages have the tokens of the pages before them: the first one has `token`, and the `next` of the
last page is not called for. -/
theorem calls_exchanges (q : ListQuery) (token : Option String) (pages : List ObjectPage) :
    calls (exchanges q token pages) = (token :: pages.map (·.next)).dropLast.map (q, ·) := by
  induction pages generalizing token with
  | nil => rfl
  | cons page pages ih =>
    rw [exchanges, calls, calls_append, calls_map_object, List.nil_append, ih]
    rfl

/-- Objects are answered before the call that comes behind them: `records` are a beginning of `before`. -/
theorem exists_of_map_object_append {ahead before behind : List Exchange}
    (h : records.map .object ++ ahead = before ++ .call q token :: behind) :
    ∃ rest, before = records.map .object ++ rest ∧ ahead = rest ++ .call q token :: behind := by
  induction records generalizing before with
  | nil => exact ⟨before, rfl, h⟩
  | cons r records ih =>
    cases before with
    | nil => exact absurd (List.cons.inj h).1 (by simp [object])
    | cons x before =>
      obtain ⟨rfl, hrest⟩ := List.cons.inj h
      obtain ⟨rest, rfl, hahead⟩ := ih hrest
      exact ⟨rest, rfl, hahead⟩

/-- **What comes before a call** is what is exchanged along the pages `earlier` than the one that is called for, and the
token is the `next` of the last of these, or `token` when there are none. -/
theorem exists_of_exchanges_eq {q' : ListQuery} {token' : Option String} {before behind : List Exchange}
    (h : exchanges q token pages = before ++ .call q' token' :: behind) :
    ∃ earlier page later, pages = earlier ++ page :: later ∧ before = exchanges q token earlier ∧ q' = q
      ∧ token' = earlier.getLast?.elim token (·.next) := by
  -- by induction on the pages: a call is that of the first page, or one of those behind it
  induction pages generalizing token before with
  | nil => exact absurd h (by simp [exchanges])
  | cons page pages ih =>
    rw [exchanges] at h
    cases before with
    | nil =>
      obtain ⟨hcall, -⟩ := List.cons.inj h
      obtain ⟨rfl, rfl⟩ := Exchange.call.inj hcall
      exact ⟨[], page, pages, rfl, rfl, rfl, rfl⟩
    | cons x before =>
      obtain ⟨rfl, hrest⟩ := List.cons.inj h
      obtain ⟨rest, rfl, hahead⟩ := exists_of_map_object_append hrest
      obtain ⟨earlier, page', later, rfl, rfl, rfl, rfl⟩ := ih hahead
      refine ⟨page :: earlier, page', later, rfl, rfl, rfl, ?_⟩
      rw [List.getLast?_cons]
      cases earlier.getLast? <;> rfl

/-- **What is exchanged while a caller asks `n` times**, along the pages of a listing. -/
structure Conversation (q : ListQuery) (pages : List ObjectPage) (n : Nat) (told : List Exchange) : Prop where
  /-- The caller is answered the objects of the pages, each once and in order, and then that there is none, as often as
  it asks. -/
  answers_eq : answers told = ((pages.flatMap (·.records)).take n).map (fun r => .ok (some r))
    ++ List.replicate (n - (pages.flatMap (·.records)).length) (.ok none)
  /-- The calls are for the pages in their order, each once: the first without a token, and every further one with the
  token of the page before it. -/
  calls_prefix : calls told <+: (none :: pages.map (·.next)).dropLast.map (q, ·)
  /-- All pages have been called for when the caller has learned that there is no further object. -/
  calls_eq : (pages.flatMap (·.records)).length < n → calls told = (none :: pages.map (·.next)).dropLast.map (q, ·)
  /-- A page is called for when the pages before it have been, and when all their objects have been answered. -/
  inTime : ∀ before q' token behind, told = before ++ .call q' token :: behind →
    ∃ earlier page later, pages = earlier ++ page :: later ∧ q' = q ∧ token = earlier.getLast?.elim none (·.next)
      ∧ (calls before).length = earlier.length
      ∧ answers before = (earlier.flatMap (·.records)).map fun r => .ok (some r)

/-- What is exchanged along pages while a caller asks `n` times is such a `Conversation`. -/
theorem conversation_during (q : ListQuery) (pages : List ObjectPage) (n : Nat) :
    Conversation q pages n (during (exchanges q none pages) n) := by
  refine ⟨?_, ?_, ?_, ?_⟩
  · rw [answers_during, answers_exchanges, List.map_take, List.length_map]
  · rw [← calls_exchanges]
    exact calls_during_prefix _ n
  · intro hn
    rw [← calls_exchanges]
    apply calls_during_of_lt
    rwa [answers_exchanges, List.length_map]
  · intro before q' token behind h
    obtain ⟨rest, hrest⟩ := exists_of_during_eq h
    obtain ⟨earlier, page, later, rfl, rfl, rfl, htoken⟩ := exists_of_exchanges_eq hrest
    refine ⟨earlier, page, later, rfl, rfl, htoken, ?_, answers_exchanges _ none earlier⟩
    rw [calls_exchanges]
    simp

/-- **Going through the pages of a listing.** However often a caller asks, it is answered, and what is exchanged is
the conversation along the pages, when each call may fetch as many pages as there are. -/
theorem conversation_of_delivers (hpaging : Paging pages records) (hask : Delivers ask q none s pages)
    (hmost : pages.length ≤ most) (n : Nat) :
    ∃ c s' told, (Cursor.start q).nextTimes? ask most n (s, []) = some (c, s', told) ∧ Conversation q pages n told := by
  have hahead := ahead_of_delivers (c := .start q) rfl rfl hpaging hask
  have hcalls : (calls (exchanges q none pages)).length ≤ most := by
    rw [calls_exchanges]
    simpa using hmost
  obtain ⟨c, s', htold⟩ := hahead.exists_nextTimes? hcalls n []
  exact ⟨c, s', _, htold, conversation_during q pages n⟩

end Asking

/-! ### A listing on four pages -/

/-- A store that answers with prepared pages, whatever it is called for, and fails behind the last one. Its state are
the pages that are left. -/
def prepared (_ : ListQuery) (_ : Option String) : List ObjectPage → Except Failure ObjectPage × List ObjectPage
  | [] => (.error (.storage "no page prepared"), [])
  | page :: pages => (.ok page, pages)

/-- It delivers the `pages` that have been prepared. -/
theorem delivers_prepared (q : ListQuery) (token : Option String) (pages : List ObjectPage) :
    Delivers prepared q token pages pages := by
  induction pages generalizing token with
  | nil => trivial
  | cons page pages ih => exact ⟨pages, rfl, ih page.next⟩

/-- Four pages with three objects. The first one and the third one are empty, and one token is the empty text, twice. -/
def sparsePages : List ObjectPage :=
  [⟨[], some ""⟩, ⟨[⟨"logs/1", ⟨10, 0⟩⟩, ⟨"logs/2", ⟨20, 0⟩⟩], some ""⟩, ⟨[], some "t"⟩, ⟨[⟨"logs/3", ⟨30, 0⟩⟩], none⟩]

/-- The empty text is a token like any other one, and an empty page is not the end. -/
example (q : ListQuery) :
    ((Cursor.start q).nextTimes? prepared 4 5 (sparsePages, [])).map (·.2.2)
      = some [.call q none, .call q (some ""), object ⟨"logs/1", ⟨10, 0⟩⟩, object ⟨"logs/2", ⟨20, 0⟩⟩,
          .call q (some ""), .call q (some "t"), object ⟨"logs/3", ⟨30, 0⟩⟩, .answer (.ok none), .answer (.ok none)] :=
  rfl

/-- Five times the next object is asked for, of three. -/
theorem conversation_of_delivers_sparse :
    Delivers prepared (.allUnder "logs/") none sparsePages sparsePages
    ∧ (∃ records, Paging sparsePages records ∧ sparsePages.length ≤ 4)
    ∧ ∃ c s' told, (Cursor.start (.allUnder "logs/")).nextTimes? prepared 4 5 (sparsePages, []) = some (c, s', told)
      ∧ Conversation (.allUnder "logs/") sparsePages 5 told := by
  have hpaging : Paging sparsePages _ := .more _ "" (.more _ "" (.more _ "t" (.last _)))
  have hdelivers := delivers_prepared (.allUnder "logs/") none sparsePages
  exact ⟨hdelivers, ⟨_, hpaging, le_rfl⟩, conversation_of_delivers hpaging hdelivers le_rfl 5⟩

end PayloadGate
