import PayloadGate.Failure
import PayloadGate.Store.Listing

/-! # Going through a listing

A **`Cursor`** goes through the objects of a listing, forward only, and fetches a page whenever it has run out
of objects. It does no work itself: **`Cursor.look`** says what it needs or has, and **`Cursor.receive`** takes
the answer of the store. -/

namespace PayloadGate

/-- **A place in a listing.** -/
structure Cursor where
  /-- The listing. -/
  query : ListQuery
  /-- The objects that have been fetched and not been passed. -/
  buffer : List ObjectRecord
  /-- The token of the page to fetch next. -/
  token : Option String
  /-- Whether the last page has been fetched. -/
  exhausted : Bool
  deriving DecidableEq

namespace Cursor

/-- The place before the first object of the listing `query`: nothing fetched, no token. -/
def start (query : ListQuery) : Cursor := ⟨query, [], none, false⟩

/-- What stands at a place: an object with the place behind it, the need of a page, or the end. -/
inductive Look where
  /-- An object, and the place behind it. -/
  | record (r : ObjectRecord) (rest : Cursor)
  /-- Nothing, until a page is fetched. -/
  | page
  /-- The end of the listing. -/
  | ended
  deriving DecidableEq

/-- **What stands at a place**: the first object of the `buffer`, or, when that is empty, the end when the listing is
`exhausted` and the need of a page when it is not. -/
def look (c : Cursor) : Look :=
  match c.buffer with
  | r :: rest => .record r { c with buffer := rest }
  | [] => if c.exhausted then .ended else .page

/-- **The place after the store has answered** for the page that was needed: its objects come behind the `buffer`, and
its `next` is the token. A failure leaves nothing behind: its token is spent, and the listing starts again. -/
def receive (c : Cursor) : Except Failure ObjectPage → Cursor
  | .ok page =>
    { c with buffer := c.buffer ++ page.records, token := page.next, exhausted := page.next.isNone }
  | .error _ => { c with token := none }

/-- An object in the buffer stands first: `buffer = r :: rest` gives `.record r` with `rest` behind it. -/
theorem look_of_buffer_cons {c : Cursor} {r : ObjectRecord} {rest : List ObjectRecord}
    (h : c.buffer = r :: rest) : c.look = .record r { c with buffer := rest } := by
  simp [look, h]

/-- Without an object in the buffer a page is needed, unless the last one has been fetched, `exhausted`. -/
theorem look_of_buffer_nil {c : Cursor} (h : c.buffer = []) :
    c.look = if c.exhausted then .ended else .page := by
  simp [look, h]

/-- Before the last page a page is needed when the buffer is empty. -/
theorem look_eq_page {c : Cursor} (hbuffer : c.buffer = []) (hexhausted : c.exhausted = false) : c.look = .page := by
  rw [look_of_buffer_nil hbuffer, hexhausted, if_neg Bool.false_ne_true]

/-- The objects of a page come behind those that have been fetched. -/
@[simp] theorem buffer_receive_ok (c : Cursor) (page : ObjectPage) :
    (c.receive (.ok page)).buffer = c.buffer ++ page.records := rfl

/-- A page without a token, `next = none`, is the last one. -/
@[simp] theorem exhausted_receive_ok (c : Cursor) (page : ObjectPage) :
    (c.receive (.ok page)).exhausted = page.next.isNone := rfl

/-- A failure leaves the `buffer` as it is and changes the token alone. -/
@[simp] theorem buffer_receive_error (c : Cursor) (f : Failure) :
    (c.receive (.error f)).buffer = c.buffer := rfl

/-- **The next object of a listing**, or nothing at its end, and the place behind it. The store answers for a page by
`ask`, which may change the state `s` that it looks at. At most `pages` pages are fetched; the result is `none` when
more are needed. -/
def next? {σ : Type} (ask : ListQuery → Option String → σ → Except Failure ObjectPage × σ) :
    Nat → Cursor → σ → Option (Except Failure (Option ObjectRecord) × Cursor × σ)
  | pages, c, s =>
    match c.look with
    | .record r rest => some (.ok (some r), rest, s)
    | .ended => some (.ok none, c, s)
    | .page =>
      match pages with
      | 0 => none
      | more + 1 =>
        let (reply, s) := ask c.query c.token s
        match reply with
        | .ok page => next? ask more (c.receive (.ok page)) s
        -- the token is spent on the failed call, so that the next page is asked for from the start
        | .error f => some (.error f, c.receive (.error f), s)

section Next

variable {σ : Type} {ask : ListQuery → Option String → σ → Except Failure ObjectPage × σ} {c : Cursor}

/-- An object in the buffer is the next one, whatever the number `n` of pages that may be fetched. -/
theorem next?_of_record {r : ObjectRecord} {rest : Cursor} (h : c.look = .record r rest) (n : Nat) (s : σ) :
    c.next? ask n s = some (.ok (some r), rest, s) := by
  rw [next?.eq_def]
  simp only [h]

/-- At the end there is no next object: the answer is `.ok none`. -/
theorem next?_of_ended (h : c.look = .ended) (n : Nat) (s : σ) : c.next? ask n s = some (.ok none, c, s) := by
  rw [next?.eq_def]
  simp only [h]

/-- A page that is needed has to be fetched: with `0` pages there is no result. -/
theorem next?_zero_of_page (h : c.look = .page) (s : σ) : c.next? ask 0 s = none := by
  rw [next?.eq_def]
  simp only [h]

/-- Behind the page that was needed the next object is looked for, with one page less; a failure is the answer. -/
theorem next?_succ_of_page (h : c.look = .page) (n : Nat) (s : σ) :
    c.next? ask (n + 1) s = match ask c.query c.token s with
      | (.ok page, s') => (c.receive (.ok page)).next? ask n s'
      | (.error f, s') => some (.error f, c.receive (.error f), s') := by
  rw [next?.eq_def]
  simp only [h]
  rcases ask c.query c.token s with ⟨reply, s'⟩
  cases reply <;> rfl

end Next

end Cursor

end PayloadGate
