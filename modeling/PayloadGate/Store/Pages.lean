/-! # Key order and pages

* **`inKeyOrder`** — entries in ascending order of their keys, one for each key.
* **`firstPage`** — the first page of what is left of a listing. The token of a page is its last key, and the page
  behind it holds what comes **`behind`** the token. -/

namespace PayloadGate

/-- Of neighbours with one key, the last: on a list in order this leaves one entry for each key. -/
def keepLast {α : Type} (key : α → String) : List α → List α
  | [] => []
  | [x] => [x]
  | x :: y :: rest =>
    if key x = key y then keepLast key (y :: rest) else x :: keepLast key (y :: rest)

/-- **Entries in ascending order of their keys**; of those with one key the last counts, as the sorting is stable. -/
def inKeyOrder {α : Type} (key : α → String) (entries : List α) : List α :=
  keepLast key (entries.mergeSort fun x y => decide (key x ≤ key y))

/-- **The first page of what is left of a listing**, `size` entries at most, with the token of the page behind it: the
key of its last entry, when more are left. -/
def firstPage {α : Type} (key : α → String) (size : Nat) (rest : List α) : List α × Option String :=
  let page := rest.take size
  (page, if size < rest.length then page.getLast?.map key else none)

/-- **The part of a listing behind the key `last`.** Without one it is the whole listing. -/
def behind {α : Type} (key : α → String) (last : Option String) (entries : List α) : List α :=
  entries.filter fun x => last.all fun l => decide (l < key x)

/-- Everything is left of a listing that has not begun: `behind key none entries = entries`. -/
@[simp] theorem behind_none {α : Type} (key : α → String) (entries : List α) :
    behind key none entries = entries := by
  simp [behind]

/-- What is behind a key are the entries with greater keys. -/
@[simp] theorem mem_behind_some {α : Type} {key : α → String} {last : String} {entries : List α} {x : α} :
    x ∈ behind key (some last) entries ↔ x ∈ entries ∧ last < key x := by
  simp [behind]

/-- A page is the beginning of what is left: its first `size` entries. -/
@[simp] theorem firstPage_fst {α : Type} (key : α → String) (size : Nat) (rest : List α) :
    (firstPage key size rest).1 = rest.take size := rfl

end PayloadGate
