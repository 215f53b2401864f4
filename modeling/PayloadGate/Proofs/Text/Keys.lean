import PayloadGate.Walk.Walker
import Mathlib.Data.List.TakeDrop
import Mathlib.Data.List.TakeWhile
import Mathlib.Data.String.Basic

/-! # Keys of run objects

The keys of a job directory are read apart by `Walk.splitKey?` and compared in the order of texts.
This file says what both mean for a key written as `root/id/name`.

* **`Text.after?_eq_some_iff`**, **`Text.splitFirst?_eq_some_iff`**,
  **`Walk.splitKey?_eq_some_iff`** — a text that is read apart is the text put together from its
  parts.
* **`Text.append_left_lt_iff`** — a common start does not matter for the order.
* **`Text.append_slash_lt_iff`** — a directory named by digits lies below a place named by digits
  exactly when its name does, because a slash comes before every digit. -/

namespace PayloadGate

namespace Text

/-! ## Reading texts apart -/

/-- `after? head s = some rest ↔ s = head ++ rest`: a text begins with `head` exactly when it is `head` with something
behind it. -/
theorem after?_eq_some_iff {head s rest : String} :
    after? head s = some rest ↔ s = head ++ rest := by
  rw [after?, Option.map_eq_some_iff]
  constructor
  · rintro ⟨cs, hcs, rfl⟩
    rw [List.isPrefixOf?_eq_some_iff_append_eq] at hcs
    rw [← String.toList_inj, String.toList_append, String.toList_ofList]
    exact hcs.symm
  · intro h
    refine ⟨rest.toList, ?_, String.ofList_toList⟩
    rw [List.isPrefixOf?_eq_some_iff_append_eq, h, String.toList_append]

/-- A list without the mark is taken whole, up to the mark behind it. -/
theorem span_bne_append {mark : Char} {left : List Char} (h : mark ∉ left) (right : List Char) :
    (left ++ mark :: right).span (· != mark) = (left, mark :: right) := by
  have hall : ∀ c ∈ left, (c != mark) = true := by
    intro c hc
    rw [bne_iff_ne]
    rintro rfl
    exact h hc
  rw [List.span_eq_takeWhile_dropWhile, List.takeWhile_append_of_pos hall,
    List.dropWhile_append_of_pos hall]
  simp

/-- What `span (· != mark)` takes has no mark, and a mark comes behind it. -/
theorem eq_append_of_span_bne {mark c : Char} {cs left right : List Char}
    (h : cs.span (· != mark) = (left, c :: right)) : cs = left ++ mark :: right ∧ mark ∉ left := by
  rw [List.span_eq_takeWhile_dropWhile, Prod.mk.injEq] at h
  obtain ⟨hleft, hright⟩ := h
  have hne : cs.dropWhile (· != mark) ≠ [] := by
    rw [hright]
    exact List.cons_ne_nil c right
  -- what stops the beginning is the mark
  have hc : c = mark := by
    simpa [hright] using List.head_dropWhile_not (p := (· != mark)) (w := hne)
  constructor
  · rw [← hc, ← hleft, ← hright, List.takeWhile_append_dropWhile]
  · rw [← hleft]
    intro hm
    simpa using List.mem_takeWhile_imp hm

/-- The two sides of the first mark, when there is one. -/
theorem splitFirst?_eq_some_iff {mark : Char} {s left right : String} :
    splitFirst? mark s = some (left, right)
      ↔ s.toList = left.toList ++ mark :: right.toList ∧ mark ∉ left.toList := by
  constructor
  · intro h
    rw [splitFirst?] at h
    split at h
    · exact absurd h (by simp)
    · rename_i l c r hspan
      obtain ⟨rfl, rfl⟩ : String.ofList l = left ∧ String.ofList r = right := by simpa using h
      rw [String.toList_ofList, String.toList_ofList]
      exact eq_append_of_span_bne hspan
  · rintro ⟨hs, hleft⟩
    rw [splitFirst?, hs, span_bne_append hleft]
    simp

/-! ## The order of texts -/

/-- A common start does not matter for the order of two lists. -/
theorem append_left_lt_iff {start a b : List Char} : start ++ a < start ++ b ↔ a < b := by
  induction start with
  | nil => rfl
  | cons c cs ih =>
    rw [List.cons_append, List.cons_append, List.cons_lt_cons_iff, ih]
    simp

/-- For `a` and `b` of one length, `a ++ x` lies before `b` exactly when `a` does. -/
theorem append_lt_iff_of_length {a b : List Char} (h : a.length = b.length) (x : List Char) : a ++ x < b ↔ a < b := by
  induction a generalizing b with
  | nil =>
    obtain rfl := List.eq_nil_of_length_eq_zero h.symm
    simp
  | cons c cs ih =>
    cases b with
    | nil => exact absurd h (by simp)
    | cons d ds => rw [List.cons_append, List.cons_lt_cons_iff, List.cons_lt_cons_iff, ih (Nat.succ.inj h)]

/-- A slash comes before every digit. -/
theorem slash_lt_of_isDigit {c : Char} (h : c.isDigit = true) : '/' < c := by
  rw [Char.isDigit, Bool.and_eq_true, decide_eq_true_eq] at h
  exact lt_of_lt_of_le (by decide) h.1

/-- **A directory named by digits lies below a place named by digits** exactly when its name does:
`a ++ '/' :: x < b ↔ a < b` for digits `b`, since a slash comes before every digit. -/
theorem append_slash_lt_iff {a b : List Char} (hb : ∀ c ∈ b, c.isDigit = true) (x : List Char) :
    a ++ '/' :: x < b ↔ a < b := by
  induction a generalizing b with
  | nil =>
    cases b with
    | nil => simp
    | cons d ds =>
      -- the name ends where the place has a digit, and the slash comes before it
      have hd : '/' < d := slash_lt_of_isDigit (hb d List.mem_cons_self)
      rw [List.nil_append, List.cons_lt_cons_iff]
      simp [hd]
  | cons c cs ih =>
    cases b with
    | nil => simp
    | cons d ds =>
      have hds : ∀ c ∈ ds, c.isDigit = true := fun c hc => hb c (List.mem_cons_of_mem d hc)
      rw [List.cons_append, List.cons_lt_cons_iff, List.cons_lt_cons_iff, ih hds]

end Text

namespace Walk

/-! ## Keys of a job directory -/

/-- A place named by an id, as characters. -/
theorem toList_offset (route : Route) (id : String) :
    (route.offset id).toList = route.root.toList ++ '/' :: id.toList := by
  rw [Route.offset, String.toList_append, String.toList_append]
  simp

/-- **A key that is read apart** is put together from the root, the name of the run directory and the rest:
`splitKey? root key = some (id, name)` exactly when the key is `root/id/name` and `id` has no slash. -/
theorem splitKey?_eq_some_iff {root key id name : String} :
    splitKey? root key = some (id, name)
      ↔ key.toList = root.toList ++ '/' :: (id.toList ++ '/' :: name.toList) ∧ '/' ∉ id.toList := by
  rw [splitKey?, Option.bind_eq_bind, Option.bind_eq_some_iff]
  constructor
  · rintro ⟨rest, hrest, hsplit⟩
    rw [Text.after?_eq_some_iff] at hrest
    rw [Text.splitFirst?_eq_some_iff] at hsplit
    refine ⟨?_, hsplit.2⟩
    rw [hrest, String.toList_append, String.toList_append, hsplit.1]
    simp
  · rintro ⟨hkey, hid⟩
    -- what stands behind the root
    refine ⟨String.ofList (id.toList ++ '/' :: name.toList), ?_, ?_⟩
    · rw [Text.after?_eq_some_iff, ← String.toList_inj, hkey]
      simp
    · rw [Text.splitFirst?_eq_some_iff, String.toList_ofList]
      exact ⟨rfl, hid⟩

/-- The key that was read apart. -/
theorem key_eq_of_splitKey? {root key id name : String} (h : splitKey? root key = some (id, name)) :
    key = root ++ "/" ++ id ++ "/" ++ name := by
  rw [← String.toList_inj, (splitKey?_eq_some_iff.1 h).1]
  simp

/-- **A run directory tells its job directory and its id**: `root ++ '/' :: id` determines both, as the id has no
slash. -/
theorem eq_of_append_slash {root root' id id' : List Char} (hid : '/' ∉ id) (hid' : '/' ∉ id')
    (h : root ++ '/' :: id = root' ++ '/' :: id') : root = root' ∧ id = id' := by
  -- from the end, the id is what comes up to the first slash
  have hreverse : id.reverse ++ '/' :: root.reverse = id'.reverse ++ '/' :: root'.reverse := by
    simpa using congrArg List.reverse h
  have hspan := congrArg (List.span (· != '/')) hreverse
  rw [Text.span_bne_append (by simpa using hid), Text.span_bne_append (by simpa using hid'), Prod.mk.injEq] at hspan
  obtain ⟨hleft, hright⟩ := hspan
  exact ⟨List.reverse_injective (List.cons.inj hright).2, List.reverse_injective hleft⟩

/-- A key that is read apart lies in the job directory. -/
theorem isPrefix_of_splitKey? {root key id name : String}
    (h : splitKey? root key = some (id, name)) :
    (root ++ "/").toList <+: key.toList := by
  rw [(splitKey?_eq_some_iff.1 h).1, String.toList_append]
  exact ⟨id.toList ++ '/' :: name.toList, by simp⟩

/-- Two keys with the same parts are the same key. -/
theorem eq_of_splitKey? {root key key' id name : String} (h : splitKey? root key = some (id, name))
    (h' : splitKey? root key' = some (id, name)) : key = key' :=
  (key_eq_of_splitKey? h).trans (key_eq_of_splitKey? h').symm

end Walk

end PayloadGate
