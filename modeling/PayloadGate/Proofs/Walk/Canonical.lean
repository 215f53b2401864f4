import PayloadGate.Proofs.Run.NextId
import PayloadGate.Proofs.Store.Snapshot
import PayloadGate.Proofs.Walk.Heeded

/-! # Runs with canonical ids

Run directories are named by numbers, and the place of the next number is where a walk goes on. This
file says what the order of the keys has to do with the numbers when all directories are named by
numbers as they are written.

* **`Canonical`** — a store whose run directories are named so; **`OneWidth`** — and by names of one
  length.
* **`Wanted`** — a run with a descriptor that a walk should find; **`Preceded`**, **`Shadowed`** —
  the two reasons for which it may be missed.
* **`key_lt_offset_iff`**, **`lt_of_key_lt_key`** — objects and places are in the order of the ids.
* **`shadowed_of_lt_of_lt`** — between the place of a run and the next place are the runs that it
  shadows. -/

namespace PayloadGate.Walk

variable {store : Snapshot} {route : Route} {seed : Option String} {root id next : String}
  {r y : ObjectRecord}

/-! ## Runs of a store -/

/-- Whether there is a run directory named `id` below `root`. -/
def HasRun (store : Snapshot) (root id : String) : Prop :=
  ∃ r ∈ store.records, ∃ name, splitKey? root r.key = some (id, name)

/-- **All run directories below `root` are named by numbers as they are written**, of which the next one fits in 64
bits. -/
def Canonical (store : Snapshot) (root : String) : Prop :=
  ∀ id, HasRun store root id → ∃ n, n + 1 < Decimal.limit64 ∧ id = Decimal.text n

/-- The names of all run directories below `root` have one length. -/
def OneWidth (store : Snapshot) (root : String) : Prop :=
  ∀ i j, HasRun store root i → HasRun store root j → i.length = j.length

/-- Ids without another digit than nine. -/
def AllNines (id : String) : Prop := ∀ c ∈ id.toList, c = '9'

/-- Whether the object `r` is at or behind the place where a walk starts from `seed`. -/
def PastSeed (route : Route) (seed : Option String) (r : ObjectRecord) : Prop :=
  ∀ place ∈ seed.map route.offset, place ≤ r.key

/-- **A run that a walk should find**: its descriptor is at or behind the `seed`, and its age lies within the limits. -/
def Wanted (store : Snapshot) (route : Route) (seed : Option String) (id : String) : Prop :=
  ∃ r ∈ store.records, splitKey? route.root r.key = some (id, descriptorName) ∧ route.InBand r
    ∧ PastSeed route seed r

/-- **An object of the run `id` with an age beyond the limits comes before the descriptor.** -/
def Preceded (store : Snapshot) (route : Route) (seed : Option String) (id : String) : Prop :=
  ∃ r ∈ store.records, ∃ name, splitKey? route.root r.key = some (id, name)
    ∧ r.key < route.offset id ++ "/" ++ descriptorName ∧ Text.endsWith r.key latestMarker = false
    ∧ ¬ route.InBand r ∧ PastSeed route seed r

/-- **A run directory of another length leads past the run `id`**: its name is the beginning of the id, or the id is the
beginning of the one after its name. -/
def Shadowed (store : Snapshot) (root id : String) : Prop :=
  ∃ j next, HasRun store root j ∧ RunId.next j = .ok next ∧ j.length ≠ id.length
    ∧ ((j.toList <+: id.toList ∧ j ≠ id) ∨ (id.toList <+: next.toList ∧ id ≠ next))

/-! ## Ids and their places -/

/-- A run of a canonical store has a number `n`, and the next id is `n + 1`. -/
theorem Canonical.exists_number (h : Canonical store root) (hid : HasRun store root id) :
    ∃ n, id = Decimal.text n ∧ RunId.next id = .ok (Decimal.text (n + 1)) := by
  obtain ⟨n, hn, rfl⟩ := h id hid
  exact ⟨n, rfl, RunId.next_text hn⟩

/-- The names of the run directories have digits only. -/
theorem Canonical.allDigits (h : Canonical store root) (hid : HasRun store root id) :
    Decimal.AllDigits id.toList := by
  obtain ⟨n, rfl, -⟩ := h.exists_number hid
  exact Decimal.allDigits_text n

/-- An object of the run `id` lies below the place of the id `next` exactly when `id < next`. -/
theorem key_lt_offset_iff {name : String} (h : splitKey? route.root r.key = some (id, name))
    (hnext : Decimal.AllDigits next.toList) : r.key < route.offset next ↔ id < next := by
  rw [key_eq_of_splitKey? h]
  exact RunId.key_lt_place_iff hnext route.root name

/-- Objects of the run `i` come before those of a run `j` with `i < j`. -/
theorem key_lt_key_of_lt {i j a b : String} (hi : splitKey? root r.key = some (i, a))
    (hj : splitKey? root y.key = some (j, b)) (hdj : Decimal.AllDigits j.toList) (h : i < j) :
    r.key < y.key := by
  -- the place of the greater id lies between them
  rw [key_eq_of_splitKey? hi, key_eq_of_splitKey? hj]
  exact lt_trans ((RunId.key_lt_place_iff hdj root a).2 h) ((RunId.place_lt_key_iff hdj root b).2 le_rfl)

/-- **Objects of two runs are in the order of the ids**, since no digit comes before a slash. -/
theorem lt_of_key_lt_key {i j a b : String} (hi : splitKey? root r.key = some (i, a))
    (hj : splitKey? root y.key = some (j, b)) (hdi : Decimal.AllDigits i.toList) (hne : i ≠ j)
    (h : r.key < y.key) : i < j := by
  rcases lt_trichotomy i j with hlt | heq | hgt
  · exact hlt
  · exact absurd heq hne
  · exact absurd h (lt_asymm (key_lt_key_of_lt hj hi hdi hgt))

/-- The key of the descriptor of the run `id`. -/
theorem key_eq_of_descriptor (h : splitKey? route.root r.key = some (id, descriptorName)) :
    r.key = route.offset id ++ "/" ++ descriptorName := key_eq_of_splitKey? h

/-- **A run `id` between the place of another one `j` and the next place** is shadowed by it: one of the two is the
beginning of the other. -/
theorem shadowed_of_lt_of_lt {j : String} (h : Canonical store root) (hj : HasRun store root j)
    (hid : HasRun store root id) (hn : RunId.next j = .ok next) (hlow : j < id)
    (hhigh : id < next) :
    Shadowed store root id := by
  obtain ⟨n, rfl, hn'⟩ := h.exists_number hj
  obtain ⟨m, rfl, -⟩ := h.exists_number hid
  obtain rfl : next = Decimal.text (n + 1) := Except.ok.inj (hn.symm.trans hn')
  rw [String.lt_iff_toList_lt] at hlow hhigh
  -- texts of one length are in the order of the numbers, and no number lies between the two
  have hne := Decimal.length_ne_of_text_lt_text_succ hlow hhigh
  rw [String.length_toList, String.length_toList] at hne
  refine ⟨Decimal.text n, Decimal.text (n + 1), hj, hn', hne, ?_⟩
  rcases Decimal.prefix_of_text_lt_text_succ hlow hhigh with hbegins | hbegins
  · exact Or.inl ⟨hbegins, fun heq => hne (congrArg String.length heq)⟩
  · -- the id lies below the next one, so it is not the whole of it
    refine Or.inr ⟨hbegins, fun heq => ?_⟩
    rw [heq] at hhigh
    exact List.lt_irrefl _ hhigh

end PayloadGate.Walk
