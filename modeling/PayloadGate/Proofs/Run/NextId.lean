import PayloadGate.Proofs.Decimal.Order
import PayloadGate.Proofs.Text.Encoding
import PayloadGate.Proofs.Text.Keys

/-! # The id after another one

The id after a run id is the next number, and the place that it names in the job directory is meant to lie behind all
objects of the run and before those of later runs. Whether it does is a question of the order of the keys, which is not
that of the numbers.

* **`IsNumber`**, **`next_eq_ok_iff`**, **`next_eq_error_iff`** — the ids that have a next one, and how the others are
  refused.
* **`lt_next_iff`** — the next id comes behind the id, unless the id has nines only.
* **`key_lt_place_iff`**, **`place_lt_key_iff`** — the objects of a run before a place and behind it.
* **`Separates`**, **`next_eq_succ_and_separates`** — the next id as a number, and its place among the keys
  by their bytes. -/

namespace PayloadGate.RunId

open Text.Utf8 (Before before_iff_lt)

variable {id next : String} {f : Failure}

/-! ## Ids that have a next one -/

/-- The number for which the digits of an id stand, in base 10. -/
def value (id : String) : Nat := Decimal.digitsValue id.toList

/-- **Ids that are numbers with a next one of 64 bits.** Any number of zeros may stand in front. -/
structure IsNumber (id : String) : Prop where
  /-- There is a digit. -/
  ne_empty : id ≠ ""
  /-- There are digits only. -/
  digits : Decimal.AllDigits id.toList
  /-- The next number fits in 64 bits. -/
  value_lt : value id < 2 ^ 64 - 1

/-- The empty id comes before zero: `next "" = .ok "0"`. -/
theorem next_empty : RunId.next "" = .ok "0" := rfl

/-- **The id after a number** is the text of the next number, `value id + 1`. -/
theorem next_of_isNumber (h : IsNumber id) : RunId.next id = .ok (Decimal.text (value id + 1)) := by
  have hread : Decimal.digits? id.toList = some (value id) :=
    Decimal.digits?_eq_some_iff.2 ⟨mt String.toList_eq_nil_iff.1 h.ne_empty, h.digits, rfl⟩
  have hfits : value id + 1 < Decimal.limit64 := by
    have hlt := h.value_lt
    rw [Decimal.limit64]
    omega
  rw [RunId.next, if_neg h.ne_empty, hread]
  exact if_pos hfits

/-- **Any other id is refused**, and the failure `.invalidRunId id` names it. -/
theorem next_of_not_isNumber (hne : id ≠ "") (h : ¬ IsNumber id) : RunId.next id = .error (.invalidRunId id) := by
  rw [RunId.next, if_neg hne]
  cases hread : Decimal.digits? id.toList with
  | none => rfl
  | some n =>
    obtain ⟨-, hdigits, rfl⟩ := Decimal.digits?_eq_some_iff.1 hread
    have hfits : ¬ value id + 1 < Decimal.limit64 := fun hlt => by
      rw [Decimal.limit64] at hlt
      exact h ⟨hne, hdigits, by omega⟩
    exact if_neg hfits

/-- **When there is a next id, and which one**: `0` behind the empty id, and the text of the next number behind a
number. -/
theorem next_eq_ok_iff :
    RunId.next id = .ok next ↔ id = "" ∧ next = "0" ∨ IsNumber id ∧ next = Decimal.text (value id + 1) := by
  by_cases hempty : id = ""
  · subst hempty
    have hnot : ¬ IsNumber "" := fun h => h.ne_empty rfl
    rw [next_empty, Except.ok.injEq]
    simp [hnot, eq_comm]
  · by_cases hid : IsNumber id
    · rw [next_of_isNumber hid, Except.ok.injEq]
      simp [hempty, hid, eq_comm]
    · rw [next_of_not_isNumber hempty hid]
      simp [hempty, hid]

/-- **When there is none, and what is said then**: for an id that is neither empty nor a number, `.invalidRunId id`. -/
theorem next_eq_error_iff : RunId.next id = .error f ↔ id ≠ "" ∧ ¬ IsNumber id ∧ f = .invalidRunId id := by
  by_cases hempty : id = ""
  · subst hempty
    rw [next_empty]
    simp
  · by_cases hid : IsNumber id
    · rw [next_of_isNumber hid]
      simp [hid]
    · rw [next_of_not_isNumber hempty hid, Except.error.injEq]
      simp [hempty, hid, eq_comm]

/-- An id without a next one fails as `.invalidRunId id`. -/
theorem eq_invalidRunId_of_next (h : RunId.next id = .error f) : f = .invalidRunId id := (next_eq_error_iff.1 h).2.2

/-- The id after the text of the number `n` is the text of `n + 1`. -/
theorem next_text {n : Nat} (h : n + 1 < Decimal.limit64) :
    RunId.next (Decimal.text n) = .ok (Decimal.text (n + 1)) := by
  have hvalue : value (Decimal.text n) = n := Decimal.digitsValue_text n
  have hid : IsNumber (Decimal.text n) := by
    refine ⟨Decimal.text_ne_empty n, Decimal.allDigits_text n, ?_⟩
    rw [Decimal.limit64] at h
    omega
  rw [next_of_isNumber hid, hvalue]

/-- An id that has a next one has digits only; the empty one has none. -/
theorem allDigits_of_next (h : RunId.next id = .ok next) : Decimal.AllDigits id.toList := by
  rcases next_eq_ok_iff.1 h with ⟨rfl, -⟩ | ⟨hid, -⟩
  · exact fun c hc => absurd hc (by simp)
  · exact hid.digits

/-- **The id after another one is the text of a number**, without zeros in front. -/
theorem exists_text_of_next (h : RunId.next id = .ok next) : ∃ n, next = Decimal.text n := by
  rcases next_eq_ok_iff.1 h with ⟨-, rfl⟩ | ⟨-, rfl⟩
  · exact ⟨0, rfl⟩
  · exact ⟨_, rfl⟩

/-- **The id after another one has digits only**, as the text of a number. -/
theorem allDigits_next (h : RunId.next id = .ok next) : Decimal.AllDigits next.toList := by
  obtain ⟨n, rfl⟩ := exists_text_of_next h
  exact Decimal.allDigits_text n

/-- **An id that has a next one has no slash**, so that it names a directory of its own. -/
theorem slash_notMem_of_next (h : RunId.next id = .ok next) : '/' ∉ id.toList :=
  (allDigits_of_next h).notMem (by decide)

/-- **The id after another one has no slash**, for it has digits only. -/
theorem slash_notMem_next (h : RunId.next id = .ok next) : '/' ∉ next.toList :=
  (allDigits_next h).notMem (by decide)

/-! ## The order of ids -/

/-- **The next id comes behind the id**, in the order of texts, unless the id has nines only. -/
theorem lt_next_iff (hne : id ≠ "") (h : RunId.next id = .ok next) : id < next ↔ ¬ ∀ c ∈ id.toList, c = '9' := by
  obtain ⟨hid, rfl⟩ := (next_eq_ok_iff.1 h).resolve_left fun hempty => hne hempty.1
  rw [String.lt_iff_toList_lt]
  by_cases hplain : id.toList.head? = some '0' → id.toList = ['0']
  · -- without zeros in front the id is the text of its number
    have hnumeral : Decimal.IsNumeral id.toList (value id) :=
      ⟨mt String.toList_eq_nil_iff.1 hne, hid.digits, hplain, rfl⟩
    have htext := Decimal.text_lt_text_succ_iff (n := value id)
    rwa [← Decimal.isNumeral_iff.1 hnumeral] at htext
  · -- otherwise the next number begins with a greater digit, and the zero is no nine
    obtain ⟨hzero, -⟩ := Classical.not_imp.1 hplain
    obtain ⟨rest, hrest⟩ := List.head?_eq_some_iff.1 hzero
    obtain ⟨d, ds, hnext, hd⟩ := (Decimal.isNumeral_text (value id + 1)).exists_zero_lt (Nat.succ_ne_zero _)
    rw [hrest, hnext]
    refine iff_of_true (List.cons_lt_cons_iff.2 (.inl hd)) fun hnines => ?_
    exact absurd (hnines '0' List.mem_cons_self) (by decide)

/-- **The next id comes no later than a greater one**, `other`, of the same length, when neither has zeros in front. -/
theorem next_le_of_lt {other : String} {n m : Nat} (h : RunId.next id = .ok next)
    (hid : Decimal.IsNumeral id.toList n) (hother : Decimal.IsNumeral other.toList m)
    (hlen : other.length = id.length) (hnm : n < m) : next ≤ other := by
  obtain ⟨-, rfl⟩ := (next_eq_ok_iff.1 h).resolve_left fun hempty => hid.ne_nil (hempty.1 ▸ rfl)
  obtain rfl : value id = n := hid.value_eq
  rw [String.le_iff_toList_le, Decimal.isNumeral_iff.1 hother]
  refine Decimal.text_succ_le_text ?_ hnm
  rw [← Decimal.isNumeral_iff.1 hid, ← Decimal.isNumeral_iff.1 hother, String.length_toList, String.length_toList]
  exact hlen.symm

/-! ## Keys and places -/

/-- The place `root/id`, as characters. -/
theorem toList_place (root id : String) : (root ++ "/" ++ id).toList = (root.toList ++ ['/']) ++ id.toList := by
  simp

/-- Places are in the order of the ids that name them: what stands before is the same. -/
theorem place_lt_place_iff (root : String) : root ++ "/" ++ id < root ++ "/" ++ next ↔ id < next := by
  rw [String.lt_iff_toList_lt, toList_place, toList_place, Text.append_left_lt_iff, ← String.lt_iff_toList_lt]

/-- **The objects of a run come before the place of `next`** exactly when `id < next`. A slash comes before each
digit. -/
theorem key_lt_place_iff (hdigits : Decimal.AllDigits next.toList) (root name : String) :
    root ++ "/" ++ id ++ "/" ++ name < root ++ "/" ++ next ↔ id < next := by
  have hkey : (root ++ "/" ++ id ++ "/" ++ name).toList
      = (root.toList ++ ['/']) ++ (id.toList ++ '/' :: name.toList) := by simp
  rw [String.lt_iff_toList_lt, hkey, toList_place, Text.append_left_lt_iff, Text.append_slash_lt_iff hdigits,
    ← String.lt_iff_toList_lt]

/-- No object of a run has the name of a place: its name has a slash more. -/
theorem place_ne_key (hslash : '/' ∉ next.toList) (root name : String) :
    root ++ "/" ++ next ≠ root ++ "/" ++ id ++ "/" ++ name := by
  intro heq
  have hnext : next.toList = id.toList ++ '/' :: name.toList := by
    have hlist := congrArg String.toList heq
    simpa using hlist
  rw [hnext] at hslash
  exact hslash (List.mem_append_right _ List.mem_cons_self)

/-- **They come behind it** exactly when `next ≤ id`. -/
theorem place_lt_key_iff (hdigits : Decimal.AllDigits next.toList) (root name : String) :
    root ++ "/" ++ next < root ++ "/" ++ id ++ "/" ++ name ↔ next ≤ id := by
  rw [lt_iff_le_and_ne, ← not_lt, key_lt_place_iff hdigits, not_lt]
  exact and_iff_left (place_ne_key (hdigits.notMem (by decide)) root name)

/-- **Where the objects of runs lie about the place of the next id**, in the order of their bytes: those of `id` before
it, and those of later ids of the length of `next` behind it. -/
structure Separates (id next : String) : Prop where
  /-- All objects of the run come before the place, when the next id comes behind the id. -/
  before : Before id next → ∀ root name : String, Before (root ++ "/" ++ id ++ "/" ++ name) (root ++ "/" ++ next)
  /-- All objects of a run with a greater id come behind it, when both ids have one length and no zeros in front. -/
  behind : ∀ (n m : Nat) (other : String), Decimal.IsNumeral id.toList n → Decimal.IsNumeral other.toList m →
    other.length = id.length → n < m →
      ∀ root name : String, Before (root ++ "/" ++ next) (root ++ "/" ++ other ++ "/" ++ name)

/-- The next id separates the run from later ones: `Separates id next`. -/
theorem separates_next (h : RunId.next id = .ok next) : Separates id next where
  before hlt root name := by
    rw [before_iff_lt] at hlt ⊢
    exact (key_lt_place_iff (allDigits_next h) root name).2 hlt
  behind n m other hid hother hlen hnm root name := by
    rw [before_iff_lt, place_lt_key_iff (allDigits_next h)]
    exact next_le_of_lt h hid hother hlen hnm

/-- **How ids count on.** The first id is zero. Behind it the ids with a next one are the numbers below the last one of
64 bits, whatever zeros stand in front, and the next one is the next number as it is written; any other id is refused by
its name. The place of the next id lies behind the objects of the run, when the next id comes behind the id, and before
those of all later runs with ids of that length. -/
theorem next_eq_succ_and_separates (id : String) :
    RunId.next "" = .ok "0"
      ∧ (id ≠ "" →
        (∀ next, RunId.next id = .ok next ↔ IsNumber id ∧ Decimal.IsNumeral next.toList (value id + 1))
        ∧ (∀ f, RunId.next id = .error f ↔ ¬ IsNumber id ∧ f = .invalidRunId id)
        ∧ ∀ next, RunId.next id = .ok next → Separates id next) := by
  refine ⟨next_empty, fun hne => ⟨fun next => ?_, fun f => ?_, fun next => separates_next⟩⟩
  · rw [next_eq_ok_iff, Decimal.isNumeral_iff, String.toList_inj]
    simp [hne]
  · rw [next_eq_error_iff]
    simp [hne]

/-- A number with a zero in front, and the one without it: the next hundred lies behind the objects of both, and before
those of the runs from there on. -/
theorem next_eq_succ_and_separates_hundred :
    RunId.next "0199" = .ok "200"
      ∧ (∀ root name : String, Before (root ++ "/" ++ "0199" ++ "/" ++ name) (root ++ "/" ++ "200"))
      ∧ ∀ root name : String, Before (root ++ "/" ++ "200") (root ++ "/" ++ "203" ++ "/" ++ name) := by
  have hzero : IsNumber "0199" := ⟨by decide, by decide, by decide⟩
  have hplain : IsNumber "199" := ⟨by decide, by decide, by decide⟩
  have hnumeral : ∀ n, "200" = Decimal.text n → Decimal.IsNumeral "200".toList n := fun n h =>
    Decimal.isNumeral_iff.2 (congrArg String.toList h)
  obtain ⟨hok, -, hseparates⟩ := (next_eq_succ_and_separates "0199").2 hzero.ne_empty
  obtain ⟨hokPlain, -, hplainly⟩ := (next_eq_succ_and_separates "199").2 hplain.ne_empty
  have hhundred := (hok "200").2 ⟨hzero, hnumeral _ (by decide +kernel)⟩
  have hagain := (hokPlain "200").2 ⟨hplain, hnumeral _ (by decide +kernel)⟩
  refine ⟨hhundred, (hseparates "200" hhundred).before (before_iff_lt.2 (by decide)), ?_⟩
  refine (hplainly "200" hagain).behind 199 203 "203" ?_ ?_ (by decide) (by decide)
  · exact Decimal.isNumeral_iff.2 (by decide +kernel)
  · exact Decimal.isNumeral_iff.2 (by decide +kernel)

/-- Behind nines the next id comes before the id, the last number of 64 bits has no next one, and the digits of other
scripts are none. -/
example : RunId.next "99" = .ok "100" ∧ "100" < "99" ∧ RunId.next "18446744073709551614" = .ok "18446744073709551615"
    ∧ RunId.next "18446744073709551615" = .error (.invalidRunId "18446744073709551615")
    ∧ RunId.next "٣" = .error (.invalidRunId "٣") := by
  decide +kernel

end PayloadGate.RunId
