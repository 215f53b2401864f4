import PayloadGate.Text.Blank
import Mathlib.Data.List.TakeWhile
import Mathlib.Data.String.Basic

/-! # Trimmed texts

* **`Text.takeWhile_run`**, **`Text.dropWhile_run`** — a run of characters ends before what is none of them;
  **`Text.run_append_inj`** — so that it can be told from the text behind it.
* **`Text.Trimmed`** — a text without blanks at its two ends.
* **`Text.trimmed_trim`** — trimming makes one; **`Text.trim_of_trimmed`** — and leaves it as it is.
* **`Text.trimmed_of_nonBlank`** — an optional text that is left when it is not blank is one, and not empty. -/

namespace PayloadGate.Text

variable {p : Char → Bool} {cs tail : List Char} {s : String} {c : Char}

/-- **A run ends before what is none of it**: `takeWhile p (run ++ rest) = run` when `rest` does not begin with `p`. -/
theorem takeWhile_run {α : Type} {p : α → Bool} {run rest : List α} (hrun : ∀ x ∈ run, p x = true)
    (hrest : ∀ x ∈ rest.head?, p x = false) : (run ++ rest).takeWhile p = run := by
  rw [List.takeWhile_append_of_pos hrun]
  cases rest with
  | nil => rw [List.takeWhile_nil, List.append_nil]
  | cons x rest => rw [List.takeWhile_cons_of_neg (by simp [hrest x rfl]), List.append_nil]

/-- **What stands behind a run is left**: `dropWhile p (run ++ rest) = rest`. -/
theorem dropWhile_run {α : Type} {p : α → Bool} {run rest : List α} (hrun : ∀ x ∈ run, p x = true)
    (hrest : ∀ x ∈ rest.head?, p x = false) : (run ++ rest).dropWhile p = rest := by
  rw [List.dropWhile_append_of_pos hrun]
  cases rest with
  | nil => rfl
  | cons x rest => rw [List.dropWhile_cons_of_neg (by simp [hrest x rfl])]

/-- **A run is told from what stands behind it**: `run` and `rest` are those of `run ++ rest`. -/
theorem run_append_inj {α : Type} {p : α → Bool} {run run' rest rest' : List α} (hrun : ∀ x ∈ run, p x = true)
    (hrun' : ∀ x ∈ run', p x = true) (hrest : ∀ x ∈ rest.head?, p x = false) (hrest' : ∀ x ∈ rest'.head?, p x = false)
    (h : run ++ rest = run' ++ rest') : run = run' ∧ rest = rest' := by
  have hsame : run = run' := by rw [← takeWhile_run hrun hrest, h, takeWhile_run hrun' hrest']
  exact ⟨hsame, List.append_cancel_left (hsame ▸ h)⟩

/-- **A text without blanks at its two ends**: neither its first nor its last character is `isBlank`. -/
structure Trimmed (s : String) : Prop where
  /-- The first character. -/
  first : ∀ c, s.toList.head? = some c → isBlank c = false
  /-- The last character. -/
  last : ∀ c, s.toList.getLast? = some c → isBlank c = false

/-- What `dropWhile p` leaves does not begin with `p`. -/
theorem head?_dropWhile (h : (cs.dropWhile p).head? = some c) : p c = false := by
  have hnot := List.head?_dropWhile_not p cs
  rwa [h] at hnot

/-- What is left before an end of a class does not end with the class. -/
theorem getLast?_dropTail (h : (dropTail p cs).getLast? = some c) : p c = false := by
  rw [dropTail, List.getLast?_reverse] at h
  exact head?_dropWhile h

/-- What is left before an end is a beginning of the text. -/
theorem prefix_dropTail (p : Char → Bool) (cs : List Char) : dropTail p cs <+: cs := by
  rw [dropTail, ← List.reverse_suffix, List.reverse_reverse]
  exact List.dropWhile_suffix p

/-- What is left between two ends does not begin with their class. -/
theorem head?_strip (h : (strip p cs).head? = some c) : p c = false := by
  obtain ⟨rest, hrest⟩ := prefix_dropTail p (cs.dropWhile p)
  have hhead : (cs.dropWhile p).head? = some c := by
    rw [← hrest, List.head?_append]
    exact Option.or_eq_some_iff.2 (.inl h)
  exact head?_dropWhile hhead

/-- An end of a class is cut off together with what stands behind it. -/
theorem dropTail_append (h : ∀ c ∈ tail, p c = true) (cs : List Char) : dropTail p (cs ++ tail) = dropTail p cs := by
  have hreverse : ∀ c ∈ tail.reverse, p c = true := fun c hc => h c (List.mem_reverse.1 hc)
  rw [dropTail, List.reverse_append, List.dropWhile_append_of_pos hreverse, dropTail]

/-- A text that does not end with a class keeps its end. -/
theorem dropTail_eq_self (h : ∀ c, cs.getLast? = some c → p c = false) : dropTail p cs = cs := by
  have hhead : cs.reverse.dropWhile p = cs.reverse :=
    dropWhile_run (List.forall_mem_nil _) fun c hc => h c (List.head?_reverse ▸ hc)
  rw [dropTail, hhead, List.reverse_reverse]

/-- What is cut off an end is of the class. -/
theorem exists_dropTail_append (p : Char → Bool) (cs : List Char) :
    ∃ tail, cs = dropTail p cs ++ tail ∧ ∀ c ∈ tail, p c = true := by
  refine ⟨(cs.reverse.takeWhile p).reverse, ?_, fun c hc => ?_⟩
  · rw [dropTail, ← List.reverse_append, List.takeWhile_append_dropWhile, List.reverse_reverse]
  · exact List.mem_takeWhile_imp (List.mem_reverse.1 hc)

/-- Trimming adds nothing to a text. -/
theorem toList_trim_sublist (s : String) : (trim s).toList.Sublist s.toList := by
  rw [trim, String.toList_ofList]
  exact (prefix_dropTail isBlank _).sublist.trans (List.dropWhile_suffix isBlank).sublist

/-- **Trimming leaves no blanks at the ends**: `Trimmed (trim s)`. -/
theorem trimmed_trim (s : String) : Trimmed (trim s) := by
  refine ⟨fun c h => ?_, fun c h => ?_⟩
  · rw [trim, String.toList_ofList] at h
    exact head?_strip h
  · rw [trim, String.toList_ofList] at h
    exact getLast?_dropTail h

/-- **A trimmed text is left as it is**: `trim s = s`, so that trimming twice is trimming once. -/
theorem trim_of_trimmed (h : Trimmed s) : trim s = s := by
  have hfirst : s.toList.dropWhile isBlank = s.toList := dropWhile_run (List.forall_mem_nil _) h.first
  rw [trim, strip, hfirst, dropTail_eq_self h.last, String.ofList_toList]

/-- Trimming does not leave a text that is not blank empty: it has a character that is no blank, and that one stays. -/
theorem trim_ne_empty (h : isAllBlank s = false) : trim s ≠ "" := by
  intro hempty
  rw [trim, ← String.toList_inj, String.toList_ofList, String.toList_empty, strip] at hempty
  -- no blank is left in front, and what is cut off behind is blank
  obtain ⟨tail, hcut, htail⟩ := exists_dropTail_append isBlank (s.toList.dropWhile isBlank)
  rw [hempty, List.nil_append] at hcut
  rw [isAllBlank, List.all_eq_false] at h
  obtain ⟨c, hc, hblank⟩ := h
  rw [← List.takeWhile_append_dropWhile (p := isBlank) (l := s.toList), List.mem_append, hcut] at hc
  rcases hc with hc | hc
  · exact hblank (List.mem_takeWhile_imp hc)
  · exact hblank (htail c hc)

/-- A trimmed text that is not empty is not blank. -/
theorem isAllBlank_of_trimmed (h : Trimmed s) (hne : s ≠ "") : isAllBlank s = false := by
  rw [isAllBlank, List.all_eq_false]
  cases hs : s.toList with
  | nil => exact absurd (String.toList_eq_nil_iff.1 hs) hne
  | cons c rest => exact ⟨c, List.mem_cons_self, by simp [h.first c (by rw [hs, List.head?_cons])]⟩

/-- **An optional text that is left**, `nonBlank value = some s`, is not empty, and has no blanks at its ends. -/
theorem trimmed_of_nonBlank {value : Option String} (h : nonBlank value = some s) : s ≠ "" ∧ Trimmed s := by
  obtain ⟨htrim, hne⟩ := Option.filter_eq_some_iff.1 h
  obtain ⟨t, -, rfl⟩ := Option.map_eq_some_iff.1 htrim
  exact ⟨of_decide_eq_true hne, trimmed_trim t⟩

end PayloadGate.Text
