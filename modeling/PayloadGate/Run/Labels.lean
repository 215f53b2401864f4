/-! # Labels of a run

**`Labels`** is a map from label names to values, held as entries in strictly ascending order of the
names, so that two maps with the same entries are equal. -/

namespace PayloadGate

/-- **A map of labels**: entries in strictly ascending order of the names, so that two maps with the same values are
equal. -/
structure Labels where
  /-- The names with their values. -/
  entries : List (String × String)
  /-- Each name stands once, and behind all smaller ones. -/
  ascending : entries.Pairwise fun a b => a.1 < b.1
  deriving DecidableEq

namespace Labels

/-- The map without entries. -/
def empty : Labels := ⟨[], .nil⟩

/-- Entries with a value for `name` put in place, an earlier value of that name given up. -/
def putEntry (name value : String) : List (String × String) → List (String × String)
  | [] => [(name, value)]
  | e :: es =>
    if name < e.1 then (name, value) :: e :: es
    else if e.1 < name then e :: putEntry name value es
    -- a name that is there already gets the new value
    else (name, value) :: es

/-- An entry afterwards is the new one, or one of the old ones `es`. -/
theorem mem_putEntry {name value : String} {es : List (String × String)} {e : String × String}
    (h : e ∈ putEntry name value es) : e = (name, value) ∨ e ∈ es := by
  induction es with
  | nil => simpa [putEntry] using h
  | cons x xs ih => grind [putEntry]

/-- Putting a value in place keeps the strict order of the names. -/
theorem pairwise_putEntry (name value : String) {es : List (String × String)}
    (h : es.Pairwise fun a b => a.1 < b.1) :
    (putEntry name value es).Pairwise fun a b => a.1 < b.1 := by
  -- by induction on the entries: the new one goes before the first larger name, or takes the place of its own
  induction es with
  | nil => simp [putEntry]
  | cons x xs ih =>
    rw [List.pairwise_cons] at h
    unfold putEntry
    split
    · rename_i hlt
      refine List.pairwise_cons.2 ⟨fun e he => ?_, List.pairwise_cons.2 h⟩
      rcases List.mem_cons.1 he with rfl | he
      · exact hlt
      · exact String.lt_trans hlt (h.1 e he)
    · split
      · rename_i hgt
        refine List.pairwise_cons.2 ⟨fun e he => ?_, ih h.2⟩
        rcases mem_putEntry he with rfl | he
        · exact hgt
        · exact h.1 e he
      · rename_i hlt hgt
        have heq : name = x.1 :=
          String.le_antisymm (String.not_lt.1 hgt) (String.not_lt.1 hlt)
        exact List.pairwise_cons.2 ⟨fun e he => heq ▸ h.1 e he, h.2⟩

/-- **A map with one more entry**, or with a new value for a name it has. -/
def insert (labels : Labels) (name value : String) : Labels :=
  ⟨putEntry name value labels.entries, pairwise_putEntry name value labels.ascending⟩

/-- **The map of a list of entries**; of entries with one name the last counts, as later ones are inserted later. -/
def ofList (es : List (String × String)) : Labels :=
  es.foldl (fun labels e => labels.insert e.1 e.2) empty

/-- **The value of the label `name`**, when there is one. -/
def get? (labels : Labels) (name : String) : Option String := labels.entries.lookup name

end Labels

end PayloadGate
