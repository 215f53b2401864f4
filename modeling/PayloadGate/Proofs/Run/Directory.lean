import PayloadGate.Proofs.Run.Resolve
import PayloadGate.Proofs.Store.Agreement
import PayloadGate.Proofs.Walk.Canonical

/-! # Runs and their directories

The listing that holds the objects of a run may hold those of other runs as well. They do not count: what a run resolves
to follows from the objects in its own directory.

* **`DescriptorIn`** — a descriptor that lies in a directory.
* **`Snapshot.runFiles_eq_filter`** — only the objects in the directory of a run count.
* **`Snapshot.resolve_congr`** — a run resolves to the same in stores that agree on its directory.
* **`admits_runListing`** — the listing of a run holds its directory.
* **`Snapshot.exists_resolve_eq`** — a run with a descriptor resolves to what the descriptor holds. -/

namespace PayloadGate

variable {store store' : Snapshot} {files : RunFiles} {directory : String} {place : RunPlace}

/-! ## The descriptor -/

/-- The key of the descriptor among the objects that count: if there is one, it is that of the `directory`. -/
def DescriptorIn (directory : String) (files : RunFiles) : Prop :=
  ∀ key, files.descriptor = some key → key = directory ++ descriptorName

/-- One object more keeps `DescriptorIn`, whatever its key. -/
theorem DescriptorIn.note (h : DescriptorIn directory files) (key : String) :
    DescriptorIn directory (files.note directory key) := by
  rw [RunFiles.note]
  cases hafter : Text.after? directory key with
  | none => exact h
  | some name =>
    have hkey := Text.after?_eq_some_iff.1 hafter
    dsimp only
    by_cases hname : name = descriptorName
    · rw [if_pos hname]
      rintro key' hkey'
      rw [← Option.some.inj hkey', hkey, hname]
    · rw [if_neg hname]
      by_cases hresult : isResultKey key = true
      · rw [if_pos hresult]
        exact h
      · rw [if_neg hresult]
        exact h

/-- Some objects more keep `DescriptorIn`. -/
theorem DescriptorIn.foldl (h : DescriptorIn directory files) (records : List ObjectRecord) :
    DescriptorIn directory (records.foldl (fun files r => files.note directory r.key) files) := by
  induction records generalizing files with
  | nil => exact h
  | cons o records ih => exact ih (h.note o.key)

/-- The descriptor of a run lies in its directory, whatever its listing holds. -/
theorem Snapshot.descriptorIn_runFiles (store : Snapshot) (place : RunPlace) (next : String) :
    DescriptorIn place.directory (store.runFiles place next) :=
  DescriptorIn.foldl (fun _ hkey => absurd hkey (by simp [RunFiles.none])) _

/-! ## The objects that count -/

/-- Whether an object lies in a directory: its key begins with it. -/
def isIn (directory : String) (r : ObjectRecord) : Bool := directory.toList.isPrefixOf r.key.toList

/-- An object outside the directory does not count: `note` leaves `files` as they are. -/
theorem note_of_not_isIn {r : ObjectRecord} (h : isIn directory r = false) : files.note directory r.key = files := by
  rw [RunFiles.note, Text.after?]
  cases hprefix : directory.toList.isPrefixOf? r.key.toList with
  | none => rfl
  | some rest =>
    rw [List.isPrefixOf?_eq_some_iff_append_eq] at hprefix
    rw [isIn, ← hprefix, List.isPrefixOf_iff_prefix.2 (List.prefix_append _ _)] at h
    exact absurd h (by simp)

/-- **Only the objects in its directory count** for a run: the others can be filtered out of its listing first. -/
theorem Snapshot.runFiles_eq_filter (store : Snapshot) (place : RunPlace) (next : String) :
    store.runFiles place next
      = ((store.listing (runListing place.root place.id next)).filter (isIn place.directory)).foldl
        (fun files r => files.note place.directory r.key) .none := by
  rw [Snapshot.runFiles, List.foldl_filter]
  congr 1
  funext files r
  cases hin : isIn place.directory r with
  | true => rfl
  | false => exact note_of_not_isIn hin

/-- **A run resolves to the same in stores that agree on its directory**, on the objects there and on their contents. -/
theorem Snapshot.resolve_congr
    (hrecords : ∀ r : ObjectRecord, place.directory.toList <+: r.key.toList →
      (r ∈ store.records ↔ r ∈ store'.records))
    (hcontent : ∀ key : String, place.directory.toList <+: key.toList → store.content key = store'.content key) :
    store.resolve place = store'.resolve place := by
  have hlisting : ∀ q : ListQuery, (store.listing q).filter (isIn place.directory)
      = (store'.listing q).filter (isIn place.directory) :=
    Snapshot.filter_listing_eq fun r hr => hrecords r (List.isPrefixOf_iff_prefix.1 hr)
  -- the listings may differ outside of the directory, but no note is taken of what lies there
  have hfiles : ∀ next, store.runFiles place next = store'.runFiles place next := fun next => by
    rw [store.runFiles_eq_filter, store'.runFiles_eq_filter, hlisting]
  rw [Snapshot.resolve, Snapshot.resolve]
  cases RunId.next place.id with
  | error f => rfl
  | ok next =>
    dsimp only
    rw [hfiles next]
    cases hd : (store'.runFiles place next).descriptor with
    | none => rfl
    | some key =>
      have hkey := store'.descriptorIn_runFiles place next key hd
      have hin : place.directory.toList <+: key.toList := by
        rw [hkey, String.toList_append]
        exact List.prefix_append _ _
      dsimp only
      rw [hcontent key hin]

/-! ## Runs with a descriptor -/

/-- The descriptor is noted, when its key comes. -/
theorem descriptor_note (files : RunFiles) (directory : String) :
    (files.note directory (directory ++ descriptorName)).descriptor = some (directory ++ descriptorName) := by
  have hafter : Text.after? directory (directory ++ descriptorName) = some descriptorName :=
    Text.after?_eq_some_iff.2 rfl
  rw [RunFiles.note, hafter]
  exact congrArg RunFiles.descriptor (if_pos rfl)

/-- A descriptor that has been noted is not forgotten, whatever key comes behind it. -/
theorem isSome_descriptor_note (h : files.descriptor.isSome = true) (directory key : String) :
    (files.note directory key).descriptor.isSome = true := by
  rw [RunFiles.note]
  cases Text.after? directory key with
  | none => exact h
  | some name =>
    dsimp only
    split_ifs
    · rfl
    · exact h
    · exact h

/-- **A descriptor among the objects is noted**, or has been before them. -/
theorem isSome_descriptor_foldl {records : List ObjectRecord}
    (h : files.descriptor.isSome = true ∨ ∃ r ∈ records, r.key = directory ++ descriptorName) :
    (records.foldl (fun files r => files.note directory r.key) files).descriptor.isSome = true := by
  -- by induction on the records: a descriptor that was noted stays noted
  induction records generalizing files with
  | nil =>
    rcases h with h | ⟨r, hr, -⟩
    · exact h
    · exact absurd hr List.not_mem_nil
  | cons x records ih =>
    refine ih ?_
    rcases h with h | ⟨r, hr, hkey⟩
    · exact .inl (isSome_descriptor_note h directory x.key)
    · rcases List.mem_cons.1 hr with rfl | hr
      · refine .inl ?_
        dsimp only
        rw [hkey, descriptor_note]
        rfl
      · exact .inr ⟨r, hr, hkey⟩

/-- **The listing of a run holds the objects of its directory**: the query admits each key below `root/id/`. -/
theorem admits_runListing {root id next name : String} {r : ObjectRecord} (hnext : RunId.next id = .ok next)
    (hkey : Walk.splitKey? root r.key = some (id, name)) : (runListing root id next).admits r.key = true := by
  have htext := Walk.key_eq_of_splitKey? hkey
  rw [runListing, ListQuery.admits_iff]
  split
  · rename_i hplaces
    have hstart : root ++ "/" ++ id < r.key := by
      rw [htext, RunId.place_lt_key_iff (RunId.allDigits_of_next hnext)]
    -- the objects of the run come before the next place as the place of the run does
    have hstop : r.key < root ++ "/" ++ next := by
      rw [htext, RunId.key_lt_place_iff (RunId.allDigits_next hnext)]
      exact (RunId.place_lt_place_iff root).1 hplaces
    exact ⟨Walk.isPrefix_of_splitKey? hkey, by rintro _ ⟨⟩; exact hstart.le, by rintro _ ⟨⟩; exact hstop⟩
  · refine ⟨?_, by simp [ListQuery.allUnder], by simp [ListQuery.allUnder]⟩
    rw [htext, ListQuery.allUnder, String.toList_append (t := name)]
    exact List.prefix_append _ _

/-- **A run with a descriptor resolves to what the descriptor holds**: to its failure, or to the run with some result
files. -/
theorem Snapshot.exists_resolve_eq {next : String} {r : ObjectRecord} (hnext : RunId.next place.id = .ok next)
    (hr : r ∈ store.records)
    (hkey : Walk.splitKey? place.root r.key = some (place.id, descriptorName)) :
    ∃ results, store.resolve place
      = (store.content r.key >>= Descriptor.ofBytes).map fun d => some (place.toRun r.key results d) := by
  have hrkey : r.key = place.directory ++ descriptorName := Walk.key_eq_of_splitKey? hkey
  have hlisted : r ∈ store.listing (runListing place.root place.id next) :=
    Snapshot.mem_listing.2 ⟨hr, admits_runListing hnext hkey⟩
  have hnoted : (store.runFiles place next).descriptor = some r.key := by
    have hsome : (store.runFiles place next).descriptor.isSome = true :=
      isSome_descriptor_foldl (.inr ⟨r, hlisted, hrkey⟩)
    obtain ⟨key, hdescriptor⟩ := Option.isSome_iff_exists.1 hsome
    rw [hdescriptor, store.descriptorIn_runFiles place next key hdescriptor, hrkey]
  refine ⟨(store.runFiles place next).results.reverse, ?_⟩
  rw [Snapshot.resolve, hnext]
  dsimp only
  rw [hnoted]

end PayloadGate
