import PayloadGate.Proofs.Run.Directory
import PayloadGate.Proofs.Store.Steady

/-! # Runs and plain scans of their directories

The listing of a run ends at the place of the next id, and when that place lies before the run it is the listing of a
directory. Either way a run resolves to what a plain scan of all keys finds that begin with its directory.

* **`Snapshot.keysUnder`**, **`Snapshot.scan`** — the keys of a directory, and what the scan of a run comes to;
  **`Snapshot.Holds`**, **`Snapshot.scan_eq_some_iff`** — what a run holds that it finds.
* **`Snapshot.filter_listing_runListing`** — the listing of a run holds its whole directory.
* **`descriptor_foldl`**, **`results_foldl`** — the objects of a list that count.
* **`Snapshot.resolve_eq_scan`** — a run resolves to what the scan comes to.
* **`AgreeIn`**, **`Resolver.resolves_scan`** — a whole resolution comes to what the scan of the directory comes to,
  whatever pages the store cuts and whatever it holds elsewhere. -/

namespace PayloadGate

variable {store store' : Snapshot} {files : RunFiles} {directory : String} {place : RunPlace}

/-! ## Scans -/

/-- The key of the descriptor of a run, `root/id/prowjob.json`. -/
def RunPlace.descriptorKey (p : RunPlace) : String := p.directory ++ descriptorName

namespace Snapshot

/-- **The keys of a directory**: all keys that begin with it, in ascending order, as `store.records` are. -/
def keysUnder (store : Snapshot) (directory : String) : List String :=
  (store.records.map (·.key)).filter fun key => directory.toList.isPrefixOf key.toList

/-- The keys of the result files of a run: those of its directory that name one, the descriptor apart. -/
def resultKeysUnder (store : Snapshot) (place : RunPlace) : List String :=
  (store.keysUnder place.directory).filter fun key => decide (key ≠ place.descriptorKey) && isResultKey key

/-- **What a plain scan of the directory of a run comes to**: nothing without a descriptor, the failure to read or to
parse the descriptor, or the run with its result files. -/
def scan (store : Snapshot) (place : RunPlace) : Except Failure (Option JobRun) :=
  if place.descriptorKey ∈ store.keysUnder place.directory then
    (store.content place.descriptorKey >>= Descriptor.ofBytes).map fun d =>
      some (place.toRun place.descriptorKey (store.resultKeysUnder place) d)
  else .ok none

/-- A key is one of the directory when an object has it and it begins with the `directory`. -/
theorem mem_keysUnder {key : String} :
    key ∈ store.keysUnder directory ↔ (∃ r ∈ store.records, r.key = key) ∧ directory.toList <+: key.toList := by
  rw [keysUnder, List.mem_filter, List.mem_map, List.isPrefixOf_iff_prefix]

/-- The keys of a directory are in strictly ascending order, each of them once. -/
theorem ascending_keysUnder (store : Snapshot) (directory : String) :
    (store.keysUnder directory).Pairwise (· < ·) :=
  (List.pairwise_map.2 store.ascending).filter _

/-- The keys of a directory are those of the objects that are `isIn` it. -/
theorem keysUnder_eq_map (store : Snapshot) (directory : String) :
    store.keysUnder directory = (store.records.filter (isIn directory)).map (·.key) := by
  rw [keysUnder, List.filter_map]
  rfl

/-- **A scan finds no run exactly when there is no descriptor** among the keys of the directory, whatever else it
holds. -/
theorem scan_eq_none_iff : store.scan place = .ok none ↔ place.descriptorKey ∉ store.keysUnder place.directory := by
  rw [scan]
  split_ifs with hmem
  · refine iff_of_false (fun h => ?_) (not_not.2 hmem)
    cases hcontent : store.content place.descriptorKey >>= Descriptor.ofBytes with
    | error f =>
      rw [hcontent] at h
      exact absurd h (by simp [Except.map])
    | ok d =>
      rw [hcontent] at h
      exact absurd h (by simp [Except.map])
  · exact iff_of_true rfl hmem

/-- **The run of a directory**: its `descriptor` is what the object `descriptorKey` is parsed as, and its `resultKeys`
are those of the directory. -/
structure Holds (store : Snapshot) (place : RunPlace) (run : JobRun) : Prop where
  /-- The descriptor object is one of the keys of the directory. -/
  mem : place.descriptorKey ∈ store.keysUnder place.directory
  /-- The run has its key. -/
  descriptorKey_eq : run.descriptorKey = place.descriptorKey
  /-- The run has its descriptor, as it is read and parsed. -/
  descriptor_eq : (store.content place.descriptorKey >>= Descriptor.ofBytes) = .ok run.descriptor
  /-- The run has the result files of the directory. -/
  resultKeys_eq : run.resultKeys = store.resultKeysUnder place
  /-- The run is the one of the place. -/
  names_eq : run.jobName = place.job ∧ run.runId = place.id ∧ run.root = place.root
  /-- Its links are those of the place. -/
  links_eq : run.humanUrl = place.links.humanUrl place.root place.id
    ∧ run.artifactUrl = place.links.artifactUrl place.root place.id

/-- **A scan finds the run of the directory**, and no other one: `scan place = .ok (some run) ↔ Holds place run`. -/
theorem scan_eq_some_iff {run : JobRun} : store.scan place = .ok (some run) ↔ store.Holds place run := by
  rw [scan]
  constructor
  · -- with the descriptor listed, a run comes out exactly when its content is read as one
    intro h
    split_ifs at h with hmem
    · cases hcontent : store.content place.descriptorKey >>= Descriptor.ofBytes with
      | error f =>
        rw [hcontent] at h
        exact absurd h (by simp [Except.map])
      | ok d =>
        rw [hcontent] at h
        obtain rfl := Option.some.inj (Except.ok.inj h)
        exact ⟨hmem, rfl, hcontent, rfl, ⟨rfl, rfl, rfl⟩, ⟨rfl, rfl⟩⟩
    · exact absurd h (by simp)
  · rintro ⟨hmem, hkey, hcontent, hresults, ⟨hjob, hid, hroot⟩, hhuman, hartifact⟩
    rw [if_pos hmem, hcontent, ← hresults, ← hkey]
    cases run
    simp only at hjob hid hroot hhuman hartifact
    simp only [Except.map, RunPlace.toRun, hjob, hid, hroot, hhuman, hartifact]

end Snapshot

/-! ## The listing of a run -/

/-- The listing of a run is about keys below some text, never about all keys. -/
theorem under_runListing_ne_empty (root id next : String) : (runListing root id next).under ≠ "" := by
  have hslash : ∀ text : String, text ++ "/" ≠ "" := fun text h => by
    simpa using congrArg String.toList h
  rw [runListing]
  split
  · exact hslash _
  · exact hslash _

/-- **The listing of a run holds its whole directory**: filtered by `isIn`, listing and store have the same objects. -/
theorem Snapshot.filter_listing_runListing (store : Snapshot) {next : String} (hnext : RunId.next place.id = .ok next) :
    (store.listing (runListing place.root place.id next)).filter (isIn place.directory)
      = store.records.filter (isIn place.directory) := by
  rw [Snapshot.listing, List.filter_filter]
  refine List.filter_congr fun r _ => ?_
  cases hin : isIn place.directory r with
  | false => rfl
  | true =>
    obtain ⟨rest, hrest⟩ := List.isPrefixOf_iff_prefix.1 hin
    -- an id that has a next one is a single name, so that the key is read apart
    have hkey : Walk.splitKey? place.root r.key = some (place.id, String.ofList rest) := by
      rw [Walk.splitKey?_eq_some_iff, ← hrest, RunPlace.directory]
      exact ⟨by simp, RunId.slash_notMem_of_next hnext⟩
    rw [Bool.true_and]
    exact admits_runListing hnext hkey

/-! ## The objects that count -/

/-- Whether a key names a result file of a `directory`, and is not the descriptor. -/
def isResultUnder (directory key : String) : Bool :=
  directory.toList.isPrefixOf key.toList && (decide (key ≠ directory ++ descriptorName) && isResultKey key)

/-- **What noting an object does**, by its key: it is the descriptor, a result file, or nothing that counts. -/
theorem note_eq (files : RunFiles) (directory key : String) :
    files.note directory key =
      if key = directory ++ descriptorName then { files with descriptor := some key }
      else if isResultUnder directory key then { files with results := key :: files.results }
      else files := by
  -- outside of the directory neither name matches; inside, only what follows the directory counts
  cases hin : directory.toList.isPrefixOf key.toList with
  | false =>
    have hne : key ≠ directory ++ descriptorName := by
      rintro rfl
      rw [String.toList_append, List.isPrefixOf_iff_prefix.2 (List.prefix_append _ _)] at hin
      exact absurd hin (by simp)
    rw [if_neg hne, isResultUnder, hin, Bool.false_and, if_neg Bool.false_ne_true]
    exact note_of_not_isIn (r := ⟨key, ⟨0, 0⟩⟩) hin
  | true =>
    obtain ⟨rest, hrest⟩ := List.isPrefixOf_iff_prefix.1 hin
    obtain ⟨name, rfl⟩ : ∃ name, key = directory ++ name :=
      ⟨String.ofList rest, String.toList_inj.1 (by simp [hrest])⟩
    rw [RunFiles.note, Text.after?_eq_some_iff.2 rfl, isResultUnder, hin]
    dsimp only
    by_cases hname : name = descriptorName
    · rw [if_pos hname, if_pos (by rw [hname])]
    · have hne : directory ++ name ≠ directory ++ descriptorName := fun h =>
        hname (String.toList_inj.1 (by simpa using congrArg String.toList h))
      rw [if_neg hname, if_neg hne, decide_eq_true hne, Bool.true_and, Bool.true_and]

/-- **The descriptor among the objects of a list** is noted when its key is one of theirs. -/
theorem descriptor_foldl (files : RunFiles) (directory : String) (records : List ObjectRecord) :
    (records.foldl (fun files r => files.note directory r.key) files).descriptor
      = if directory ++ descriptorName ∈ records.map (·.key) then some (directory ++ descriptorName)
        else files.descriptor := by
  induction records generalizing files with
  | nil => rfl
  | cons r records ih =>
    rw [List.foldl_cons, ih, note_eq]
    simp only [List.map_cons, List.mem_cons]
    by_cases hmem : directory ++ descriptorName ∈ records.map (·.key)
    · rw [if_pos hmem, if_pos (.inr hmem)]
    · rw [if_neg hmem]
      by_cases hkey : r.key = directory ++ descriptorName
      · rw [if_pos hkey, if_pos (.inl hkey.symm), hkey]
      · rw [if_neg hkey, if_neg (not_or.2 ⟨Ne.symm hkey, hmem⟩)]
        split_ifs <;> rfl

/-- **The result files among the objects of a list**, last one first: noting puts each in front. -/
theorem results_foldl (files : RunFiles) (directory : String) (records : List ObjectRecord) :
    (records.foldl (fun files r => files.note directory r.key) files).results
      = ((records.map (·.key)).filter (isResultUnder directory)).reverse ++ files.results := by
  induction records generalizing files with
  | nil => rfl
  | cons r records ih =>
    rw [List.foldl_cons, ih, note_eq, List.map_cons, List.filter_cons]
    by_cases hkey : r.key = directory ++ descriptorName
    · -- the descriptor is no result file
      have hresult : isResultUnder directory r.key = false := by
        rw [isResultUnder, decide_eq_false (not_not.2 hkey), Bool.false_and, Bool.and_false]
      rw [if_pos hkey, hresult, if_neg (by simp)]
    · rw [if_neg hkey]
      split_ifs
      · rw [List.reverse_cons, List.append_assoc, List.singleton_append]
      · rfl

/-- **A run resolves to what the scan of its directory comes to**: `store.resolve place = store.scan place`. -/
theorem Snapshot.resolve_eq_scan (store : Snapshot) {next : String} (hnext : RunId.next place.id = .ok next) :
    store.resolve place = store.scan place := by
  have hfiles : store.runFiles place next
      = (store.records.filter (isIn place.directory)).foldl (fun files r => files.note place.directory r.key)
        .none := by
    -- the files are those of the whole directory, wherever the listing of the run ends
    rw [store.runFiles_eq_filter, store.filter_listing_runListing hnext]
  have hdescriptor : (store.runFiles place next).descriptor
      = if place.descriptorKey ∈ store.keysUnder place.directory then some place.descriptorKey else none := by
    rw [hfiles, descriptor_foldl, ← store.keysUnder_eq_map]
    rfl
  have hresults : (store.runFiles place next).results.reverse = store.resultKeysUnder place := by
    rw [hfiles, results_foldl, ← store.keysUnder_eq_map, RunFiles.none, List.append_nil, List.reverse_reverse,
      resultKeysUnder]
    refine List.filter_congr fun key hkey => ?_
    rw [isResultUnder, List.isPrefixOf_iff_prefix.2 (mem_keysUnder.1 hkey).2, Bool.true_and]
    rfl
  rw [resolve, scan, hnext]
  dsimp only
  rw [hdescriptor, hresults]
  split_ifs <;> rfl

/-! ## Whole resolutions -/

/-- **Stores that hold the same in a `directory`.** Elsewhere they may hold anything. -/
structure AgreeIn (directory : String) (store store' : Snapshot) : Prop where
  /-- The objects. -/
  records : ∀ r : ObjectRecord, directory.toList <+: r.key.toList → (r ∈ store.records ↔ r ∈ store'.records)
  /-- What they hold. -/
  content : ∀ key : String, directory.toList <+: key.toList → store.content key = store'.content key

/-- **A whole resolution comes to what a plain scan of the run directory comes to**, for every id that has a next one,
whatever pages the store cuts, and whatever it holds outside the directory. There is no run exactly when there is no
descriptor, and a run that is found has the descriptor and the result files of the directory; these are in ascending
order, each of them once. -/
theorem Resolver.resolves_scan {σ : Type} (store store' : Snapshot) (place : RunPlace) {next : String}
    (hnext : RunId.next place.id = .ok next) (hagree : AgreeIn place.directory store store')
    (ask : ListQuery → Option String → σ → Except Failure ObjectPage × σ)
    (read : String → σ → Except Failure (List UInt8) × σ)
    (hserve : ∀ next, store'.Serves ask (runListing place.root place.id next))
    (hread : ∀ key s, (read key s).1 = store'.content key) (s : σ) :
    Resolves ask read (.start place) s (store.scan place)
      ∧ (store.scan place = .ok none ↔ place.descriptorKey ∉ store.keysUnder place.directory)
      ∧ (∀ run, store.scan place = .ok (some run) ↔ store.Holds place run)
      ∧ (store.resultKeysUnder place).Pairwise (· < ·) := by
  refine ⟨?_, Snapshot.scan_eq_none_iff, fun _ => Snapshot.scan_eq_some_iff, (store.ascending_keysUnder _).filter _⟩
  have hresolve : store'.resolve place = store.scan place := by
    rw [← store.resolve_eq_scan hnext]
    exact (Snapshot.resolve_congr hagree.records hagree.content).symm
  rw [← hresolve]
  exact Resolver.run?_start_eq_resolve place hserve hread s

/-- A run with a result file and a file that is none, between the places of a run whose id begins like its own and of
the next one, in pages of two objects. -/
def neighbours : MemoryStore where
  objects := [⟨⟨"job/12/artifacts/build.xml", ⟨0, 0⟩⟩, [], 0⟩, ⟨⟨"job/12/artifacts/junit/e2e.xml", ⟨0, 0⟩⟩, [], 0⟩,
    ⟨⟨"job/12/prowjob.json", ⟨0, 0⟩⟩, ("[[\"run\",\x7b\x7d,\"1970-01-01T00:01:30Z\"]]").toUTF8.toList, 0⟩,
    ⟨⟨"job/120/artifacts/junit/e2e.xml", ⟨0, 0⟩⟩, [], 0⟩, ⟨⟨"job/13/prowjob.json", ⟨0, 0⟩⟩, [], 0⟩]
  pageSize := 2
  leadEmpty := false
  failingCalls := []
  failingKeys := []
  latency := 0

/-- The run between its neighbours, `job/12`. -/
def betweenNeighbours : RunPlace := ⟨"job", "job", "12", ⟨"bucket", "human", "artifacts"⟩⟩

/-- The run `job/12` without its neighbours. -/
def loneRun : Snapshot where
  records := neighbours.snapshot.records.filter (isIn "job/12/")
  ascending := neighbours.snapshot.ascending.filter _
  content := neighbours.snapshot.content

/-- The resolution of the run `12` goes past its neighbours and finds what the run holds alone. -/
theorem Resolver.resolves_scan_neighbours :
    Resolves neighbours.toStore.askPage neighbours.toStore.askObject (.start betweenNeighbours) Visit.start
        (loneRun.scan betweenNeighbours)
      ∧ ((loneRun.scan betweenNeighbours).toOption.join.map fun run => (run.descriptorKey, run.resultKeys))
        = some ("job/12/prowjob.json", ["job/12/artifacts/junit/e2e.xml"]) := by
  have hsteady : neighbours.Steady := ⟨rfl, by decide⟩
  have hordered : neighbours.objects.Pairwise fun a b => a.record.key < b.record.key := by decide +kernel
  have hnext : RunId.next betweenNeighbours.id = .ok "13" := by decide +kernel
  have hdirectory : betweenNeighbours.directory = "job/12/" := by decide +kernel
  have hagree : AgreeIn betweenNeighbours.directory loneRun neighbours.snapshot := by
    refine ⟨fun r hr => ?_, fun _ _ => rfl⟩
    rw [hdirectory] at hr
    rw [loneRun, List.mem_filter]
    exact ⟨And.left, fun h => ⟨h, List.isPrefixOf_iff_prefix.2 hr⟩⟩
  have hscan := resolves_scan loneRun neighbours.snapshot betweenNeighbours hnext hagree neighbours.toStore.askPage
    neighbours.toStore.askObject (fun next => hsteady.serves (under_runListing_ne_empty _ _ next))
    hsteady.askObject_fst Visit.start
  refine ⟨hscan.1, ?_⟩
  -- the store in memory sorts its objects, which stand in order already
  have hrecords : loneRun.records = (neighbours.objects.map (·.record)).filter (isIn "job/12/") :=
    congrArg (List.filter (isIn "job/12/")) (hsteady.records_snapshot hordered)
  have hcontent : loneRun.content betweenNeighbours.descriptorKey
      = .ok ("[[\"run\",\x7b\x7d,\"1970-01-01T00:01:30Z\"]]").toUTF8.toList := by
    show neighbours.content 0 "job/12/prowjob.json" = _
    rw [MemoryStore.content, hsteady.existing_eq_objects hordered]
    rfl
  rw [Snapshot.scan, Snapshot.resultKeysUnder, Snapshot.keysUnder, hrecords, hcontent]
  decide +kernel

end PayloadGate
