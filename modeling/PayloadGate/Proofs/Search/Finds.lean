import PayloadGate.Proofs.Run.Directory
import PayloadGate.Proofs.Search.Moves
import PayloadGate.Proofs.Walk.Steps

/-! # The runs that a search finds

Nothing is supposed of the store: it may answer anything, fail, or answer differently each time. Of its answers for
objects it is only noted which bytes it gave for which key.

* **`Origin`**, **`Belongs`** — where a run comes from that is found by a plan, and why it is kept.
* **`Finds`** — a search with what it has found; **`Finds.of_step`** keeps it. -/

namespace PayloadGate

open Walk (Walker)

/-! ## Where runs come from -/

/-- **Where a run comes from** that is resolved by a plan, when the store has `given` bytes for keys: its descriptor was
parsed from bytes that were given for the descriptor's key below `root/id/`. -/
structure Origin (given : String → List UInt8 → Prop) (plan : SearchPlan) (run : JobRun) : Prop where
  /-- It is a run of the job. -/
  jobName_eq : run.jobName = plan.job
  /-- It lies in the directory of the job. -/
  root_eq : run.root = plan.root
  /-- Its descriptor lies in its directory. -/
  key_eq : run.descriptorKey = plan.root ++ "/" ++ run.runId ++ "/" ++ descriptorName
  /-- Its descriptor was read there. -/
  read : ∃ bytes, given run.descriptorKey bytes ∧ Descriptor.ofBytes bytes = .ok run.descriptor

/-- **A run that a search by a plan keeps**: it has the mark of the payload, and is not behind the window,
`¬ windowEnd < created`. -/
structure Belongs (given : String → List UInt8 → Prop) (plan : SearchPlan) (run : JobRun) : Prop
    extends Origin given plan run where
  /-- The mark. -/
  marked : plan.matcher.accepts run.descriptor = true
  /-- The window. -/
  in_window : ¬ plan.windowEnd < run.descriptor.created

/-- **The runs that a search by a plan finds**: each one `Belongs`, and no id is there twice. -/
structure Found (given : String → List UInt8 → Prop) (plan : SearchPlan) (runs : List JobRun) : Prop where
  /-- The ids. -/
  nodup : (runs.map (·.runId)).Nodup
  /-- They are ids of runs. -/
  valid : ∀ run ∈ runs, ∃ next, RunId.next run.runId = .ok next
  /-- The runs. -/
  belongs : ∀ run ∈ runs, Belongs given plan run

variable {given given' : String → List UInt8 → Prop} {plan : SearchPlan} {s s' : Search} {scan : Scan}
  {r : Resolver} {c : Cursor} {files : RunFiles} {e : Search.Event}

/-- `Origin` goes over from `given` to more answers of the store, `given'`. -/
theorem Origin.mono (hgiven : ∀ key bytes, given key bytes → given' key bytes) {run : JobRun}
    (h : Origin given plan run) : Origin given' plan run := by
  obtain ⟨bytes, hbytes, hread⟩ := h.read
  exact ⟨h.jobName_eq, h.root_eq, h.key_eq, bytes, hgiven _ _ hbytes, hread⟩

/-- `Found` goes over from `given` to more answers of the store, `given'`. -/
theorem Found.mono (hgiven : ∀ key bytes, given key bytes → given' key bytes) {runs : List JobRun}
    (h : Found given plan runs) : Found given' plan runs :=
  ⟨h.nodup, h.valid, fun run hrun =>
    ⟨(h.belongs run hrun).toOrigin.mono hgiven, (h.belongs run hrun).marked, (h.belongs run hrun).in_window⟩⟩

/-! ## Resolvers -/

/-- When the `records` of a page are noted as well, the key that is kept is still the descriptor's one of the
directory. -/
theorem DescriptorIn.noted (h : DescriptorIn r.place.directory files) (records : List ObjectRecord) :
    DescriptorIn r.place.directory (r.noted files records) :=
  h.foldl records

/-- **A resolver that resolves a run by a plan**: what it has noted or reads is the descriptor of its directory, and a
run that it has come to has its `Origin` there. -/
structure Seeks (given : String → List UInt8 → Prop) (plan : SearchPlan) (r : Resolver) : Prop where
  /-- The run. -/
  place_eq : r.place = plan.place r.place.id
  /-- The objects that count. -/
  listing : ∀ c files, r.stage = .listing c files → DescriptorIn r.place.directory files
  /-- The key that is read. -/
  reading : ∀ key results, r.stage = .reading key results → key = r.place.directory ++ descriptorName
  /-- What the run is resolved to. -/
  ended : ∀ run, r.stage = .ended (.ok (some run)) → run.runId = r.place.id ∧ Origin given plan run

/-- A resolver at `.listing c files` seeks its run when `files` has no other descriptor. -/
theorem seeks_of_listing (hplace : r.place = plan.place r.place.id) (hs : r.stage = .listing c files)
    (hfiles : DescriptorIn r.place.directory files) : Seeks given plan r := by
  refine ⟨hplace, fun c' files' hs' => ?_, by simp [hs], by simp [hs]⟩
  obtain ⟨-, rfl⟩ := ResolverStage.listing.inj (hs.symm.trans hs')
  exact hfiles

/-- A resolver at `.reading key results` seeks its run when `key` is that of the descriptor. -/
theorem seeks_of_reading {key : String} {results : List String} (hplace : r.place = plan.place r.place.id)
    (hs : r.stage = .reading key results) (hkey : key = r.place.directory ++ descriptorName) :
    Seeks given plan r := by
  refine ⟨hplace, by simp [hs], fun key' results' hs' => ?_, by simp [hs]⟩
  obtain ⟨rfl, -⟩ := ResolverStage.reading.inj (hs.symm.trans hs')
  exact hkey

/-- A resolver that has ended without a run has nothing to show. -/
theorem seeks_of_ended {answer : Except Failure (Option JobRun)} (hplace : r.place = plan.place r.place.id)
    (hs : r.stage = .ended answer) (hnone : ∀ run, answer ≠ .ok (some run)) : Seeks given plan r :=
  ⟨hplace, by simp [hs], by simp [hs], fun run hs' =>
    absurd (ResolverStage.ended.inj (hs.symm.trans hs')) (hnone run)⟩

/-- At the start a resolver `Seeks`, because nothing is noted yet. -/
theorem seeks_start (given : String → List UInt8 → Prop) (plan : SearchPlan) (id : String) :
    Seeks given plan (.start (plan.place id)) := by
  rw [Resolver.start]
  cases RunId.next (plan.place id).id with
  | error f => exact seeks_of_ended rfl rfl fun _ => by simp
  | ok next => exact seeks_of_listing rfl rfl fun key hkey => absurd hkey (by simp [RunFiles.none])

/-- A page, whatever the `reply`, keeps `Seeks`. -/
theorem Seeks.receivePage (h : Seeks given plan r) (hs : r.stage = .listing c files)
    (reply : Except Failure ObjectPage) : Seeks given plan (r.receivePage reply) := by
  cases reply with
  | error f =>
    rw [Resolver.receivePage, hs]
    exact seeks_of_ended h.place_eq rfl fun _ => by simp
  | ok page =>
    have hnoted := (h.listing c files hs).noted page.records
    rw [receivePage_of_listing hs page]
    by_cases hn : page.next = none
    · rw [if_pos hn, RunFiles.stageBehind]
      cases hd : (r.noted files page.records).descriptor with
      | none => exact seeks_of_ended h.place_eq rfl fun _ => by simp
      | some key => exact seeks_of_reading h.place_eq rfl (hnoted key hd)
    · rw [if_neg hn]
      exact seeks_of_listing h.place_eq rfl hnoted

/-- The content of a descriptor keeps `Seeks`, when it is noted what was given for `key`. -/
theorem Seeks.receiveObject {key : String} {results : List String} (h : Seeks given plan r)
    (hs : r.stage = .reading key results) (reply : Except Failure (List UInt8))
    (hgiven : ∀ bytes, reply = .ok bytes → given key bytes) : Seeks given plan (r.receiveObject reply) := by
  rw [receiveObject_of_reading hs]
  refine ⟨h.place_eq, fun _ _ hs => by simp at hs, fun _ _ hs => by simp at hs, fun run hrun => ?_⟩
  have hrun := ResolverStage.ended.inj hrun
  cases reply with
  | error f => exact absurd hrun (by simp [bind, Except.bind, Except.map])
  | ok bytes =>
    -- a run comes out of a descriptor that is read, and of nothing else
    cases hd : Descriptor.ofBytes bytes with
    | error f =>
      simp only [bind, Except.bind, hd, Except.map] at hrun
      exact absurd hrun (by simp)
    | ok d =>
      simp only [bind, Except.bind, hd, Except.map] at hrun
      obtain rfl := Option.some.inj (Except.ok.inj hrun)
      have hkey := h.reading key results hs
      refine ⟨rfl, ?_, ?_, ?_, bytes, hgiven bytes rfl, hd⟩
      · show r.place.job = plan.job
        rw [h.place_eq]
        rfl
      · show r.place.root = plan.root
        rw [h.place_eq]
        rfl
      · show key = plan.root ++ "/" ++ r.place.id ++ "/" ++ descriptorName
        rw [hkey, RunPlace.directory, h.place_eq]
        rfl

/-- `Seeks` goes over from `given` to more answers of the store, `given'`. -/
theorem Seeks.mono (hgiven : ∀ key bytes, given key bytes → given' key bytes) (h : Seeks given plan r) :
    Seeks given' plan r :=
  ⟨h.place_eq, h.listing, h.reading, fun run hrun => (h.ended run hrun).imp_right (.mono hgiven)⟩

/-! ## Searches -/

/-- The ids of the runs that have been found, of the one that is being resolved, and of those in the queue; together
they are in the order of the walk. -/
def Scan.ids (scan : Scan) : List String :=
  scan.found.map (·.runId) ++ (scan.resolving.map (·.place.id)).toList ++ scan.queue

/-- **A walker and a reader with what they have found**: `scan.ids` are among the ids that the walker has emitted, so
that none comes twice, and the runs found belong to the plan. -/
structure ScanFinds (given : String → List UInt8 → Prop) (plan : SearchPlan) (scan : Scan) : Prop where
  /-- No id is taken twice. -/
  distinct : Walk.Distinct scan.walker
  /-- The ids have been taken in their order. -/
  ids : scan.ids.Sublist scan.walker.emitted.reverse
  /-- The runs that have been found. -/
  found : ∀ run ∈ scan.found, Belongs given plan run
  /-- The run that is being resolved. -/
  seeks : ∀ r, scan.resolving = some r → Seeks given plan r

/-- What a walker and a reader have found is `Found`: no run is found twice, because `scan.ids` is a list without
repetition. -/
theorem ScanFinds.to_found (h : ScanFinds given plan scan) : Found given plan scan.found := by
  have hfound : (scan.found.map (·.runId)).Sublist scan.ids := by
    rw [Scan.ids, List.append_assoc]
    exact List.sublist_append_left _ _
  have hids := hfound.trans h.ids
  refine ⟨(List.nodup_reverse.2 h.distinct.nodup).sublist hids, fun run hrun => ?_, h.found⟩
  exact h.distinct.valid _ (List.mem_reverse.1 (hids.subset (List.mem_map_of_mem hrun)))

/-- **A search with what it has found** at each of its stages; at its end the runs of the answer are `Found`. -/
inductive Finds (given : String → List UInt8 → Prop) (plan : SearchPlan) (s : Search) : Prop where
  /-- The catalog has not answered. -/
  | seeding (plan_eq : s.plan = plan) (stage : s.stage = .seeding)
  /-- The search goes through the runs. -/
  | scanning {scan : Scan} (plan_eq : s.plan = plan) (stage : s.stage = .scanning scan)
      (finds : ScanFinds given plan scan)
  /-- It has ended. -/
  | ended {outcome : Outcome} (plan_eq : s.plan = plan) (stage : s.stage = .ended outcome)
      (found : ∀ runs, outcome = .ok runs → Found given plan runs)

/-- The runs with which a search ends are those that it has found: `conclusion` answers no others. -/
theorem found_conclusion (h : ScanFinds given plan scan) {runs : List JobRun}
    (hruns : s.conclusion scan = .ok runs) : Found given plan runs := by
  rw [Search.conclusion] at hruns
  by_cases hc : s.cancelled = true
  · rw [if_pos hc] at hruns
    exact absurd hruns (by simp)
  · rw [if_neg hc] at hruns
    cases hf : scan.walker.failure? with
    | some f =>
      rw [hf] at hruns
      exact absurd hruns (by simp)
    | none =>
      rw [hf] at hruns
      obtain rfl := Except.ok.inj hruns
      exact h.to_found

/-- **What a search has found when its reader has got on with a run** `r`. One case for each constructor of `Comes`. -/
theorem finds_resolved (hplan : s.plan = plan) (h : ScanFinds given plan { scan with resolving := some r }) :
    Finds given plan (s.resolved scan r) := by
  -- the run is not resolved any more
  have hless : ∀ found, (found.map (·.runId) ++ scan.queue).Sublist scan.walker.emitted.reverse →
      (∀ run ∈ found, Belongs given plan run) →
      ScanFinds given plan { scan with resolving := none, found := found } := fun found hids hfound =>
    ⟨h.distinct, by simpa [Scan.ids] using hids, hfound, fun r hr => by simp at hr⟩
  have hids : (scan.found.map (·.runId) ++ [r.place.id] ++ scan.queue).Sublist scan.walker.emitted.reverse := h.ids
  have hdrop : (scan.found.map (·.runId) ++ scan.queue).Sublist scan.walker.emitted.reverse :=
    ((List.sublist_append_left _ _).append_right _).trans hids
  have hcomes := comes_resolved s scan r
  generalize s.resolved scan r = s' at hcomes ⊢
  cases hcomes with
  | busy live => exact .scanning hplan rfl h
  | failed hr => exact .ended hplan rfl fun _ hruns => absurd hruns (by simp)
  | empty hr => exact .scanning hplan rfl (hless scan.found hdrop h.found)
  | late hr hlate =>
    exact .ended hplan rfl fun _ hruns => found_conclusion (hless scan.found hdrop h.found) hruns
  | @kept run hr hlate haccepts =>
    obtain ⟨hid, horigin⟩ := (h.seeks r rfl).ended run hr
    refine .scanning hplan rfl (hless _ ?_ fun run' hrun' => ?_)
    · rw [List.map_append, List.map_singleton, hid]
      exact hids
    · rcases List.mem_append.1 hrun' with hrun' | hrun'
      · exact h.found run' hrun'
      · obtain rfl := List.mem_singleton.1 hrun'
        exact ⟨horigin, hplan ▸ haccepts, hplan ▸ hlate⟩
  | dropped hr hlate haccepts => exact .scanning hplan rfl (hless scan.found hdrop h.found)

/-- The key that a search has asked the store for: that of the descriptor which its reader reads. -/
def Search.asked? (s : Search) : Option String :=
  match s.stage with
  | .scanning scan => scan.resolving.bind fun r => match r.stage with
    | .reading key _ => some key
    | _ => none
  | _ => none

/-- **Each step keeps what a search has found**, when it is noted what the store gives for the key that was asked. One
case for each constructor of `Moves`. -/
theorem Finds.of_step (h : Finds given plan s) (hstep : s.step e = some s')
    (hgiven : ∀ key bytes, s.asked? = some key → e = .readerObject (.ok bytes) → given key bytes) :
    Finds given plan s' := by
  cases h with
  | seeding plan_eq stage =>
    cases moves_of_step hstep with
    | cancel => exact .seeding plan_eq stage
    | unseeded hs => exact .ended plan_eq rfl fun _ hruns => absurd hruns (by simp)
    | seeded hs =>
      refine .scanning plan_eq rfl ⟨Walk.distinct_start _ _, ?_, fun run hrun => by simp at hrun,
        fun r hr => by simp at hr⟩
      exact List.nil_sublist _
    | walked hs | sent hs | quit hs | taken hs | concluded hs | listed hs | read hs | left hs =>
      exact absurd (stage.symm.trans hs) (by simp)
  | ended plan_eq stage found =>
    cases moves_of_step hstep with
    | cancel => exact .ended plan_eq stage found
    | unseeded hs | seeded hs | walked hs | sent hs | quit hs | taken hs | concluded hs | listed hs | read hs
    | left hs => exact absurd (stage.symm.trans hs) (by simp)
  | @scanning scan plan_eq stage finds =>
    have hscan : ∀ scan', s.stage = .scanning scan' → scan' = scan := fun scan' hs =>
      (SearchStage.scanning.inj (stage.symm.trans hs)).symm
    cases moves_of_step hstep with
    | cancel => exact .scanning plan_eq stage finds
    | unseeded hs => exact absurd (stage.symm.trans hs) (by simp)
    | seeded hs => exact absurd (stage.symm.trans hs) (by simp)
    | @walked scan' c reply hs hw =>
      obtain rfl := hscan _ hs
      obtain ⟨hdistinct, hemitted⟩ := finds.distinct.receive hw reply
      exact .scanning plan_eq rfl ⟨hdistinct, hemitted ▸ finds.ids, finds.found, finds.seeks⟩
    | @sent scan' id c hs hw hroom =>
      obtain rfl := hscan _ hs
      obtain ⟨hdistinct, hemitted⟩ := finds.distinct.accepted hw
      refine .scanning plan_eq rfl ⟨hdistinct, ?_, finds.found, finds.seeks⟩
      -- the id is the last one of the queue and the last one that was taken
      show (_ ++ (scan'.queue ++ [id])).Sublist scan'.walker.accepted.emitted.reverse
      rw [hemitted, List.reverse_cons, ← List.append_assoc]
      exact finds.ids.append_right _
    | @quit scan' hs hc hw =>
      obtain rfl := hscan _ hs
      rw [Walk.quit_of_not_hasEnded hw]
      exact .scanning plan_eq rfl ⟨finds.distinct.finish _, finds.ids, finds.found, finds.seeks⟩
    | @taken scan' id queue hs hr hq =>
      obtain rfl := hscan _ hs
      rw [plan_eq]
      refine finds_resolved plan_eq ⟨finds.distinct, ?_, finds.found, fun r' hr' => ?_⟩
      · have hids := finds.ids
        rw [Scan.ids, hr, hq] at hids
        simpa [Scan.ids, place_start, SearchPlan.place] using hids
      · obtain rfl := Option.some.inj hr'
        exact seeks_start given plan id
    | @concluded scan' hs hr hq hw =>
      obtain rfl := hscan _ hs
      exact .ended plan_eq rfl fun _ hruns => found_conclusion finds hruns
    | @listed scan' r c files reply hs hr hc =>
      obtain rfl := hscan _ hs
      refine finds_resolved plan_eq ⟨finds.distinct, ?_, finds.found, fun r' hr' => ?_⟩
      · have hids := finds.ids
        rw [Scan.ids, hr] at hids
        simpa only [Scan.ids, Option.map_some, place_receivePage hc] using hids
      · obtain rfl := Option.some.inj hr'
        exact (finds.seeks r hr).receivePage hc reply
    | @read scan' r key results reply hs hr hk =>
      obtain rfl := hscan _ hs
      have hasked : s.asked? = some key := by
        rw [Search.asked?, hs]
        simp only [hr, Option.bind_some, hk]
      refine finds_resolved plan_eq ⟨finds.distinct, ?_, finds.found, fun r' hr' => ?_⟩
      · have hids := finds.ids
        rw [Scan.ids, hr] at hids
        simpa only [Scan.ids, Option.map_some, receiveObject_of_reading hk] using hids
      · obtain rfl := Option.some.inj hr'
        exact (finds.seeks r hr).receiveObject hk reply fun bytes hreply => hgiven key bytes hasked (by rw [hreply])
    | @left scan' hs hc hr =>
      obtain rfl := hscan _ hs
      exact .ended plan_eq rfl fun _ hruns => found_conclusion finds hruns

/-- `Finds` goes over from `given` to more answers of the store, `given'`. -/
theorem Finds.mono (hgiven : ∀ key bytes, given key bytes → given' key bytes) (h : Finds given plan s) :
    Finds given' plan s := by
  cases h with
  | seeding plan_eq stage => exact .seeding plan_eq stage
  | scanning plan_eq stage finds =>
    exact .scanning plan_eq stage ⟨finds.distinct, finds.ids,
      fun run hrun => (finds.to_found.mono hgiven).belongs run hrun, fun r hr => (finds.seeks r hr).mono hgiven⟩
  | ended plan_eq stage found => exact .ended plan_eq stage fun runs hruns => (found runs hruns).mono hgiven

/-- The signal changes nothing in what a search has found: `Finds` does not look at `cancelled`. -/
theorem Finds.cancel (h : Finds given plan s) (b : Bool) : Finds given plan { s with cancelled := b } := by
  cases h with
  | seeding plan_eq stage => exact .seeding plan_eq stage
  | scanning plan_eq stage finds => exact .scanning plan_eq stage finds
  | ended plan_eq stage found => exact .ended plan_eq stage found

/-- The runs that a search answers by `.ok runs` are `Found`. -/
theorem Finds.found_of_result? (h : Finds given plan s) {runs : List JobRun} (hresult : s.result? = some (.ok runs)) :
    Found given plan runs := by
  rw [Search.result?] at hresult
  cases h with
  | ended plan_eq stage found =>
    rw [stage] at hresult
    exact found runs (Option.some.inj hresult)
  | seeding plan_eq stage =>
    rw [stage] at hresult
    exact absurd hresult (by simp)
  | scanning plan_eq stage finds =>
    rw [stage] at hresult
    exact absurd hresult (by simp)

end PayloadGate
