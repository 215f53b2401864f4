import PayloadGate.Proofs.Run.Directory
import PayloadGate.Proofs.Search.Stop
import PayloadGate.Proofs.Walk.Found
import Mathlib.Data.List.Nodup

/-! # Runs that are not finished

A search has no limit for objects that are too young: runs that go on while it looks have to be found as well. Ages are
taken from the instant at which the search began, however, and an object that was written later has a negative one. Such
an age lies beyond the limits, so that the walker passes the run by when the object is its descriptor or comes before
it.

* **`Time.Instant.since_lt_zero_iff`**, **`inBand_iff`** — the limits of a search, by the order of instants.
* **`Due`** — a run that a search has to find, whatever its age.
* **`inevitably_reference`** — the answer of a search for runs that are named by numbers; **`RunsOf`** — its runs.
* **`inevitably_found_iff`** — the runs that are due and found.
* **`not_found_unfinishedRuns`** — a run that is due and missed. -/

namespace PayloadGate

open Walk (Canonical OneWidth Wanted Preceded AllNines PastSeed HasRun passFrom)

/-! ## Ages -/

namespace Time.Instant

variable {a b now : Instant}

/-- Outside of leap seconds there are less nanoseconds than `nanosPerSecond`. -/
theorem nanos_lt (h : a.isLeap = false) : a.nanos < nanosPerSecond :=
  not_le.1 (of_decide_eq_false h)

/-- **Outside of leap seconds** the span `a.since b` counts all nanoseconds in between. -/
theorem since_eq (ha : a.isLeap = false) (hb : b.isLeap = false) :
    a.since b = (a.seconds - b.seconds) * nanosPerSecond + ((a.nanos : Int) - b.nanos) := by
  simp only [since, ha, hb, Bool.false_and, Bool.false_eq_true, if_false, add_zero]

/-- **A span is negative** exactly when it goes back: `a.since b < 0 ↔ a < b` outside of leap seconds. -/
theorem since_lt_zero_iff (ha : a.isLeap = false) (hb : b.isLeap = false) : a.since b < 0 ↔ a < b := by
  have ha' := nanos_lt ha
  have hb' := nanos_lt hb
  rw [since_eq ha hb]
  rw [nanosPerSecond] at *
  show (a.seconds - b.seconds) * (1000000000 : Int) + ((a.nanos : Int) - b.nanos) < (0 : Int)
    ↔ a.seconds < b.seconds ∨ (a.seconds = b.seconds ∧ a.nanos < b.nanos)
  omega

/-- **The earlier of two instants is longer ago**: `now.since b < now.since a ↔ a < b` outside of leap seconds. -/
theorem since_lt_since_iff (hnow : now.isLeap = false) (ha : a.isLeap = false) (hb : b.isLeap = false) :
    now.since b < now.since a ↔ a < b := by
  have ha' := nanos_lt ha
  have hb' := nanos_lt hb
  rw [since_eq hnow ha, since_eq hnow hb]
  rw [nanosPerSecond] at *
  show (now.seconds - b.seconds) * (1000000000 : Int) + ((now.nanos : Int) - b.nanos)
      < (now.seconds - a.seconds) * (1000000000 : Int) + ((now.nanos : Int) - a.nanos)
    ↔ a.seconds < b.seconds ∨ (a.seconds = b.seconds ∧ a.nanos < b.nanos)
  omega

end Time.Instant

variable {store : Snapshot} {plan : SearchPlan} {seed : Option String} {now : Time.Instant} {id : String}
  {r : ObjectRecord} {d : Descriptor}

/-- **No instant that a search compares lies within a leap second**: neither `now`, nor the start of the window, nor the
creation of an object. -/
structure LeapFree (store : Snapshot) (plan : SearchPlan) (now : Time.Instant) : Prop where
  /-- The start of the window. -/
  windowStart : plan.windowStart.isLeap = false
  /-- The instant at which the search begins. -/
  now : now.isLeap = false
  /-- The creation of the objects. -/
  created : ∀ r ∈ store.records, r.created.isLeap = false

/-- **The limits of a search**: the age of an object `r` lies within them when `¬ r.created < plan.windowStart` and
`¬ now < r.created`, that is, when it was created in the window or behind it, and before the search began. -/
theorem inBand_iff (h : LeapFree store plan now) (hr : r ∈ store.records) :
    (plan.route now).InBand r ↔ ¬ r.created < plan.windowStart ∧ ¬ now < r.created := by
  rw [Walk.Route.InBand, Walk.AgeBands.excludes, Bool.or_eq_false_iff, decide_eq_false_iff_not, decide_eq_false_iff_not]
  exact and_congr (not_congr (Time.Instant.since_lt_since_iff h.now (h.created r hr) h.windowStart))
    (not_congr (Time.Instant.since_lt_zero_iff h.now (h.created r hr)))

/-! ## Runs that are due -/

/-- **The descriptor of a run**: its object `r`, and what it holds, `d`. -/
structure Described (store : Snapshot) (plan : SearchPlan) (id : String) (r : ObjectRecord) (d : Descriptor) : Prop
    where
  /-- The object. -/
  mem : r ∈ store.records
  /-- It is the descriptor of the run. -/
  key : Walk.splitKey? plan.root r.key = some (id, descriptorName)
  /-- What it holds. -/
  content : (store.content r.key >>= Descriptor.ofBytes) = .ok d

/-- A run with a descriptor is one of the store. -/
theorem Described.hasRun (h : Described store plan id r d) : HasRun store plan.root id :=
  ⟨r, h.mem, descriptorName, h.key⟩

/-- A run has one descriptor: the object `r` is the only one of its name. -/
theorem Described.eq_of_mem {y : ObjectRecord} (h : Described store plan id r d) (hy : y ∈ store.records)
    (hkey : Walk.splitKey? plan.root y.key = some (id, descriptorName)) : y = r := by
  have hnodup : (store.records.map ObjectRecord.key).Nodup :=
    List.pairwise_map.2 (store.ascending.imp fun hlt => ne_of_lt hlt)
  exact List.inj_on_of_nodup_map hnodup hy h.mem (Walk.eq_of_splitKey? hkey h.key)

/-- **A run with a descriptor resolves to it**: the run is `toRun` of the key of `r` and of `d`, with some result
files. -/
theorem Described.exists_resolve_eq (h : Described store plan id r d) (hids : Canonical store plan.root) :
    ∃ results, store.resolve (plan.place id) = .ok (some ((plan.place id).toRun r.key results d)) := by
  obtain ⟨n, -, hnext⟩ := hids.exists_number h.hasRun
  have hkey : Walk.splitKey? (plan.place id).root r.key = some ((plan.place id).id, descriptorName) := h.key
  obtain ⟨results, hresolve⟩ := Snapshot.exists_resolve_eq hnext h.mem hkey
  rw [h.content] at hresolve
  exact ⟨results, hresolve⟩

/-- **A run that a search has to find, whatever its age**: it has a descriptor with the mark, at or behind the seed, no
object of it was created before the window, and it comes before all runs that were created behind the window. -/
structure Due (store : Snapshot) (plan : SearchPlan) (seed : Option String) (now : Time.Instant) (id : String) : Prop
    where
  /-- The descriptor. -/
  described : ∃ r d, Described store plan id r d ∧ plan.matcher.accepts d = true ∧ PastSeed (plan.route now) seed r
  /-- The objects. -/
  not_old : ∀ r ∈ store.records, ∀ name, Walk.splitKey? plan.root r.key = some (id, name) →
    ¬ r.created < plan.windowStart
  /-- The runs behind the window. -/
  before_late : ∀ j r d, Described store plan j r d → plan.windowEnd < d.created → id < j

/-! ## Answers -/

/-- **The answer of a search for runs that are named by numbers** is inevitably the `reference` over the ids of the
pass, because a pass over such runs ends without a failure. -/
theorem inevitably_reference (hids : Canonical store plan.root) (seed : Option String) (now : Time.Instant) :
    Inevitably (Session.Step store seed now)
      (fun x => x.search.result? = some (reference store plan (passFrom store (plan.route now) seed).1))
        (Session.start plan) := by
  have hroute : Canonical store (plan.route now).root := hids
  have hpass : passFrom store (plan.route now) seed = ((passFrom store (plan.route now) seed).1, none) :=
    Prod.ext rfl (Walk.passFrom_snd hroute)
  refine (inevitably_concludes store plan seed now).mono fun x ⟨o, ho, hconcludes⟩ => ?_
  rw [hpass] at hconcludes
  rw [ho, hconcludes.eq_reference]

/-- **The runs of an answer**: they are those of the ids, and all are there that have the mark and come before the runs
behind the window. -/
structure RunsOf (store : Snapshot) (plan : SearchPlan) (ids : List String) (runs : List JobRun) : Prop where
  /-- Where they come from. -/
  of_ids : ∀ run ∈ runs, ∃ i ∈ ids, store.resolve (plan.place i) = .ok (some run)
  /-- None is missing. -/
  complete : ∀ i ∈ ids, ∀ run, store.resolve (plan.place i) = .ok (some run) →
    plan.matcher.accepts run.descriptor = true →
    (∀ j ∈ ids, IsLate plan (store.resolve (plan.place j)) → i < j) → run ∈ runs

/-- An id more, `i`, with its `run` when that has the mark: `kept` are the runs of `i :: ids`. -/
theorem RunsOf.cons {ids : List String} {runs kept : List JobRun} {i : String} {run : JobRun}
    (h : RunsOf store plan ids runs) (hrun : store.resolve (plan.place i) = .ok (some run))
    (hkept : ∀ run' ∈ kept, run' = run ∨ run' ∈ runs) (hruns : ∀ run' ∈ runs, run' ∈ kept)
    (hmark : plan.matcher.accepts run.descriptor = true → run ∈ kept) : RunsOf store plan (i :: ids) kept := by
  refine ⟨fun run' hrun' => ?_, fun j hj run' hrun' haccepts hlate => ?_⟩
  · rcases hkept run' hrun' with rfl | hrun'
    · exact ⟨i, List.mem_cons_self, hrun⟩
    · obtain ⟨j, hj, hresolve⟩ := h.of_ids run' hrun'
      exact ⟨j, List.mem_cons_of_mem i hj, hresolve⟩
  · rcases List.mem_cons.1 hj with rfl | hj
    · obtain rfl : run = run' := Option.some.inj (Except.ok.inj (hrun.symm.trans hrun'))
      exact hmark haccepts
    · exact hruns run' (h.complete j hj run' hrun' haccepts fun k hk => hlate k (List.mem_cons_of_mem i hk))

/-- **What a search answers** for `ids` in ascending order that all resolve to runs: `.ok runs` with
`RunsOf store plan ids runs`. -/
theorem exists_reference_eq {ids : List String}
    (hall : ∀ i ∈ ids, ∃ run, store.resolve (plan.place i) = .ok (some run)) (hasc : ids.Pairwise (· < ·)) :
    ∃ runs, reference store plan ids = .ok runs ∧ RunsOf store plan ids runs := by
  induction ids with
  | nil => exact ⟨[], rfl, by simp, by simp⟩
  | cons i ids ih =>
    obtain ⟨hlt, hasc⟩ := List.pairwise_cons.1 hasc
    obtain ⟨run, hrun⟩ := hall i List.mem_cons_self
    obtain ⟨runs, hruns, hrest⟩ := ih (fun j hj => hall j (List.mem_cons_of_mem i hj)) hasc
    rw [reference, hrun, settle, hruns]
    by_cases hend : plan.windowEnd < run.descriptor.created
    · -- the run is behind the window, and no id comes before it
      have hlate : IsLate plan (store.resolve (plan.place i)) := ⟨run, hrun, hend⟩
      rw [if_pos hend]
      refine ⟨[], rfl, by simp, fun j hj run' _ _ hbefore => ?_⟩
      have hji := hbefore i List.mem_cons_self hlate
      rcases List.mem_cons.1 hj with rfl | hj
      · exact absurd hji (lt_irrefl _)
      · exact absurd hji (lt_asymm (hlt j hj))
    · rw [if_neg hend]
      by_cases haccepts : plan.matcher.accepts run.descriptor = true
      · rw [if_pos haccepts]
        exact ⟨run :: runs, rfl, hrest.cons hrun (fun _ => List.mem_cons.1) (fun _ => List.mem_cons_of_mem run)
          fun _ => List.mem_cons_self⟩
      · rw [if_neg haccepts]
        exact ⟨runs, rfl, hrest.cons hrun (fun _ => .inr) (fun _ h => h) fun h => absurd h haccepts⟩

/-- **The runs that are found among those that are due**: a run that is `Due` is in the answer exactly when the walk
finds its id. -/
theorem exists_run_iff_mem_passFrom (seed : Option String) (now : Time.Instant) (hids : Canonical store plan.root)
    (hparsable : ∀ r ∈ store.records, ∀ i, Walk.splitKey? plan.root r.key = some (i, descriptorName) →
      ∃ d, Described store plan i r d) :
    ∃ runs, reference store plan (passFrom store (plan.route now) seed).1 = .ok runs
      ∧ ∀ i, Due store plan seed now i →
        ((∃ run ∈ runs, run.runId = i) ↔ i ∈ (passFrom store (plan.route now) seed).1) := by
  have hroute : Canonical store (plan.route now).root := hids
  -- all ids that the walk finds have a descriptor, and the runs are told by it
  have hdescribed : ∀ i ∈ (passFrom store (plan.route now) seed).1, ∃ r d, Described store plan i r d := by
    intro i hi
    obtain ⟨r, hr, hkey, -⟩ := Walk.wanted_of_found hroute hi
    obtain ⟨d, hd⟩ := hparsable r hr i hkey
    exact ⟨r, d, hd⟩
  have hall : ∀ i ∈ (passFrom store (plan.route now) seed).1,
      ∃ run, store.resolve (plan.place i) = .ok (some run) := by
    intro i hi
    obtain ⟨r, d, hd⟩ := hdescribed i hi
    obtain ⟨results, hresolve⟩ := hd.exists_resolve_eq hids
    exact ⟨_, hresolve⟩
  obtain ⟨runs, hruns, hrunsOf⟩ := exists_reference_eq hall (Walk.pairwise_found hroute)
  refine ⟨runs, hruns, fun i hdue => ⟨?_, fun hi => ?_⟩⟩
  · rintro ⟨run, hrun, rfl⟩
    obtain ⟨j, hj, hresolve⟩ := hrunsOf.of_ids run hrun
    obtain ⟨r, d, hd⟩ := hdescribed j hj
    obtain ⟨results, hresolve'⟩ := hd.exists_resolve_eq hids
    rw [Option.some.inj (Except.ok.inj (hresolve.symm.trans hresolve'))]
    exact hj
  · obtain ⟨r, d, hd, haccepts, -⟩ := hdue.described
    obtain ⟨results, hresolve⟩ := hd.exists_resolve_eq hids
    refine ⟨_, hrunsOf.complete i hi _ hresolve haccepts fun j hj hlate => ?_, rfl⟩
    obtain ⟨late, hlaterun, hend⟩ := hlate
    obtain ⟨r', d', hd'⟩ := hdescribed j hj
    obtain ⟨results', hresolve'⟩ := hd'.exists_resolve_eq hids
    rw [← Option.some.inj (Except.ok.inj (hresolve'.symm.trans hlaterun))] at hend
    exact hdue.before_late j r' d' hd' hend

/-- **An object of a run that comes before its descriptor and was created later than `now`**, at or behind the seed. -/
def PrecededByLater (store : Snapshot) (plan : SearchPlan) (seed : Option String) (now : Time.Instant) (id : String) :
    Prop :=
  ∃ r ∈ store.records, ∃ name, Walk.splitKey? plan.root r.key = some (id, name)
    ∧ r.key < (plan.route now).offset id ++ "/" ++ descriptorName ∧ Text.endsWith r.key latestMarker = false
    ∧ now < r.created ∧ PastSeed (plan.route now) seed r

/-- **A run that is due is `Wanted`** by the walk exactly when its descriptor `r` was not created later than `now`. -/
theorem Due.wanted_iff (h : Due store plan seed now id) (hleap : LeapFree store plan now)
    (hd : Described store plan id r d) : Wanted store (plan.route now) seed id ↔ ¬ now < r.created := by
  constructor
  · rintro ⟨y, hy, hkey, hband, -⟩
    rw [hd.eq_of_mem hy hkey] at hband
    exact ((inBand_iff hleap hd.mem).1 hband).2
  · intro hnow
    obtain ⟨y, d', hd', -, hseed⟩ := h.described
    rw [hd.eq_of_mem hd'.mem hd'.key] at hseed
    exact ⟨r, hd.mem, hd.key, (inBand_iff hleap hd.mem).2 ⟨h.not_old r hd.mem _ hd.key, hnow⟩, hseed⟩

/-- **A run that is due is `Preceded`**, and so passed by, only for an object that was created later than `now`. -/
theorem Due.preceded_iff (h : Due store plan seed now id) (hleap : LeapFree store plan now) :
    Preceded store (plan.route now) seed id ↔ PrecededByLater store plan seed now id := by
  constructor
  · rintro ⟨y, hy, name, hkey, hbefore, hmark, hout, hseed⟩
    refine ⟨y, hy, name, hkey, hbefore, hmark, ?_, hseed⟩
    by_contra hnow
    exact hout ((inBand_iff hleap hy).2 ⟨h.not_old y hy name hkey, hnow⟩)
  · rintro ⟨y, hy, name, hkey, hbefore, hmark, hnow, hseed⟩
    exact ⟨y, hy, name, hkey, hbefore, hmark, fun hin => ((inBand_iff hleap hy).1 hin).2 hnow, hseed⟩

/-- **The runs that are due and found.** In a store whose runs are named by numbers of one length, with descriptors that
can be read, a search comes to an answer, whatever the order of its steps. A run that is due is in it exactly when the
age of its descriptor lies within the limits and that of no object of the run before the descriptor lies beyond them, or
its id has nines only. That means, outside of leap seconds, that the descriptor was not created after the search began,
nor was an object of the run before the descriptor; so a run with objects that are all older than the search is found,
however young it is. -/
theorem inevitably_found_iff (store : Snapshot) (plan : SearchPlan) (seed : Option String) (now : Time.Instant)
    (hids : Canonical store plan.root) (hwidth : OneWidth store plan.root)
    (hparsable : ∀ r ∈ store.records, ∀ i, Walk.splitKey? plan.root r.key = some (i, descriptorName) →
      ∃ d, Described store plan i r d) :
    ∃ runs, Inevitably (Session.Step store seed now) (fun x => x.search.result? = some (.ok runs)) (Session.start plan)
      ∧ ∀ id, Due store plan seed now id →
        ((∃ run ∈ runs, run.runId = id)
          ↔ Wanted store (plan.route now) seed id ∧ (Preceded store (plan.route now) seed id → AllNines id))
        ∧ (LeapFree store plan now → ∀ r d, Described store plan id r d →
          ((∃ run ∈ runs, run.runId = id)
            ↔ ¬ now < r.created ∧ (PrecededByLater store plan seed now id → AllNines id))) := by
  have hroute : Canonical store (plan.route now).root := hids
  -- the answer has the runs that the pass sends, whatever the order of steps; which these are is told by `Walk`
  obtain ⟨runs, hruns, hfound⟩ := exists_run_iff_mem_passFrom seed now hids hparsable
  refine ⟨runs, ?_, fun id hdue => ?_⟩
  · rw [← hruns]
    exact inevitably_reference hids seed now
  · have hwalk := (hfound id hdue).trans (Walk.found_iff_of_oneWidth hroute hwidth)
    refine ⟨hwalk, fun hleap r d hd => ?_⟩
    rw [hwalk, hdue.wanted_iff hleap hd, hdue.preceded_iff hleap]

/-- Two runs that are not finished, `5` and `6`. Of each an object is written after the search began, of the first one
before the descriptor. -/
def unfinishedRuns : Snapshot where
  records := [⟨"job/5/build-log.txt", ⟨200, 0⟩⟩, ⟨"job/5/prowjob.json", ⟨90, 0⟩⟩, ⟨"job/6/prowjob.json", ⟨95, 0⟩⟩,
    ⟨"job/6/z.log", ⟨200, 0⟩⟩]
  ascending := by decide
  content _ := .ok (labelledDescriptor "00:01:30" "4.11")

/-- The objects belong to these two runs, and their keys say which. -/
theorem id_of_splitKey?_unfinishedRuns {name : String} (hr : r ∈ unfinishedRuns.records)
    (hkey : Walk.splitKey? payloadPlan.root r.key = some (id, name)) :
    (id = "5" ∧ r.key < "job/6") ∨ (id = "6" ∧ ("job/6/prowjob.json" ≤ r.key)) := by
  have hall : ∀ r ∈ unfinishedRuns.records, ((Walk.splitKey? payloadPlan.root r.key).map Prod.fst = some "5"
      ∧ r.key < "job/6") ∨ ((Walk.splitKey? payloadPlan.root r.key).map Prod.fst = some "6"
      ∧ "job/6/prowjob.json" ≤ r.key) := by
    decide +kernel
  have hr' := hall r hr
  rw [hkey] at hr'
  exact hr'.imp (And.imp_left Option.some.inj) (And.imp_left Option.some.inj)

/-- They are named by numbers of one length. -/
theorem canonical_unfinishedRuns :
    Canonical unfinishedRuns payloadPlan.root ∧ OneWidth unfinishedRuns payloadPlan.root := by
  refine ⟨?_, ?_⟩
  · rintro id ⟨r, hr, name, hkey⟩
    rcases id_of_splitKey?_unfinishedRuns hr hkey with ⟨rfl, -⟩ | ⟨rfl, -⟩
    · exact ⟨5, by decide, by decide +kernel⟩
    · exact ⟨6, by decide, by decide +kernel⟩
  · rintro i j ⟨r, hr, name, hkey⟩ ⟨r', hr', name', hkey'⟩
    rcases id_of_splitKey?_unfinishedRuns hr hkey with ⟨rfl, -⟩ | ⟨rfl, -⟩ <;>
      rcases id_of_splitKey?_unfinishedRuns hr' hkey' with ⟨rfl, -⟩ | ⟨rfl, -⟩ <;> rfl

/-- The descriptors of the two have the mark and were created in the window. -/
theorem exists_descriptor_unfinishedRuns :
    ∃ d, Descriptor.ofBytes (labelledDescriptor "00:01:30" "4.11") = .ok d
      ∧ payloadPlan.matcher.accepts d = true ∧ ¬ payloadPlan.windowEnd < d.created := by
  have hall : ((Descriptor.ofBytes (labelledDescriptor "00:01:30" "4.11")).toOption.any fun d =>
      payloadPlan.matcher.accepts d && !decide (payloadPlan.windowEnd < d.created)) = true := by
    decide +kernel
  cases hd : Descriptor.ofBytes (labelledDescriptor "00:01:30" "4.11") with
  | error f => exact absurd hall (by rw [hd]; exact Bool.false_ne_true)
  | ok d =>
    rw [hd] at hall
    obtain ⟨haccepts, hend⟩ := Bool.and_eq_true_iff.1 hall
    exact ⟨d, rfl, haccepts, by simpa using hend⟩

/-- All descriptors of `unfinishedRuns` can be read. -/
theorem described_unfinishedRuns :
    ∀ r ∈ unfinishedRuns.records, ∀ i, Walk.splitKey? payloadPlan.root r.key = some (i, descriptorName) →
      ∃ d, Described unfinishedRuns payloadPlan i r d := by
  intro r hr i hkey
  obtain ⟨d, hd, -⟩ := exists_descriptor_unfinishedRuns
  exact ⟨d, hr, hkey, hd⟩

/-- A run of the two with a descriptor is `Due`. -/
theorem due_unfinishedRuns (hr : r ∈ unfinishedRuns.records)
    (hkey : Walk.splitKey? payloadPlan.root r.key = some (id, descriptorName)) :
    Due unfinishedRuns payloadPlan none ⟨100, 0⟩ id := by
  obtain ⟨d, hd, haccepts, hend⟩ := exists_descriptor_unfinishedRuns
  refine ⟨⟨r, d, ⟨hr, hkey, hd⟩, haccepts, fun place hplace => absurd hplace (by simp)⟩, fun y hy _ _ => ?_,
    fun j y d' hd' hlate => ?_⟩
  · have hall : ∀ y ∈ unfinishedRuns.records, ¬ y.created < payloadPlan.windowStart := by decide +kernel
    exact hall y hy
  · -- all descriptors are the same, and none is behind the window
    obtain rfl := Except.ok.inj (hd.symm.trans hd'.content)
    exact absurd hlate hend

/-- The search finds the run `6`, whose descriptor comes before its late object. -/
theorem inevitably_found_iff_unfinishedRuns :
    Canonical unfinishedRuns payloadPlan.root ∧ OneWidth unfinishedRuns payloadPlan.root
      ∧ Due unfinishedRuns payloadPlan none ⟨100, 0⟩ "6"
      ∧ ∃ runs, Inevitably (Session.Step unfinishedRuns none ⟨100, 0⟩) (fun x => x.search.result? = some (.ok runs))
          (Session.start payloadPlan)
        ∧ ∃ run ∈ runs, run.runId = "6" := by
  obtain ⟨hids, hwidth⟩ := canonical_unfinishedRuns
  obtain ⟨runs, hends, hfound⟩ := inevitably_found_iff unfinishedRuns payloadPlan none ⟨100, 0⟩ hids hwidth
    described_unfinishedRuns
  have hmem : (⟨"job/6/prowjob.json", ⟨95, 0⟩⟩ : ObjectRecord) ∈ unfinishedRuns.records := by decide
  have hkey : Walk.splitKey? payloadPlan.root "job/6/prowjob.json" = some ("6", descriptorName) := by decide +kernel
  have hdue := due_unfinishedRuns hmem hkey
  obtain ⟨d, hd⟩ := described_unfinishedRuns _ hmem _ hkey
  have hleap : LeapFree unfinishedRuns payloadPlan ⟨100, 0⟩ := ⟨by decide +kernel, by decide +kernel, by decide +kernel⟩
  refine ⟨hids, hwidth, hdue, runs, hends, ((hfound "6" hdue).2 hleap _ d hd).2 ⟨by decide, ?_⟩⟩
  -- no object of the run comes before its descriptor
  rintro ⟨r, hr, name, hkey', hbefore, -⟩
  rcases id_of_splitKey?_unfinishedRuns hr hkey' with ⟨h, -⟩ | ⟨-, hle⟩
  · exact absurd h (by decide)
  · exact absurd hbefore (not_lt.2 hle)

/-- **The run `5` is due and missed**, for an object before its descriptor that was written after the search began. -/
theorem not_found_unfinishedRuns :
    Canonical unfinishedRuns payloadPlan.root ∧ OneWidth unfinishedRuns payloadPlan.root
      ∧ (∀ r ∈ unfinishedRuns.records, ∀ i, Walk.splitKey? payloadPlan.root r.key = some (i, descriptorName) →
        ∃ d, Described unfinishedRuns payloadPlan i r d)
      ∧ Due unfinishedRuns payloadPlan none ⟨100, 0⟩ "5"
      ∧ ∃ runs, Inevitably (Session.Step unfinishedRuns none ⟨100, 0⟩) (fun x => x.search.result? = some (.ok runs))
          (Session.start payloadPlan)
        ∧ ¬ ∃ run ∈ runs, run.runId = "5" := by
  obtain ⟨hids, hwidth⟩ := canonical_unfinishedRuns
  obtain ⟨runs, hruns, hfound⟩ := exists_run_iff_mem_passFrom none ⟨100, 0⟩ hids described_unfinishedRuns
  have hmem : (⟨"job/5/prowjob.json", ⟨90, 0⟩⟩ : ObjectRecord) ∈ unfinishedRuns.records := by decide
  have hdue : Due unfinishedRuns payloadPlan none ⟨100, 0⟩ "5" := due_unfinishedRuns hmem (by decide +kernel)
  have hmissed : "5" ∉ (passFrom unfinishedRuns (payloadPlan.route ⟨100, 0⟩) none).1 := by decide +kernel
  have hends := inevitably_reference hids none ⟨100, 0⟩
  rw [hruns] at hends
  exact ⟨hids, hwidth, described_unfinishedRuns, hdue, runs, hends, fun h => hmissed ((hfound "5" hdue).1 h)⟩

end PayloadGate
