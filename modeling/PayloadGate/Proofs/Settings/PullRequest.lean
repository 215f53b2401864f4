import PayloadGate.Proofs.Gate.Report
import PayloadGate.Proofs.Settings.Selection

/-! # Counting the runs of a pull request

The runs of a job of a pull request lie in the directory that the settings give for the job. A gate counts runs, and
different jobs may be given the same directory: a run that lies there is then found for each of them, and counted as
often.

* **`PayloadSelector.Apart`** — no two jobs have the same directory.
* **`nodup_descriptorKey_iff`** — when the runs of a collection lie in different directories.
* **`CountsOnce`**, **`countsOnce_of_check`** — what accepted settings for a pull request make of any catalog.
* **`exists_counted_twice`** — accepted settings by which one run passes a gate of two. -/

namespace PayloadGate

open Analysis (Searched Inherits)

variable {s : Settings} {id : String} {selector : PayloadSelector} {given : String → List UInt8 → Prop}
  {plans : List SearchPlan} {c : Collection Search} {ledger : List (Nat × Outcome)} {runs : List JobRun}

/-! ## Directories of jobs -/

namespace PayloadSelector

/-- **No two jobs have the same directory**: `root?` is injective where it is defined. -/
def Apart (selector : PayloadSelector) : Prop :=
  ∀ job job' root, selector.root? job = some root → selector.root? job' = some root → job = job'

/-- The jobs of a release payload have directories of their own, `logs/` and their names. -/
theorem apart_tag (tag : String) : (PayloadSelector.tag tag).Apart := by
  intro job job' root hjob hjob'
  have hroot : "logs/" ++ job = "logs/" ++ job' := Option.some.inj (hjob.trans hjob'.symm)
  exact (String.append_right_inj "logs/").1 hroot

/-- The jobs of a pull request have directories of their own when no directory is given for two of them. -/
theorem apart_invocation {prefixes : List JobPrefix}
    (h : ∀ p ∈ prefixes, ∀ q ∈ prefixes, p.directory = q.directory → p.jobName = q.jobName) :
    (PayloadSelector.invocation id prefixes).Apart := by
  have hfind : ∀ {job root}, (PayloadSelector.invocation id prefixes).root? job = some root →
      ∃ p ∈ prefixes, p.jobName = job ∧ p.directory = root := by
    intro job root hroot
    obtain ⟨p, hp, hdirectory⟩ := Option.map_eq_some_iff.1 hroot
    exact ⟨p, List.mem_of_find?_eq_some hp, by simpa using List.find?_some hp, hdirectory⟩
  intro job job' root hjob hjob'
  obtain ⟨p, hp, rfl, rfl⟩ := hfind hjob
  obtain ⟨q, hq, rfl, hdirectory⟩ := hfind hjob'
  exact h p hp q hq hdirectory.symm

end PayloadSelector

/-! ## Runs of a collection -/

/-- **Plans for different jobs**, each in the directory that the `selector` has for its job. -/
structure PlacedBy (selector : PayloadSelector) (plans : List SearchPlan) : Prop where
  /-- The jobs. -/
  nodup : (plans.map (·.job)).Nodup
  /-- The directories. -/
  root_eq : ∀ plan ∈ plans, selector.root? plan.job = some plan.root

/-- **A run in the directory of its job**, with its descriptor there. -/
structure LiesBy (selector : PayloadSelector) (run : JobRun) : Prop where
  /-- The directory of the job. -/
  root_eq : selector.root? run.jobName = some run.root
  /-- The descriptor lies in the directory of the run. -/
  key_eq : run.descriptorKey = run.root ++ "/" ++ run.runId ++ "/" ++ descriptorName
  /-- The directory of the run is named by an id. -/
  slash_notMem : '/' ∉ run.runId.toList

/-- What plans that are `PlacedBy` the selector find lies in the directories of their jobs. -/
theorem liesBy_of_outcome (hplans : PlacedBy selector plans) (h : Searched given plans c ledger)
    (ho : c.outcome? = some (.ok runs)) {run : JobRun} (hrun : run ∈ runs) : LiesBy selector run := by
  obtain ⟨plan, hplan, found, hmem, hfound⟩ := h.exists_found ho hrun
  have horigin := (hfound.belongs run hmem).toOrigin
  obtain ⟨next, hnext⟩ := hfound.valid run hmem
  refine ⟨?_, ?_, RunId.slash_notMem_of_next hnext⟩
  · rw [horigin.jobName_eq, horigin.root_eq]
    exact hplans.root_eq plan hplan
  · rw [horigin.root_eq]
    exact horigin.key_eq

/-- Two runs with the same descriptor lie in the same directory and have the same id. -/
theorem LiesBy.descriptorKey_inj {run run' : JobRun} (h : LiesBy selector run) (h' : LiesBy selector run') :
    run.descriptorKey = run'.descriptorKey ↔ run.root = run'.root ∧ run.runId = run'.runId := by
  rw [h.key_eq, h'.key_eq]
  refine ⟨fun heq => ?_, fun ⟨hroot, hid⟩ => by rw [hroot, hid]⟩
  have hlist := congrArg String.toList heq
  simp only [String.toList_append, List.append_cancel_right_eq] at hlist
  have hslash : ("/" : String).toList = ['/'] := rfl
  rw [hslash, List.append_assoc, List.append_assoc, List.singleton_append, List.singleton_append] at hlist
  obtain ⟨hroot, hid⟩ := Walk.eq_of_append_slash h.slash_notMem h'.slash_notMem hlist
  exact ⟨String.toList_inj.1 hroot, String.toList_inj.1 hid⟩

/-- **When the runs of a collection have different descriptors**: exactly when no two jobs have found a run of one id in
one directory. -/
theorem nodup_descriptorKey_iff (hplans : PlacedBy selector plans) (h : Searched given plans c ledger)
    (ho : c.outcome? = some (.ok runs)) :
    (runs.map (·.descriptorKey)).Nodup ↔
      ∀ run ∈ runs, ∀ run' ∈ runs, run.root = run'.root → run.runId = run'.runId → run.jobName = run'.jobName := by
  have hlies : ∀ run ∈ runs, LiesBy selector run := fun run => liesBy_of_outcome hplans h ho
  constructor
  · intro hnodup run hrun run' hrun' hroot hid
    have hkey := ((hlies run hrun).descriptorKey_inj (hlies run' hrun')).2 ⟨hroot, hid⟩
    rw [List.inj_on_of_nodup_map hnodup hrun hrun' hkey]
  · intro hjobs
    have hpairs := h.nodup hplans.nodup ho
    refine (hpairs.of_map _).map_on fun run hrun run' hrun' hkey => ?_
    obtain ⟨hroot, hid⟩ := ((hlies run hrun).descriptorKey_inj (hlies run' hrun')).1 hkey
    exact List.inj_on_of_nodup_map hpairs hrun hrun' (Prod.ext (hjobs run hrun run' hrun' hroot hid) hid)

/-- No run is answered twice when the jobs have directories of their own, `selector.Apart`. -/
theorem nodup_descriptorKey (hapart : selector.Apart) (hplans : PlacedBy selector plans)
    (h : Searched given plans c ledger) (ho : c.outcome? = some (.ok runs)) :
    (runs.map (·.descriptorKey)).Nodup := by
  refine (nodup_descriptorKey_iff hplans h ho).2 fun run hrun run' hrun' hroot _ => ?_
  have hrun := (liesBy_of_outcome hplans h ho hrun).root_eq
  have hrun' := (liesBy_of_outcome hplans h ho hrun').root_eq
  exact hapart _ _ _ hrun (hroot ▸ hrun')

/-- The runs that plans find for jobs with directories of their own are different ones, whatever the collection is. -/
theorem inherits_nodup (selector : PayloadSelector) :
    Inherits (PlacedBy selector) fun runs => selector.Apart → (runs.map (·.descriptorKey)).Nodup where
  of_outcome hplans hsearched ho hapart := nodup_descriptorKey hapart hplans hsearched ho
  of_subperm h hsub hapart := by
    obtain ⟨part, hperm, hsublist⟩ := hsub
    exact (hperm.map _).nodup_iff.1 ((h hapart).sublist (hsublist.map _))
  nil _ := List.nodup_nil

/-! ## The analysis of a pull request -/

/-- Jobs of different names lead to plans for different jobs, each in the directory of its job. -/
theorem placedBy_plansFor (a : Analysis) {jobs : List Job} (h : (jobs.map (·.name)).Nodup) :
    PlacedBy a.options.selector (a.plansFor jobs) := by
  refine ⟨h.sublist ?_, fun plan hplan => ?_⟩
  · induction jobs with
    | nil => exact List.Sublist.refl _
    | cons job jobs ih =>
      have hrest := ih (List.nodup_cons.1 h).2
      cases hroot : a.options.selector.root? job.name with
      | none => simpa [Analysis.plansFor, Options.searchPlan?, hroot] using hrest.cons job.name
      | some root => simpa [Analysis.plansFor, Options.searchPlan?, hroot] using hrest
  · obtain ⟨job, -, hjob⟩ := List.mem_filterMap.1 hplan
    obtain ⟨root, hroot, rfl⟩ := Option.map_eq_some_iff.1 hjob
    exact hroot

/-- The jobs that are searched are some of the catalog, in its order. -/
theorem Settings.selected_sublist (s : Settings) (jobs : List Job) : (s.selected jobs).Sublist jobs := by
  rw [selected, selectJobs]
  split <;> exact List.filter_sublist

/-- **The catalog answers with the selected jobs**, out of jobs of different names, when it answers with jobs at all. -/
def Settings.Lists (s : Settings) (reply : Except Failure (List Job)) : Prop :=
  ∃ catalog : Except Failure (List Job), reply = catalog.map s.selected
    ∧ ∀ jobs, catalog = .ok jobs → (jobs.map (·.name)).Nodup

/-- The jobs that are listed have different names, as those of the catalog have. -/
theorem Settings.Lists.nodup {jobs : List Job} (h : s.Lists (.ok jobs)) : (jobs.map (·.name)).Nodup := by
  obtain ⟨catalog, hreply, hnodup⟩ := h
  cases catalog with
  | error f => exact absurd hreply (by simp [Except.map])
  | ok all =>
    obtain rfl := Except.ok.inj hreply
    exact (hnodup all rfl).sublist ((s.selected_sublist all).map _)

/-- **With an invocation `id`, the payload of the pull request is analyzed**, by the prefixes of the settings. -/
theorem Settings.options_of_invocation (h : s.check = .ok ()) (hinvocation : s.invocation = some id) :
    ∃ o, s.options = .ok o ∧ o.selector = .invocation id s.prefixes := by
  have hone := obeyed_of_check h (List.mem_cons_self (a := (Rule.atMostOnePayload, _)))
  have htag : s.tag = none := by simpa [hinvocation] using hone
  have hselector : s.selector = .ok (.invocation id s.prefixes) := by rw [selector, htag, hinvocation]
  obtain ⟨o, ho⟩ : ∃ o, s.options = .ok o := by
    rw [options, hselector]
    exact ⟨_, rfl⟩
  refine ⟨o, ho, ?_⟩
  rw [options, hselector] at ho
  obtain rfl := Except.ok.inj ho
  rfl

/-- **What an analysis counts**: each run once when the jobs have directories of their own, and a run twice otherwise
only when two jobs found it in one directory. -/
structure CountsOnce (selector : PayloadSelector) (a : Analysis) : Prop where
  /-- The runs that a collection hands on lie in the directories of their jobs. -/
  lies : ∀ stop plans c runs, a.stage = .collecting stop plans c → c.outcome? = some (.ok runs) →
    ∀ run ∈ runs, LiesBy selector run
  /-- They are different ones exactly when no two jobs have found a run of one id in one directory. -/
  nodup_iff : ∀ stop plans c runs, a.stage = .collecting stop plans c → c.outcome? = some (.ok runs) →
    ((runs.map (·.descriptorKey)).Nodup ↔
      ∀ run ∈ runs, ∀ run' ∈ runs, run.root = run'.root → run.runId = run'.runId → run.jobName = run'.jobName)
  /-- They are different ones when the jobs have directories of their own. -/
  nodup : selector.Apart → ∀ stop plans c runs, a.stage = .collecting stop plans c → c.outcome? = some (.ok runs) →
    (runs.map (·.descriptorKey)).Nodup
  /-- When the gate is then passed, each test has passed in as many different run directories as it must. The number
  of checkers that fall short is kept in 32 bits. -/
  passed : selector.Apart → a.checkers.length < 2 ^ 32 → ∀ path, a.result? = some (.ok path) →
    ∀ checker ∈ a.checkers, ∃ keys : List String, keys.Nodup ∧ checker.required ≤ keys.length
      ∧ ∀ key ∈ keys, ∃ r ∈ a.judged, r.run.descriptorKey = key
        ∧ Junit.verdictOfForest checker.test r.forest = .passed

/-- **What the analysis of a pull request counts**, by any settings that are accepted, whatever the store answers, in
whatever order the events come, and whenever the signal is given, when the jobs of the catalog have different names. -/
theorem countsOnce_of_check (h : s.check = .ok ()) (hinvocation : s.invocation = some id) :
    ∃ o, s.options = .ok o ∧ o.selector = .invocation id s.prefixes
      ∧ ∀ links checkers earlier events a, (∀ reply, .jobs reply ∈ events → s.Lists reply) →
        playAll Analysis.step events (.start o links checkers earlier) = some a →
        CountsOnce (.invocation id s.prefixes) a := by
  obtain ⟨o, ho, hselector⟩ := Settings.options_of_invocation h hinvocation
  refine ⟨o, ho, hselector, fun links checkers earlier events a hlists hplay => ?_⟩
  have hplans : ∀ t : Analysis, t.options = o → ∀ jobs, .jobs (.ok jobs) ∈ events →
      PlacedBy (.invocation id s.prefixes) (t.plansFor jobs) := by
    intro t ht jobs hjobs
    rw [← hselector, ← ht]
    exact placedBy_plansFor t (hlists _ hjobs).nodup
  -- apart directories are handed down by every step: from the plans to the runs, and to the judged runs
  have hhanded := Analysis.handed_of_playAll (inherits_nodup _) hplans hplay
  refine ⟨fun stop plans c runs hs ho => ?_, fun stop plans c runs hs ho => ?_,
    fun hapart stop plans c runs hs ho => ?_, fun hapart hlength path hresult checker hchecker => ?_⟩
  · obtain ⟨hplans, ledger, hsearched⟩ := hhanded.collecting _ _ _ hs
    exact fun run => liesBy_of_outcome hplans hsearched ho
  · obtain ⟨hplans, ledger, hsearched⟩ := hhanded.collecting _ _ _ hs
    exact nodup_descriptorKey_iff hplans hsearched ho
  · obtain ⟨hplans, ledger, hsearched⟩ := hhanded.collecting _ _ _ hs
    exact nodup_descriptorKey hapart hplans hsearched ho
  · -- an accepted payload has as many passes as are required, each from a judged run with a key of its own
    have hended : a.stage = .ended (.ok path) := by
      rw [Analysis.result?] at hresult
      split at hresult
      · rename_i result hs
        rw [hs, Option.some.inj hresult]
      · exact absurd hresult (by simp)
    have hrequired := required_le_of_failures _ _ _ (hhanded.passed path hended) hlength hchecker
    have hnodup := hhanded.judged hapart
    rw [List.map_map] at hnodup
    refine ⟨(a.judged.filter checker.passedIn).map (·.run.descriptorKey), ?_, ?_, fun key hkey => ?_⟩
    · exact hnodup.sublist ((List.filter_sublist).map _)
    · rw [List.length_map, ← List.countP_eq_length_filter]
      exact hrequired
    · obtain ⟨r, hr, rfl⟩ := List.mem_map.1 hkey
      obtain ⟨hmem, hpassed⟩ := List.mem_filter.1 hr
      exact ⟨r, hmem, rfl, eq_of_beq hpassed⟩

/-! ## Two jobs -/

/-- Settings for a pull request with two jobs, the second one in a directory of its own or not, and a gate of two
passes. -/
def twoJobSettings (directory : String) : Settings where
  workingDir := "work"
  tag := none
  invocation := some "pr"
  start := ⟨80, 0⟩
  timeout := 12600
  platform := none
  network := none
  infrastructure := none
  testGroups := ["install"]
  minimum := 2
  prefixes := [⟨"a", "logs/x"⟩, ⟨"b", directory⟩]
  excluded := []
  maxJobs := 2
  humanBase := "human"
  artifactBase := "artifacts"

/-- What is analyzed by `twoJobSettings directory`. -/
def twoJobOptions (directory : String) : Options :=
  ⟨.invocation "pr" [⟨"a", "logs/x"⟩, ⟨"b", directory⟩], "work", ⟨80, 0⟩, 12600, Time.seconds 3600, 1200, 600000,
    Settings.window, 2, Settings.retry⟩

/-- The search of the worker `i` for the runs of its job, which finds one with a result file in `directory`. -/
def oneRunEvents (i : Nat) (directory : String) : List Analysis.Event :=
  let objects := Analysis.runObjects (directory ++ "/5")
  let descriptor := ("[[\"run\",\x7b\"release.openshift.io/aggregation-id\":\"pr\"\x7d,\"1970-01-01T00:01:30Z\"]]"
    : String).toUTF8.toList
  [.launch i, .search i (.seed (.ok none) ⟨100, 0⟩), .search i (.walkerPage (.ok ⟨objects, none⟩)),
    .search i .walkerSend, .search i (.walkerPage (.ok ⟨[], none⟩)), .search i .readerTake,
    .search i (.readerPage (.ok ⟨objects, none⟩)), .search i (.readerObject (.ok descriptor)),
    .search i .readerTake, .settle i]

/-- Both jobs are searched, one after the other, the second one in `directory`. -/
def twoJobSearches (directory : String) : List Analysis.Event :=
  [.prepared (.ok ()), .ready, .jobs (.ok [.named "a", .named "b"])] ++ oneRunEvents 0 "logs/x"
    ++ oneRunEvents 1 directory

/-- What both jobs have found is judged by their result files, in which the test passed. -/
def twoJobEvents (directory : String) : List Analysis.Event :=
  twoJobSearches directory ++ [.joined ⟨20000, 0⟩, .loaded Analysis.installAnswers fun _ => .zero, .written (.ok ())]

/-- The analysis by `twoJobSettings directory` before its first event. -/
def twoJobStart (directory : String) : Analysis :=
  .start (twoJobOptions directory) ⟨"bucket", "human", "artifacts"⟩ (twoJobSettings directory).checkers none

/-- The catalog lists the two jobs, which the settings name. -/
theorem lists_twoJobEvents {directory : String} {reply : Except Failure (List Job)}
    (h : .jobs reply ∈ twoJobEvents directory) : (twoJobSettings directory).Lists reply := by
  have hreply : reply = .ok [.named "a", .named "b"] := by
    simpa [twoJobEvents, twoJobSearches, oneRunEvents] using h
  refine ⟨.ok [.named "a", .named "b"], hreply, fun jobs hjobs => ?_⟩
  obtain rfl := Except.ok.inj hjobs
  decide

/-- Two jobs with directories of their own pass a gate of two with two runs. -/
theorem countsOnce_of_check_twoJobs :
    (twoJobSettings "logs/y").check = .ok () ∧ (twoJobSettings "logs/y").invocation = some "pr"
      ∧ (twoJobSettings "logs/y").options = .ok (twoJobOptions "logs/y")
      ∧ ∃ a, playAll Analysis.step (twoJobEvents "logs/y") (twoJobStart "logs/y") = some a
        ∧ CountsOnce (.invocation "pr" [⟨"a", "logs/x"⟩, ⟨"b", "logs/y"⟩]) a
        ∧ ∃ path, a.result? = some (.ok path) ∧ ∃ keys : List String, keys.Nodup ∧ 2 ≤ keys.length
          ∧ ∀ key ∈ keys, ∃ r ∈ a.judged, r.run.descriptorKey = key := by
  have hcheck : (twoJobSettings "logs/y").check = .ok () := by decide +kernel
  obtain ⟨o, ho, -, hcounts⟩ := countsOnce_of_check hcheck (rfl : (twoJobSettings "logs/y").invocation = some "pr")
  obtain rfl : o = twoJobOptions "logs/y" := (Except.ok.inj ho).symm
  have hplay : (playAll Analysis.step (twoJobEvents "logs/y") (twoJobStart "logs/y")).bind Analysis.result?
      = some (.ok "work/pr/junit-test-case-analysis.xml") := by decide +kernel
  obtain ⟨a, ha, hresult⟩ := Option.bind_eq_some_iff.1 hplay
  have hcounts := hcounts _ _ _ _ a (fun _ => lists_twoJobEvents) ha
  have hapart : (PayloadSelector.invocation "pr" [⟨"a", "logs/x"⟩, ⟨"b", "logs/y"⟩]).Apart :=
    PayloadSelector.apart_invocation (by decide)
  obtain ⟨-, -, hcheckers⟩ := Analysis.options_of_playAll ha
  obtain ⟨keys, hnodup, hlength, hkeys⟩ := hcounts.passed hapart (by rw [hcheckers]; decide) _ hresult
    ⟨.install, "", 2⟩ (by rw [hcheckers]; exact List.mem_singleton.2 rfl)
  exact ⟨hcheck, rfl, rfl, a, ha, hcounts, _, hresult, keys, hnodup, hlength,
    fun key hkey => (hkeys key hkey).imp fun _ hr => ⟨hr.1, hr.2.1⟩⟩

/-- **One run passes a gate of two** when both jobs are given its directory: the settings are accepted, the jobs of the
catalog have different names, and the collection hands the run on twice. -/
theorem exists_counted_twice :
    (twoJobSettings "logs/x").check = .ok () ∧ (twoJobSettings "logs/x").invocation = some "pr"
      ∧ (twoJobSettings "logs/x").options = .ok (twoJobOptions "logs/x")
      ∧ (∀ reply, .jobs reply ∈ twoJobEvents "logs/x" → (twoJobSettings "logs/x").Lists reply)
      ∧ (∃ t stop plans c runs, playAll Analysis.step (twoJobSearches "logs/x") (twoJobStart "logs/x") = some t
        ∧ t.stage = .collecting stop plans c ∧ c.outcome? = some (.ok runs)
        ∧ ¬ (runs.map (·.descriptorKey)).Nodup)
      ∧ ∃ a, playAll Analysis.step (twoJobEvents "logs/x") (twoJobStart "logs/x") = some a
        ∧ (∃ path, a.result? = some (.ok path)) ∧ (∀ checker ∈ a.checkers, checker.required = 2)
        ∧ ∀ r ∈ a.judged, r.run.descriptorKey = "logs/x/5/prowjob.json" := by
  -- the whole analysis runs in the kernel; of its states the keys and the end are compared
  have hcheck : (twoJobSettings "logs/x").check = .ok () := by decide +kernel
  have hsearched : ((playAll Analysis.step (twoJobSearches "logs/x") (twoJobStart "logs/x")).bind
      Rehearsal.collectionOf?).bind (fun c => c.outcome?.map (·.map (·.map (·.descriptorKey))))
      = some (.ok ["logs/x/5/prowjob.json", "logs/x/5/prowjob.json"]) := by decide +kernel
  have hplay : (playAll Analysis.step (twoJobEvents "logs/x") (twoJobStart "logs/x")).map
      (fun a => (a.result?, a.judged.map (·.run.descriptorKey)))
      = some (some (.ok "work/pr/junit-test-case-analysis.xml"),
        ["logs/x/5/prowjob.json", "logs/x/5/prowjob.json"]) := by decide +kernel
  obtain ⟨c, hc, hruns⟩ := Option.bind_eq_some_iff.1 hsearched
  obtain ⟨t, ht, hstage⟩ := Option.bind_eq_some_iff.1 hc
  obtain ⟨a, ha, hjudged⟩ := Option.map_eq_some_iff.1 hplay
  obtain ⟨hresult, hkeys⟩ := Prod.mk.inj hjudged
  obtain ⟨-, -, hcheckers⟩ := Analysis.options_of_playAll ha
  refine ⟨hcheck, rfl, rfl, fun _ => lists_twoJobEvents, ?_, a, ha, ⟨_, hresult⟩, ?_, fun r hr => ?_⟩
  · rw [Rehearsal.collectionOf?] at hstage
    split at hstage
    · rename_i stop plans c' hs
      obtain rfl := Option.some.inj hstage
      obtain ⟨outcome, houtcome, hmap⟩ := Option.map_eq_some_iff.1 hruns
      cases outcome with
      | error f => exact absurd hmap (by simp [Except.map])
      | ok runs =>
        have hsame : runs.map (·.descriptorKey) = ["logs/x/5/prowjob.json", "logs/x/5/prowjob.json"] :=
          Except.ok.inj hmap
        exact ⟨t, stop, plans, c', runs, ht, hs, houtcome, by rw [hsame]; decide⟩
    · exact absurd hstage (by simp)
  · rw [hcheckers]
    decide
  · have hmem := List.mem_map_of_mem (f := fun r : JudgedRun => r.run.descriptorKey) hr
    rw [hkeys] at hmem
    simpa using hmem

end PayloadGate
