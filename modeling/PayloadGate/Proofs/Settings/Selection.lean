import PayloadGate.Proofs.Analysis.Listed
import PayloadGate.Rehearsal.Program

/-! # Which jobs an analysis searches

A release payload is analyzed over the jobs that have the facets which the settings require, and the names of the
reports tell these facets. The storage directories of a pull request stand in their way: once any are given, the jobs
that they name are searched, whatever facets these have.

* **`Settings.Wants`**, **`Settings.Names`** — the jobs that settings require by their facets, and those that they name.
* **`Settings.agree_iff`** — when both ways of selection come to the same jobs.
* **`TrueOf`** — a suffix of a report tells facets that a job has.
* **`TagFlow`**, **`tagFlow_of_load`** — what an accepted configuration for a release payload makes of a catalog. -/

namespace PayloadGate

variable {s : Settings} {c : Config} {vars : Variables} {now : Time.Instant} {jobs : List Job} {job : Job}
  {tag : String}

/-! ## Parts of a name -/

namespace Text

/-- `occursIn needle hay = true ↔ needle <:+: hay`: a text occurs in another one as a block of it. -/
theorem occursIn_iff {needle hay : List Char} : occursIn needle hay = true ↔ needle <:+: hay := by
  induction hay with
  | nil => rw [occursIn, List.isEmpty_iff, List.infix_nil]
  | cons c cs ih => rw [occursIn, Bool.or_eq_true, List.isPrefixOf_iff_prefix, ih, List.infix_cons_iff]

/-- `contains hay needle` is `<:+:` on the characters. -/
theorem contains_iff {hay needle : String} : contains hay needle = true ↔ needle.toList <:+: hay.toList :=
  occursIn_iff

end Text

/-! ## Selection -/

namespace Settings

/-- **A job that settings require**, `s.Wants job`: it has each facet that is stated,
`facet = some value → value = job.…`, and no excluded part occurs in `job.name`. -/
structure Wants (s : Settings) (job : Job) : Prop where
  /-- The platform. -/
  platform_eq : ∀ platform, s.platform = some platform → job.platform = platform
  /-- The network plugin. -/
  network_eq : ∀ network, s.network = some network → job.network = network
  /-- The infrastructure. -/
  infrastructure_eq : ∀ infrastructure, s.infrastructure = some infrastructure → job.infrastructure = infrastructure
  /-- The name. -/
  not_excluded : ∀ part ∈ s.excluded, ¬ part.toList <:+: job.name.toList

/-- A facet is looked at only when it is required: `facet.all (· == value)` holds of `none`. -/
theorem all_beq_iff {facet : Option String} {value : String} :
    facet.all (· == value) = true ↔ ∀ required, facet = some required → value = required := by
  cases facet with
  | none => simp
  | some required =>
    rw [Option.all_some, beq_iff_eq]
    exact ⟨fun h _ hsome => h.symm.trans (Option.some.inj hsome), fun h => (h required rfl).symm⟩

/-- `s.filter.accepts job` is `s.Wants job`: the filter passes the jobs that are required. -/
theorem accepts_filter_iff : s.filter.accepts job = true ↔ s.Wants job := by
  simp only [JobFilter.accepts, filter, Bool.and_eq_true, Bool.not_eq_true', all_beq_iff,
    List.any_eq_false, Text.contains_iff]
  exact ⟨fun ⟨⟨⟨hp, hn⟩, hi⟩, he⟩ => ⟨hp, hn, hi, he⟩,
    fun h => ⟨⟨⟨h.platform_eq, h.network_eq⟩, h.infrastructure_eq⟩, h.not_excluded⟩⟩

instance : DecidablePred s.Wants := fun _ => decidable_of_iff _ accepts_filter_iff

/-- **A job that settings name**, `s.Names job`: some `p ∈ s.prefixes` gives its storage directory. -/
def Names (s : Settings) (job : Job) : Prop := ∃ p ∈ s.prefixes, p.jobName = job.name

instance : DecidablePred s.Names := fun job => inferInstanceAs (Decidable (∃ p ∈ s.prefixes, p.jobName = job.name))

/-- **The jobs that are searched**, `s.selected jobs`: what `selectJobs` keeps of a catalog under the filter and the
directories of the settings. -/
def selected (s : Settings) (jobs : List Job) : List Job := selectJobs s.filter s.prefixes jobs

/-- With `s.prefixes = []`, the jobs that are required: `jobs.filter s.Wants`. -/
theorem selected_of_nil (h : s.prefixes = []) (jobs : List Job) : s.selected jobs = jobs.filter s.Wants := by
  rw [selected, selectJobs, h, List.isEmpty_nil, if_pos rfl]
  exact List.filter_congr fun job _ => by rw [Bool.eq_iff_iff, accepts_filter_iff, decide_eq_true_iff]

/-- With directories, the jobs that they name and no others, whatever the facets say: `jobs.filter s.Names`. -/
theorem selected_of_ne_nil (h : s.prefixes ≠ []) (jobs : List Job) : s.selected jobs = jobs.filter s.Names := by
  rw [selected, selectJobs, if_neg (by simpa using h)]
  refine List.filter_congr fun job _ => ?_
  rw [Bool.eq_iff_iff, List.any_eq_true, decide_eq_true_iff]
  simp only [beq_iff_eq, Names]

/-- **Settings agree on a catalog** with their facets: `s.prefixes = []`, or `s.Names` and `s.Wants` coincide on the
jobs of the catalog. -/
def Agree (s : Settings) (jobs : List Job) : Prop := s.prefixes = [] ∨ ∀ job ∈ jobs, s.Names job ↔ s.Wants job

/-- **When the required jobs are searched**, and no others: `s.selected jobs = jobs.filter s.Wants` exactly when
`s.Agree jobs`. -/
theorem agree_iff : s.selected jobs = jobs.filter s.Wants ↔ s.Agree jobs := by
  rw [Agree]
  by_cases h : s.prefixes = []
  · exact ⟨fun _ => .inl h, fun _ => selected_of_nil h jobs⟩
  · rw [selected_of_ne_nil h, or_iff_right h]
    constructor
    · intro heq job hjob
      have hmem : job ∈ jobs.filter s.Names ↔ job ∈ jobs.filter s.Wants := by rw [heq]
      simpa only [List.mem_filter, hjob, true_and, decide_eq_true_iff] using hmem
    · intro hagree
      exact List.filter_congr fun job hjob => decide_eq_decide.2 (hagree job hjob)

end Settings

/-! ## Suffixes -/

/-- **A suffix is true of a job**: it is `suffixOf` of a version, a platform, a network and a topology, each of them the
job's own or `""`. -/
def TrueOf (suffix : String) (job : Job) : Prop :=
  ∃ platform ∈ ["", job.platform], ∃ network ∈ ["", job.network], ∃ infrastructure ∈ ["", job.infrastructure],
    suffix = facetSuffix platform network infrastructure

instance (suffix : String) : DecidablePred (TrueOf suffix) := fun job =>
  inferInstanceAs (Decidable (∃ platform ∈ ["", job.platform], ∃ network ∈ ["", job.network],
    ∃ infrastructure ∈ ["", job.infrastructure], suffix = facetSuffix platform network infrastructure))

/-- A required facet is told as the job's own value, one that is not required as `""`. -/
theorem getD_mem_of_required {facet : Option String} {value : String}
    (h : ∀ required, facet = some required → value = required) : facet.getD "" ∈ ["", value] := by
  cases facet with
  | none => exact List.mem_cons_self
  | some required => simp [h required rfl]

/-- **The suffix of every gate is true of a required job**: `s.Wants job` gives `TrueOf checker.suffix job` for each of
`s.checkers`. -/
theorem trueOf_of_wants (h : s.Wants job) {checker : Checker} (hchecker : checker ∈ s.checkers) :
    TrueOf checker.suffix job := by
  obtain ⟨test, -, rfl⟩ := List.mem_map.1 hchecker
  exact ⟨_, getD_mem_of_required h.platform_eq, _, getD_mem_of_required h.network_eq, _,
    getD_mem_of_required h.infrastructure_eq, rfl⟩

/-! ## Accepted configurations -/

/-- A computation that gives a value gives one at each of its steps. -/
theorem exists_of_bind_eq_ok {ε α β : Type} {x : Except ε α} {f : α → Except ε β} {b : β} (h : x >>= f = .ok b) :
    ∃ a, x = .ok a ∧ f a = .ok b := by
  cases x with
  | error e => exact absurd h (by simp [bind, Except.bind])
  | ok a => exact ⟨a, rfl, h⟩

/-- **An accepted configuration** holds the settings that the variables state. They pass `Settings.check`, and in
production `c.leftovers = []`: no value for development is left. -/
theorem Config.settingsOf_of_load (h : Config.load vars now = .ok c) :
    Config.settingsOf vars now = .ok c.settings ∧ c.settings.check = .ok ()
      ∧ (c.environment = .production → c.leftovers = []) := by
  obtain ⟨environment, -, h⟩ := exists_of_bind_eq_ok h
  obtain ⟨connections, -, h⟩ := exists_of_bind_eq_ok h
  obtain ⟨settings, hsettings, h⟩ := exists_of_bind_eq_ok h
  obtain ⟨⟨⟩, hcheck, h⟩ := exists_of_bind_eq_ok h
  -- what is left is the rule for production
  rw [ite_eq_iff] at h
  rcases h with ⟨-, h⟩ | ⟨hleft, h⟩
  · exact absurd h (by simp)
  · obtain rfl := Except.ok.inj h
    exact ⟨hsettings, hcheck, fun hproduction => not_not.1 fun hne => hleft ⟨hproduction, hne⟩⟩

/-- The settings of an accepted configuration break no rule. -/
theorem Config.check_of_load (h : Config.load vars now = .ok c) : c.settings.check = .ok () :=
  (Config.settingsOf_of_load h).2.1

namespace Settings

/-- Settings with `s.check = .ok ()` obey each rule in `s.obeyed`. -/
theorem obeyed_of_check (h : s.check = .ok ()) {rule : Rule} {obeys : Bool} (hmem : (rule, obeys) ∈ s.obeyed) :
    obeys = true := by
  rw [check] at h
  split at h
  · exact absurd h (by simp)
  · rename_i hnone
    simpa using List.find?_eq_none.1 hnone _ hmem

/-- **With a tag, the release payload of the tag is analyzed**: settings that pass the check have options, and
`o.selector = .tag tag`. -/
theorem options_of_check (h : s.check = .ok ()) (htag : s.tag = some tag) :
    ∃ o, s.options = .ok o ∧ o.selector = .tag tag := by
  have hone := obeyed_of_check h (List.mem_cons_self (a := (Rule.atMostOnePayload, _)))
  have hinvocation : s.invocation = none := by simpa [htag] using hone
  have hselector : s.selector = .ok (.tag tag) := by rw [selector, htag, hinvocation]
  obtain ⟨o, ho⟩ : ∃ o, s.options = .ok o := by
    rw [options, hselector]
    exact ⟨_, rfl⟩
  refine ⟨o, ho, ?_⟩
  rw [options, hselector] at ho
  obtain rfl := Except.ok.inj ho
  rfl

end Settings

/-! ## The analysis of a release payload -/

open Rehearsal (prepare)

/-- **What a configuration for a release payload makes of a catalog**: the analysis searches `c.settings.selected jobs`,
which are the jobs of the facets exactly when `c.settings.Agree jobs`, and then every suffix is true of the job of every
run that is judged. -/
structure TagFlow (tag : String) (c : Config) : Prop where
  /-- The release payload is analyzed. -/
  selects : ∃ o, c.settings.options = .ok o ∧ o.selector = .tag tag
  /-- The analysis is given the jobs that are searched, of the catalog that it meets. -/
  given : ∀ w around first, prepare w c = .ok (around, first) → ∃ bucket warehouse,
    w.services.connect c = .ok (bucket, warehouse) ∧ around.jobs = warehouse.listJobs.map c.settings.selected
  /-- The required jobs are searched, and no others, exactly when the settings agree on the catalog. -/
  exact_iff : ∀ jobs, c.settings.selected jobs = jobs.filter c.settings.Wants ↔ c.settings.Agree jobs
  /-- When directories are given, the jobs that they name are searched. -/
  named : c.settings.prefixes ≠ [] → ∀ jobs, c.settings.selected jobs = jobs.filter c.settings.Names
  /-- Every run that is judged is one of a required job, of which the suffix of every report is true, when the settings
  agree on every catalog that the analysis meets. -/
  judged : ∀ w around first events a, prepare w c = .ok (around, first) → playAll Analysis.step events first = some a →
    (∀ reply, .jobs reply ∈ events →
      ∃ catalog : Except Failure (List Job), reply = catalog.map c.settings.selected
        ∧ ∀ jobs, catalog = .ok jobs → c.settings.Agree jobs) →
    ∀ r ∈ a.judged, ∃ job, job.name = r.run.jobName ∧ c.settings.Wants job
      ∧ ∀ checker ∈ a.checkers, TrueOf checker.suffix job

/-- What the analysis of a configuration is given: the catalog filtered by `c.settings.selected`, and the options of the
settings. -/
theorem eq_of_prepare {w : Rehearsal.ProgramWorld} {around : Rehearsal.Surroundings} {first : Analysis}
    (h : prepare w c = .ok (around, first)) :
    ∃ bucket warehouse options, w.services.connect c = .ok (bucket, warehouse)
      ∧ around.jobs = warehouse.listJobs.map c.settings.selected
      ∧ first = .start options (c.settings.links bucket.name) c.settings.checkers none := by
  obtain ⟨⟨bucket, warehouse⟩, hconnect, h⟩ := exists_of_bind_eq_ok h
  obtain ⟨options, -, h⟩ := exists_of_bind_eq_ok h
  obtain ⟨rfl, rfl⟩ := Prod.mk.inj (Except.ok.inj h)
  exact ⟨bucket, warehouse, options, hconnect, rfl, rfl⟩

/-- **Facets bind in the analysis of a release payload**, for any accepted configuration and any catalog, exactly when
`c.settings.Agree jobs`: no directories of a pull request are given, or they name the jobs of the catalog that have the
facets. -/
theorem tagFlow_of_load (h : Config.load vars now = .ok c) (htag : c.settings.tag = some tag) : TagFlow tag c := by
  refine ⟨Settings.options_of_check (Config.check_of_load h) htag, fun w around first hprepare => ?_,
    fun jobs => Settings.agree_iff, Settings.selected_of_ne_nil, ?_⟩
  · obtain ⟨bucket, warehouse, options, hconnect, hjobs, -⟩ := eq_of_prepare hprepare
    exact ⟨bucket, warehouse, hconnect, hjobs⟩
  · intro w around first events a hprepare hplay hcatalog r hr
    obtain ⟨bucket, -, options, -, -, rfl⟩ := eq_of_prepare hprepare
    obtain ⟨jobs, hjobs, job, hjob, hname⟩ := Analysis.listed_of_judged hplay r hr
    obtain ⟨-, -, hcheckers⟩ := Analysis.options_of_playAll hplay
    -- the listed job was selected from a catalog with which the settings agree
    obtain ⟨catalog, hreply, hagree⟩ := hcatalog _ hjobs
    cases catalog with
    | error f => exact absurd hreply (by simp [Except.map])
    | ok all =>
      obtain rfl : jobs = c.settings.selected all := Except.ok.inj hreply
      rw [Settings.agree_iff.2 (hagree all rfl)] at hjob
      have hwants : c.settings.Wants job := of_decide_eq_true (List.mem_filter.1 hjob).2
      exact ⟨job, hname, hwants, fun checker hchecker => trueOf_of_wants hwants (hcheckers ▸ hchecker)⟩

/-- Variables for a release payload on one platform. They may also give storage directories. -/
def awsVariables (directories : Option String) : Variables := fun name =>
  if name = "RUST_ENV" then some "development"
  else if name = "JRA_PAYLOAD_TAG" then some "4.11"
  else if name = "JRA_PLATFORM" then some "aws"
  else if name = "JRA_EXPLICIT_GCS_PREFIXES" then directories
  else none

/-- A catalog with a job on that platform and one on another. -/
def twoPlatforms : List Job := [⟨"e2e-aws", "aws", "", ""⟩, ⟨"e2e-gcp", "gcp", "", ""⟩]

/-- Without storage directories only the job on the platform is searched. -/
theorem tagFlow_of_load_aws :
    ∃ c, Config.load (awsVariables none) ⟨0, 0⟩ = .ok c ∧ c.settings.tag = some "4.11" ∧ TagFlow "4.11" c
      ∧ c.settings.selected twoPlatforms = twoPlatforms.take 1 := by
  have hload : (Config.load (awsVariables none) ⟨0, 0⟩).toOption.map
      (fun c => (c.settings.tag, c.settings.selected twoPlatforms)) = some (some "4.11", twoPlatforms.take 1) := by
    decide +kernel
  cases hc : Config.load (awsVariables none) ⟨0, 0⟩ with
  | error f =>
    rw [hc] at hload
    exact absurd hload (by simp [Except.toOption])
  | ok c =>
    rw [hc] at hload
    obtain ⟨htag, hselected⟩ := Prod.mk.inj (Option.some.inj hload)
    exact ⟨c, rfl, htag, tagFlow_of_load hc htag, hselected⟩

/-- **A storage directory lets a job of another platform in**: `e2e-gcp` is selected though `JRA_PLATFORM` is `aws`, and
the suffix of the report is not true of it. -/
theorem exists_selected_not_wanted :
    ∃ c, Config.load (awsVariables (some "e2e-gcp=logs/e2e-gcp")) ⟨0, 0⟩ = .ok c ∧ c.settings.tag = some "4.11"
      ∧ c.settings.selected twoPlatforms ≠ twoPlatforms.filter c.settings.Wants
      ∧ ∃ job ∈ c.settings.selected twoPlatforms, ∃ checker ∈ c.settings.checkers, ¬ TrueOf checker.suffix job := by
  have hload : (Config.load (awsVariables (some "e2e-gcp=logs/e2e-gcp")) ⟨0, 0⟩).toOption.any
      (fun c => decide (c.settings.tag = some "4.11"
        ∧ c.settings.selected twoPlatforms ≠ twoPlatforms.filter c.settings.Wants
        ∧ ∃ job ∈ c.settings.selected twoPlatforms, ∃ checker ∈ c.settings.checkers,
          ¬ TrueOf checker.suffix job)) = true := by
    decide +kernel
  cases hc : Config.load (awsVariables (some "e2e-gcp=logs/e2e-gcp")) ⟨0, 0⟩ with
  | error f =>
    rw [hc] at hload
    exact absurd hload (by simp [Except.toOption])
  | ok c =>
    rw [hc] at hload
    exact ⟨c, rfl, of_decide_eq_true hload⟩

end PayloadGate
