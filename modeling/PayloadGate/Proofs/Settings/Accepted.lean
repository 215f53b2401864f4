import PayloadGate.Proofs.Settings.PullRequest
import PayloadGate.Proofs.Text.Trim

/-! # Accepted configurations

A configuration is accepted before anything is searched. What is made of it afterwards must not find fault with it, and
none of its parts may have nothing to do.

* **`Settings.Named`** — exactly one payload is named.
* **`Settings.Obeys`**, **`Settings.obeys_of_check`** — the rules that settings obey that are not refused.
* **`Settings.forall₂_checkers`** — one gate for each test group.
* **`Settings.isSome_root?_of_selected`** — each job that is selected for a pull request has a directory.
* **`Runnable`**, **`runnable_of_load`** — what an accepted configuration is good for. -/

namespace PayloadGate

variable {s : Settings} {c : Config} {vars : Variables} {now : Time.Instant} {o : Options} {job : Job} {jobs : List Job}

namespace Settings

/-! ## The payload -/

/-- **Exactly one payload is named**, a tag or an invocation, by a text that is not empty and has no blanks at its
ends. -/
inductive Named (s : Settings) : Prop where
  /-- A release payload. -/
  | tag {tag : String} (tag_eq : s.tag = some tag) (invocation_eq : s.invocation = none) (ne_empty : tag ≠ "")
      (trimmed : Text.Trimmed tag)
  /-- The payload of a pull request. -/
  | invocation {id : String} (invocation_eq : s.invocation = some id) (tag_eq : s.tag = none) (ne_empty : id ≠ "")
      (trimmed : Text.Trimmed id)

/-- **The rules that settings obey**, each as a fact about their fields. -/
structure Obeys (s : Settings) : Prop where
  /-- Not both kinds of payload are named. -/
  atMostOne : s.tag = none ∨ s.invocation = none
  /-- One of them is. -/
  some : s.tag ≠ none ∨ s.invocation ≠ none
  /-- The payload of a pull request comes with storage directories. -/
  prefixes_ne_nil : s.invocation ≠ none → s.prefixes ≠ []
  /-- There is a test group. -/
  testGroups_ne_nil : s.testGroups ≠ []
  /-- All test groups are known. -/
  known : ∀ group ∈ s.testGroups, (Junit.TestId.ofGroup? group).isSome = true
  /-- The timeout has a limit. -/
  timeout_le : s.timeout ≤ longestTimeout
  /-- At least one job is searched at a time. -/
  maxJobs_pos : 0 < s.maxJobs

/-- Settings that are not refused obey the rules: `s.check = .ok ()` gives `s.Obeys`. -/
theorem obeys_of_check (h : s.check = .ok ()) : s.Obeys := by
  have hall : ∀ p ∈ s.obeyed, p.2 = true := fun _ => obeyed_of_check h
  rw [obeyed] at hall
  simp only [List.forall_mem_cons] at hall
  obtain ⟨hone, hsome, hprefixes, -, -, -, -, hgroups, hknown, htimeout, hjobs, -⟩ := hall
  refine ⟨?_, ?_, fun hinvocation => ?_, by simpa using hgroups, by simpa using hknown, of_decide_eq_true htimeout,
    of_decide_eq_true hjobs⟩
  · simpa [Decidable.imp_iff_not_or, or_comm] using hone
  · simpa [Option.isSome_iff_ne_none] using hsome
  · rw [Option.isNone_eq_false_iff.2 (Option.isSome_iff_ne_none.2 hinvocation)] at hprefixes
    simpa using hprefixes

/-- The payload of settings that variables state is named by a trimmed text, because variables are trimmed when they are
read. -/
theorem named_of_settingsOf (h : Config.settingsOf vars now = .ok s) (hobeys : s.Obeys) : s.Named := by
  obtain ⟨start, -, h⟩ := exists_of_bind_eq_ok h
  obtain ⟨timeout, -, h⟩ := exists_of_bind_eq_ok h
  obtain ⟨minimum, -, h⟩ := exists_of_bind_eq_ok h
  obtain ⟨maxJobs, -, h⟩ := exists_of_bind_eq_ok h
  obtain ⟨prefixes, -, h⟩ := exists_of_bind_eq_ok h
  have htag : s.tag = Text.nonBlank (vars "JRA_PAYLOAD_TAG") := by rw [← Except.ok.inj h]
  have hinvocation : s.invocation = Text.nonBlank (vars "JRA_PAYLOAD_INVOCATION_ID") := by rw [← Except.ok.inj h]
  cases hs : s.tag with
  | some tag =>
    obtain ⟨hne, htrimmed⟩ := Text.trimmed_of_nonBlank (htag.symm.trans hs)
    have hnone : s.invocation = none := hobeys.atMostOne.resolve_left (by simp [hs])
    exact .tag hs hnone hne htrimmed
  | none =>
    obtain ⟨id, hid⟩ := Option.ne_none_iff_exists'.1 (hobeys.some.resolve_left (not_not.2 hs))
    obtain ⟨hne, htrimmed⟩ := Text.trimmed_of_nonBlank (hinvocation.symm.trans hid)
    exact .invocation hid hs hne htrimmed

/-- **The payload that is named is analyzed**: `s.options` is some `.ok o` for it, with the timeout of the settings. -/
theorem Named.options_eq (h : s.Named) : ∃ o, s.options = .ok o ∧ o.selector.matchId = s.matchId
    ∧ (∀ id, s.invocation = some id → o.selector = .invocation id s.prefixes) ∧ o.timeout = s.timeout := by
  cases h with
  | @tag tag htag hinvocation =>
    have hselector : s.selector = .ok (.tag tag) := by rw [selector, htag, hinvocation]
    rw [options, hselector]
    refine ⟨_, rfl, ?_, fun id hid => ?_, rfl⟩
    · rw [matchId, htag]
      rfl
    · rw [hinvocation] at hid
      exact absurd hid (by simp)
  | @invocation id hinvocation htag =>
    have hselector : s.selector = .ok (.invocation id s.prefixes) := by rw [selector, htag, hinvocation]
    rw [options, hselector]
    refine ⟨_, rfl, ?_, fun id' hid => ?_, rfl⟩
    · rw [matchId, htag, hinvocation]
      rfl
    · rw [hinvocation] at hid
      obtain rfl := Option.some.inj hid
      rfl

/-! ## The gates -/

/-- A known test group has one test, `[test]`. -/
theorem exists_ofGroup?_eq {group : String} (h : (Junit.TestId.ofGroup? group).isSome = true) :
    ∃ test, Junit.TestId.ofGroup? group = some [test] := by
  rw [Junit.TestId.ofGroup?] at h ⊢
  split_ifs at h ⊢ with hinstall
  · exact ⟨_, rfl⟩
  · exact absurd h (by simp)

/-- **A gate for a test group**: its `checker` is about the one test of the group, with the number of passes that the
settings require. -/
def GateFor (s : Settings) (group : String) (checker : Checker) : Prop :=
  Junit.TestId.ofGroup? group = some [checker.test] ∧ checker.required = s.minimum

/-- **There is one gate for each test group**, in the order of the groups, repeated ones included. -/
theorem forall₂_checkers (hobeys : s.Obeys) : List.Forall₂ s.GateFor s.testGroups s.checkers := by
  have hknown := hobeys.known
  rw [checkers, tests]
  generalize s.testGroups = groups at hknown
  induction groups with
  | nil => exact .nil
  | cons group groups ih =>
    obtain ⟨hgroup, hgroups⟩ := List.forall_mem_cons.1 hknown
    obtain ⟨test, htest⟩ := exists_ofGroup?_eq hgroup
    rw [List.filterMap_cons_some htest, List.flatten_cons, List.singleton_append, List.map_cons]
    exact .cons ⟨htest, rfl⟩ (ih hgroups)

/-! ## The directories -/

/-- **Each job that is selected for a pull request has a directory**: the settings name it by a prefix. -/
theorem isSome_root?_of_selected {id : String} (hprefixes : s.prefixes ≠ []) (hjob : job ∈ s.selected jobs) :
    ((PayloadSelector.invocation id s.prefixes).root? job.name).isSome = true := by
  rw [selected_of_ne_nil hprefixes] at hjob
  obtain ⟨p, hp, hname⟩ := of_decide_eq_true (List.mem_filter.1 hjob).2
  rw [PayloadSelector.root?, Option.isSome_map, List.find?_isSome]
  exact ⟨p, hp, beq_iff_eq.2 hname⟩

end Settings

/-- When each of some jobs has a directory, each is searched, in their order. -/
theorem Analysis.map_job_plansFor {a : Analysis}
    (h : ∀ job ∈ jobs, (a.options.selector.root? job.name).isSome = true) :
    (a.plansFor jobs).map (·.job) = jobs.map (·.name) := by
  induction jobs with
  | nil => rfl
  | cons job jobs ih =>
    obtain ⟨hjob, hjobs⟩ := List.forall_mem_cons.1 h
    obtain ⟨root, hroot⟩ := Option.isSome_iff_exists.1 hjob
    have hplan : a.options.searchPlan? a.links job
        = some ⟨job.name, root, a.options.selector.matcher, a.options.estimate, a.options.window, a.links⟩ := by
      rw [Options.searchPlan?, hroot]
      rfl
    rw [plansFor, List.filterMap_cons_some hplan, List.map_cons, List.map_cons]
    exact congrArg _ (ih hjobs)

/-! ## Accepted configurations -/

/-- **What a configuration is good for**: one payload, a gate for each group, a directory for each job, and in
production nothing for development. -/
structure Runnable (c : Config) : Prop where
  /-- Exactly one payload is named. -/
  named : c.settings.Named
  /-- It is the one that is analyzed, and the time to stop waiting can be told. -/
  options : ∃ o, c.settings.options = .ok o ∧ o.selector.matchId = c.settings.matchId ∧ ∃ stop, o.stopAt = .ok stop
  /-- There is one gate for each test group. -/
  checkers : List.Forall₂ c.settings.GateFor c.settings.testGroups c.settings.checkers
  /-- There is a gate. -/
  checkers_ne_nil : c.settings.checkers ≠ []
  /-- Each job that is selected for a pull request, of any catalog, has a directory. -/
  rooted : c.settings.invocation ≠ none → ∀ o, c.settings.options = .ok o → ∀ jobs, ∀ job ∈ c.settings.selected jobs,
    (o.selector.root? job.name).isSome = true
  /-- None of them is left out of the search. -/
  searched : c.settings.invocation ≠ none → ∀ a : Analysis, c.settings.options = .ok a.options → ∀ jobs,
    (a.plansFor (c.settings.selected jobs)).map (·.job) = (c.settings.selected jobs).map (·.name)
  /-- The timeout is at most four hours and 35 minutes. -/
  timeout_le : c.settings.timeout ≤ 4 * 3600 + 35 * 60
  /-- At least one job is searched at a time. -/
  maxJobs_pos : 1 ≤ c.settings.maxJobs
  /-- In production the addresses and keys are none for development. -/
  production : c.environment = .production →
    c.databaseUrl ≠ developmentDatabase ∧ c.storage.accessKey ≠ Config.developmentKey
      ∧ c.storage.secretKey ≠ Config.developmentKey

/-- When there are no `leftovers`, none of the values for development is left. -/
theorem Config.ne_development_of_leftovers (h : c.leftovers = []) :
    c.databaseUrl ≠ developmentDatabase ∧ c.storage.accessKey ≠ developmentKey
      ∧ c.storage.secretKey ≠ developmentKey := by
  obtain ⟨hdatabase, hkeys⟩ := List.append_eq_nil_iff.1 h
  refine ⟨fun heq => ?_, ?_⟩
  · rw [if_pos heq] at hdatabase
    exact absurd hdatabase (by simp)
  · refine not_or.1 fun hor => ?_
    rw [if_pos hor] at hkeys
    exact absurd hkeys (by simp)

/-- **Every accepted configuration is runnable**, whatever variables state it: `Config.load vars now = .ok c` gives
`Runnable c`. -/
theorem runnable_of_load (h : Config.load vars now = .ok c) : Runnable c := by
  obtain ⟨hsettings, hcheck, hproduction⟩ := Config.settingsOf_of_load h
  have hobeys := Settings.obeys_of_check hcheck
  have hnamed := Settings.named_of_settingsOf hsettings hobeys
  have hcheckers := Settings.forall₂_checkers hobeys
  obtain ⟨o, ho, hmatch, hselector, htimeout⟩ := hnamed.options_eq
  have hrooted : c.settings.invocation ≠ none → ∀ jobs, ∀ job ∈ c.settings.selected jobs,
      (o.selector.root? job.name).isSome = true := by
    intro hinvocation jobs job hjob
    obtain ⟨id, hid⟩ := Option.ne_none_iff_exists'.1 hinvocation
    rw [hselector id hid]
    exact Settings.isSome_root?_of_selected (hobeys.prefixes_ne_nil hinvocation) hjob
  refine ⟨hnamed, ⟨o, ho, hmatch, ?_⟩, hcheckers, ?_, ?_, ?_, hobeys.timeout_le, hobeys.maxJobs_pos,
    fun hp => Config.ne_development_of_leftovers (hproduction hp)⟩
  · -- the timeout fits into a span
    have hspan : o.timeout - o.margin ≤ longestSpan := by
      have hlimit := hobeys.timeout_le
      rw [← htimeout] at hlimit
      exact le_trans (Nat.sub_le _ _) (le_trans hlimit (by decide))
    exact ⟨_, by rw [Options.stopAt, if_pos hspan]⟩
  · intro hnil
    rw [hnil] at hcheckers
    exact hobeys.testGroups_ne_nil (List.forall₂_nil_right_iff.1 hcheckers)
  · intro hinvocation o' ho'
    obtain rfl := Except.ok.inj (ho.symm.trans ho')
    exact hrooted hinvocation
  · intro hinvocation a ha jobs
    obtain rfl := Except.ok.inj (ho.symm.trans ha)
    exact Analysis.map_job_plansFor (hrooted hinvocation jobs)

/-- Variables for a pull request in production, with blanks around its name and a test group that is listed twice. -/
def productionVariables : Variables := fun name =>
  if name = "RUST_ENV" then some "Production"
  else if name = "DATABASE_URL" then some "postgres://warehouse"
  else if name = "S3_ACCESS_KEY" then some "key"
  else if name = "S3_SECRET_KEY" then some "secret"
  else if name = "JRA_PAYLOAD_INVOCATION_ID" then some " pr-1 "
  else if name = "JRA_EXPLICIT_GCS_PREFIXES" then some "a=logs/x,b=logs/y/"
  else if name = "JRA_TEST_GROUPS" then some "install, install"
  else none

/-- `productionVariables` are accepted, and lead to two gates, as they list a group twice. -/
theorem runnable_of_load_production :
    ∃ c, Config.load productionVariables ⟨0, 0⟩ = .ok c ∧ Runnable c ∧ c.environment = .production
      ∧ c.settings.invocation = some "pr-1" ∧ c.settings.checkers.length = 2 := by
  have hload : (Config.load productionVariables ⟨0, 0⟩).toOption.map
      (fun c => (c.environment, c.settings.invocation, c.settings.checkers.length))
      = some (.production, some "pr-1", 2) := by
    decide +kernel
  cases hc : Config.load productionVariables ⟨0, 0⟩ with
  | error f =>
    rw [hc] at hload
    exact absurd hload (by simp [Except.toOption])
  | ok c =>
    rw [hc] at hload
    obtain ⟨henvironment, hrest⟩ := Prod.mk.inj (Option.some.inj hload)
    obtain ⟨hinvocation, hlength⟩ := Prod.mk.inj hrest
    exact ⟨c, rfl, runnable_of_load hc, henvironment, hinvocation, hlength⟩

end PayloadGate
