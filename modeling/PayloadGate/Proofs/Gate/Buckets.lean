import PayloadGate.Proofs.Decimal.Order
import PayloadGate.Proofs.Gate.Evidence
import PayloadGate.Proofs.Gate.Report

/-! # What a gate records

* **`Junit.decidingTree?`**, **`Checker.FiledUnder`** — the first tree of a run that decides, and the bucket of the run.
* **`Checker.perm_buckets`** — every run is in one bucket.
* **`summaryLine_eq_iff`**, **`shortfall_eq_iff`** — the numbers of the summary and of the failure can be read off their
  texts.
* **`Records`**, **`records_evidence`** — what a checker records of a list of runs, and that it can be read off
  its text. -/

namespace PayloadGate

open Decimal (Binary64)
open Junit (Suite TestCase TestId Verdict verdict verdictOfForest)

/-! ## The bucket of a run -/

namespace Junit

/-- **The first of several trees that decides** on the test `t`. -/
def decidingTree? (t : TestId) (forest : List Suite) : Option Suite :=
  forest.find? fun s => (verdict t s).isDecided

/-- The verdict of several trees is that of the first one that decides, and `.skipped` when none does. -/
theorem verdictOfForest_eq (t : TestId) (forest : List Suite) :
    verdictOfForest t forest = ((decidingTree? t forest).map (verdict t)).getD .skipped := by
  rw [verdictOfForest, Verdict.firstDecided, List.find?_map]
  rfl

end Junit

open Junit (decidingTree? verdictOfForest_eq)

namespace Checker

variable {c : Checker} {r : JudgedRun} {v : Verdict}

/-- **The bucket of the run `r`**: that of the verdict of its first tree that decides, and that of the skips when none
decides. -/
def FiledUnder (c : Checker) (r : JudgedRun) : Verdict → Prop
  | .passed => ∃ s, decidingTree? c.test r.forest = some s ∧ verdict c.test s = .passed
  | .failed => ∃ s, decidingTree? c.test r.forest = some s ∧ verdict c.test s = .failed
  | .skipped => decidingTree? c.test r.forest = none

/-- `c.FiledUnder r v ↔ c.verdictOn r = v`: the bucket of a run is that of its verdict. -/
theorem filedUnder_iff : c.FiledUnder r v ↔ c.verdictOn r = v := by
  rw [verdictOn, verdictOfForest_eq]
  cases h : decidingTree? c.test r.forest with
  | none => cases v <;> simp [FiledUnder, h]
  | some s =>
    have hdecided : (verdict c.test s).isDecided = true :=
      List.find?_some (p := fun s => (verdict c.test s).isDecided) h
    cases v with
    | passed => simp [FiledUnder, h]
    | failed => simp [FiledUnder, h]
    | skipped =>
      rw [FiledUnder, h, Option.map_some, Option.getD_some]
      refine iff_of_false (by simp) fun hskipped => ?_
      rw [hskipped] at hdecided
      exact absurd hdecided (by decide)

instance (c : Checker) (v : Verdict) : DecidablePred (c.FiledUnder · v) :=
  fun _ => decidable_of_iff _ filedUnder_iff.symm

/-- The references of the bucket `v` are those of the runs that are filed there. -/
theorem bucket_eq (c : Checker) (v : Verdict) (runs : List JudgedRun) :
    c.bucket v runs = (runs.filter fun r => c.FiledUnder r v).map (·.run.reference) := by
  rw [bucket]
  refine congrArg _ (List.filter_congr fun r _ => ?_)
  rw [Bool.eq_iff_iff, beq_iff_eq, decide_eq_true_iff, filedUnder_iff]

/-- **Every run is in one bucket**: the three buckets, one behind the other, are a permutation of `runs`. -/
theorem perm_buckets (c : Checker) (runs : List JudgedRun) :
    (c.bucket .passed runs ++ c.bucket .failed runs ++ c.bucket .skipped runs).Perm
      (runs.map (·.run.reference)) := by
  induction runs with
  | nil => exact .refl _
  | cons r runs ih =>
    rw [List.map_cons]
    refine .trans ?_ (ih.cons _)
    cases h : c.verdictOn r with
    | passed => simp [bucket, h]
    | failed => simp [bucket, h]
    | skipped => simp [bucket, h, -List.append_assoc]

end Checker

/-! ## Numbers in texts -/

/-- The line of counts, as it states four numbers. -/
def summaryLine (total passes failures skips : Nat) : String :=
  "Total job runs: " ++ Decimal.text total ++ ", passes: " ++ Decimal.text passes
    ++ ", failures: " ++ Decimal.text failures ++ ", skips " ++ Decimal.text skips

/-- The message of a failed gate, as it states two numbers. -/
def shortfall (required passes : Nat) : String :=
  "required minimum successful count " ++ Decimal.text required ++ ", got " ++ Decimal.text passes

/-- **The counts can be read off their line**: no other four numbers make the same line. -/
theorem summaryLine_eq_iff {total passes failures skips total' passes' failures' skips' : Nat} :
    summaryLine total passes failures skips = summaryLine total' passes' failures' skips' ↔
      total' = total ∧ passes' = passes ∧ failures' = failures ∧ skips' = skips := by
  constructor
  · intro h
    unfold summaryLine at h
    have hline := congrArg String.toList h
    simp only [String.toList_append, List.append_assoc, List.append_cancel_left_eq] at hline
    -- the number ends where the text that follows begins with no digit
    obtain ⟨htotal, hpasses⟩ := Decimal.text_append_inj (by simp) (by simp) hline
    rw [List.append_cancel_left_eq] at hpasses
    obtain ⟨hpasses, hfailures⟩ := Decimal.text_append_inj (by simp) (by simp) hpasses
    rw [List.append_cancel_left_eq] at hfailures
    obtain ⟨hfailures, hskips⟩ := Decimal.text_append_inj (by simp) (by simp) hfailures
    rw [List.append_cancel_left_eq] at hskips
    exact ⟨htotal.symm, hpasses.symm, hfailures.symm, (Decimal.text_inj (String.toList_inj.1 hskips)).symm⟩
  · rintro ⟨rfl, rfl, rfl, rfl⟩
    rfl

/-- **The numbers can be read off the message**: no other two numbers make the same one. -/
theorem shortfall_eq_iff {required passes required' passes' : Nat} :
    shortfall required passes = shortfall required' passes' ↔ required' = required ∧ passes' = passes := by
  constructor
  · intro h
    unfold shortfall at h
    have hline := congrArg String.toList h
    simp only [String.toList_append, List.append_assoc, List.append_cancel_left_eq] at hline
    obtain ⟨hrequired, hpasses⟩ := Decimal.text_append_inj (by simp) (by simp) hline
    rw [List.append_cancel_left_eq] at hpasses
    exact ⟨hrequired.symm, (Decimal.text_inj (String.toList_inj.1 hpasses)).symm⟩
  · rintro ⟨rfl, rfl⟩
    rfl

/-! ## Records -/

/-- **What a checker records of a list of runs**: the evidence `e`, in the case `synthetic` that fails when there are
too few passes, whatever seconds it `took`. -/
structure Records (c : Checker) (took : Binary64) (runs : List JudgedRun) (e : Evidence) (synthetic : TestCase) :
    Prop where
  /-- The suite of the checker holds this case alone. -/
  allCases_eq : (c.check took runs).allCases = [synthetic]
  /-- The case prints the evidence. -/
  systemOut_eq : synthetic.systemOut = e.yaml
  /-- No other evidence is printed so: the summary and all references can be read off what the case prints. -/
  readOff : ∀ e' : Evidence, e'.yaml = synthetic.systemOut → e' = e
  /-- The passes are the runs whose first decided verdict is a pass, in their order. -/
  passes_eq : e.passes = (runs.filter fun r => c.FiledUnder r .passed).map (·.run.reference)
  /-- The failures are those whose first decided verdict is a failure. -/
  failures_eq : e.failures = (runs.filter fun r => c.FiledUnder r .failed).map (·.run.reference)
  /-- The skips are those without a decided verdict. -/
  skips_eq : e.skips = (runs.filter fun r => c.FiledUnder r .skipped).map (·.run.reference)
  /-- A run is in one of the three only. -/
  unique : ∀ r ∈ runs, ∃! v, c.FiledUnder r v
  /-- All runs are in them. -/
  perm : (e.passes ++ e.failures ++ e.skips).Perm (runs.map (·.run.reference))
  /-- The summary states the number of runs and those of the passes, failures and skips, and no other numbers. -/
  summary_iff : ∀ total passes failures skips, e.summary = summaryLine total passes failures skips ↔
    total = runs.length ∧ passes = e.passes.length ∧ failures = e.failures.length ∧ skips = e.skips.length
  /-- The total is the sum of the others. -/
  length_eq : runs.length = e.passes.length + e.failures.length + e.skips.length
  /-- The case fails when there are less passes than required. -/
  failure_iff : synthetic.failure.isSome = true ↔ e.passes.length < c.required
  /-- The message names the number that is required and that of the passes, and no other numbers. -/
  message_iff : ∀ note, synthetic.failure = some note → ∀ required passes,
    note.message = shortfall required passes ↔ required = c.required ∧ passes = e.passes.length

end PayloadGate
