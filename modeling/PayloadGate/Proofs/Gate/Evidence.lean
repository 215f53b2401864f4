import PayloadGate.Gate.Evidence
import PayloadGate.Proofs.Yaml.Scalar

/-! # Reading evidence off its document

* **`Evidence.splitsOff_referenceItem`**, **`Evidence.splitsOff_referenceList`** — a reference, and a list of them, can
  be read off the text that they stand in.
* **`Evidence.yaml_injective`** — all that the evidence says can be read off `e.yaml`. -/

namespace PayloadGate

open Yaml (SplitsOff Unindented scalar splitsOff_scalar)

/-- Whether a longer text starts a line of a block is told by its first `n` characters. -/
theorem unindented_append {n : Nat} {front : List Char} (h : Unindented (n + 1) front) (hn : n < front.length)
    (rest : List Char) : Unindented (n + 1) (front ++ rest) := by
  refine ⟨?_, fun hprefix => h.not_prefix ?_⟩
  · rw [List.head?_append_of_ne_nil _ (List.ne_nil_of_length_pos (by omega)), h.head]
  · have hlength : (Yaml.spaces (n + 1)).length ≤ front.length := by
      rw [Yaml.spaces, List.length_replicate]
      exact hn
    exact List.prefix_of_prefix_length_le hprefix (List.prefix_append _ _) hlength

namespace Evidence

/-- An item with what follows it, part by part: each name of a field, then its `scalar`. -/
theorem referenceItem_append (q : RunReference) (r : List Char) :
    referenceItem q ++ r = "- jobrunid: ".toList ++ (scalar 4 q.runId ++ ("  humanurl: ".toList ++ (scalar 4 q.humanUrl
      ++ ("  gcsartifacturl: ".toList ++ (scalar 4 q.artifactUrl ++ r))))) := by
  have heq : referenceItem q = "- jobrunid: ".toList ++ scalar 4 q.runId ++ "  humanurl: ".toList ++ scalar 4 q.humanUrl
    ++ "  gcsartifacturl: ".toList ++ scalar 4 q.artifactUrl := rfl
  rw [heq]
  simp only [List.append_assoc]

/-- **A reference can be read off its item**: each `scalar` splits off, as the name of the next field is `Unindented
4`. -/
theorem splitsOff_referenceItem : SplitsOff referenceItem (Unindented 4) := by
  have hhuman : ∀ rest, Unindented 4 ("  humanurl: ".toList ++ rest) :=
    unindented_append ⟨by decide, by decide⟩ (by decide)
  have hartifact : ∀ rest, Unindented 4 ("  gcsartifacturl: ".toList ++ rest) :=
    unindented_append ⟨by decide, by decide⟩ (by decide)
  rintro ⟨id, human, artifact⟩ ⟨id', human', artifact'⟩ r s hr hs h
  rw [referenceItem_append, referenceItem_append] at h
  obtain ⟨hid, hurls⟩ := splitsOff_scalar 4 (hhuman _) (hhuman _) (List.append_cancel_left h)
  obtain ⟨hurl, hlast⟩ := splitsOff_scalar 4 (hartifact _) (hartifact _) (List.append_cancel_left hurls)
  obtain ⟨hartifacts, hrest⟩ := splitsOff_scalar 4 hr hs (List.append_cancel_left hlast)
  exact ⟨(RunReference.mk.injEq ..).mpr ⟨hid, hurl, hartifacts⟩, hrest⟩

/-- What is no further item of a list of references. -/
structure EndsList (r : List Char) : Prop where
  /-- It does not go on with the item before it. -/
  unindented : Unindented 4 r
  /-- It starts no item. -/
  head_ne : r.head? ≠ some '-'

/-- **References can be read off their list**, before what is no further item of it: `EndsList r`. -/
theorem splitsOff_referenceList (name : String) : SplitsOff (referenceList name) EndsList := by
  have hitem : ∀ (q : RunReference) (rest : List Char), Unindented 4 (referenceItem q ++ rest) := by
    intro q rest
    rw [referenceItem_append]
    exact unindented_append ⟨by decide, by decide⟩ (by decide) _
  have hne : ∀ (q : RunReference) (rest : List Char), ¬ EndsList (referenceItem q ++ rest) := by
    intro q rest hr
    rw [referenceItem_append] at hr
    exact hr.head_ne rfl
  have hitems : SplitsOff (List.flatMap referenceItem) EndsList :=
    splitsOff_referenceItem.flatMap hitem (fun _ hr => hr.unindented) hne
  intro qs qs' r s hr hs h
  -- an empty list is written in brackets behind its name, so it is told from a list with items at once
  cases qs with
  | nil =>
    cases qs' with
    | nil => exact ⟨rfl, List.append_cancel_left h⟩
    | cons q' qs' => simp [referenceList] at h
  | cons q qs =>
    cases qs' with
    | nil => simp [referenceList] at h
    | cons q' qs' =>
      simp only [referenceList, List.isEmpty_cons, Bool.false_eq_true, if_false, List.append_assoc,
        List.append_cancel_left_eq] at h
      exact hitems hr hs h

/-- A list starts with its name, whether it has items or not. -/
theorem exists_referenceList_append (name : String) (qs : List RunReference) (r : List Char) :
    ∃ rest, referenceList name qs ++ r = name.toList ++ rest := by
  unfold referenceList
  split_ifs
  · exact ⟨_, by rw [List.append_assoc]⟩
  · exact ⟨_, by rw [List.append_assoc, List.append_assoc]⟩

/-- **All that the evidence says can be read off its document**: the test and its suites, the line of counts, and the
references of each list in their order. -/
theorem yaml_injective : Function.Injective yaml := by
  -- what follows a scalar or a list is indented by less, and starts with the name of the next member
  have hsuite : ∀ rest, Unindented 2 ("testsuitename".toList ++ rest) :=
    unindented_append ⟨by decide, by decide⟩ (by decide)
  have hsummary : ∀ rest, Unindented 2 ("summary".toList ++ rest) :=
    unindented_append ⟨by decide, by decide⟩ (by decide)
  have hpasses : ∀ qs r, Unindented 2 (referenceList "passes" qs ++ r) := by
    intro qs r
    obtain ⟨rest, heq⟩ := exists_referenceList_append "passes" qs r
    rw [heq]
    exact unindented_append ⟨by decide, by decide⟩ (by decide) _
  have hfailures : ∀ qs r, EndsList (referenceList "failures" qs ++ r) := by
    intro qs r
    obtain ⟨rest, heq⟩ := exists_referenceList_append "failures" qs r
    rw [heq]
    exact ⟨unindented_append ⟨by decide, by decide⟩ (by decide) _, by simp⟩
  have hskips : ∀ qs, EndsList (referenceList "skips" qs) := by
    intro qs
    obtain ⟨rest, heq⟩ := exists_referenceList_append "skips" qs []
    rw [List.append_nil] at heq
    rw [heq]
    exact ⟨unindented_append ⟨by decide, by decide⟩ (by decide) _, by simp⟩
  have hend : EndsList [] := ⟨⟨by decide, by decide⟩, by decide⟩
  rintro ⟨test, suite, summary, passes, failures, skips⟩ ⟨test', suite', summary', passes', failures', skips'⟩ h
  -- member by member, each one splits off the document in front of the rest
  have hdocument := String.ofList_inj.1 h
  simp only [member, List.append_assoc] at hdocument
  obtain ⟨rfl, hmembers⟩ := splitsOff_scalar 2 (hsuite _) (hsuite _)
    (List.append_cancel_left (List.append_cancel_left hdocument))
  obtain ⟨rfl, hcounts⟩ := splitsOff_scalar 2 (hsummary _) (hsummary _)
    (List.append_cancel_left (List.append_cancel_left hmembers))
  obtain ⟨rfl, hlists⟩ := splitsOff_scalar 2 (hpasses _ _) (hpasses _ _)
    (List.append_cancel_left (List.append_cancel_left hcounts))
  obtain ⟨rfl, hothers⟩ := splitsOff_referenceList "passes" (hfailures _ _) (hfailures _ _) hlists
  obtain ⟨rfl, hlast⟩ := splitsOff_referenceList "failures" (hskips _) (hskips _) hothers
  rw [← List.append_nil (referenceList "skips" skips), ← List.append_nil (referenceList "skips" skips')] at hlast
  obtain ⟨rfl, -⟩ := splitsOff_referenceList "skips" hend hend hlast
  rfl

end Evidence

end PayloadGate
