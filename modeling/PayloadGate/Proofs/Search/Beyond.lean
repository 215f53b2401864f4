import PayloadGate.Proofs.Run.Directory
import PayloadGate.Proofs.Search.Pace
import PayloadGate.Proofs.Walk.Pass

/-! # What lies behind the stop of a search

A search that stops at a run needs nothing of what lies behind the directory of that run. It stops there in every store
that agrees up to the directory, with the same runs. That is not enough for the same answer: the walker goes on while
the reader is at the stop, and what it meets behind can take the place of the runs.

* **`AgreeUpTo.walks_alike`** — walks that find the same ids up to the stop, which resolve to the same.
* **`StopsAt.of_agreeUpTo`** — a search that stops does so in every store that agrees up to the stop.
* **`canAnswer_same_iff_no_overrun`** — what can be answered in stores that differ behind the stop alone, and
  when it is the same.
* **`answers_differ_lateRun`** — a search whose answer depends on what lies behind the stop. -/

namespace PayloadGate

open Walk (passFrom)

variable {store store' : Snapshot} {plan : SearchPlan} {seed : Option String} {now : Time.Instant}
  {earlier later : List String} {id : String} {found : List JobRun}

/-- A run resolves to the same in stores that agree up to a `directory`, when the keys of its own directory do not lie
behind. -/
theorem AgreeUpTo.resolve_eq {directory : String} (h : AgreeUpTo directory store store') {place : RunPlace}
    (hplace : ∀ key : String, place.directory.toList <+: key.toList → UpTo directory key) :
    store.resolve place = store'.resolve place :=
  Snapshot.resolve_congr (fun r hr => h.records r (hplace r.key hr)) fun key hkey => h.content key (hplace key hkey)

/-- **Walks in stores that agree up to the directory of an id** find the same ids `earlier` up to it, and these resolve
to the same, as `id` itself does. -/
theorem AgreeUpTo.walks_alike (h : AgreeUpTo (plan.place id).directory store store')
    (hids : (passFrom store (plan.route now) seed).1 = earlier ++ id :: later) :
    (∃ later', (passFrom store' (plan.route now) seed).1 = earlier ++ id :: later')
      ∧ store.resolve (plan.place id) = store'.resolve (plan.place id)
      ∧ ∀ i ∈ earlier, store.resolve (plan.place i) = store'.resolve (plan.place i) := by
  obtain ⟨before, r, after, hlisting, hr, hearlier, cursor, hpass⟩ := Walk.exists_of_pass_eq (Prod.ext hids rfl)
  have hid := Walk.splitKey?_of_candidate hr
  -- the descriptor of the id is the last object that counts, and the stores agree up to it
  have hrkey : r.key = (plan.place id).directory ++ descriptorName := Walk.key_eq_of_splitKey? hid
  obtain ⟨after', hlisting'⟩ := Snapshot.exists_listing_eq hlisting fun x hx =>
    h.records x (upTo_of_le (hx.trans hrkey.le))
  refine ⟨⟨(Walk.pass (plan.route now) cursor after').1, ?_⟩, h.resolve_eq fun key hkey => .inl hkey, fun i hi => ?_⟩
  · rw [passFrom, hlisting', hpass]
  · obtain ⟨y, hy, hcy⟩ := hearlier i hi
    have hasc := store.ascending_listing ((plan.route now).listing (seed.map (plan.route now).offset))
    rw [hlisting] at hasc
    have hlt : y.key < r.key := (List.pairwise_append.1 hasc).2.2 y hy r List.mem_cons_self
    exact h.resolve_eq fun key hkey => upTo_of_lt (Walk.splitKey?_of_candidate hcy) hid hlt hkey

/-- **A search that stops does so in every store that agrees up to the stop**, with the same runs `found`; only `later`
may be other ids. -/
theorem StopsAt.of_agreeUpTo (h : StopsAt store plan (passFrom store (plan.route now) seed).1 id found later)
    (hagree : AgreeUpTo (plan.place id).directory store store') :
    ∃ later', StopsAt store' plan (passFrom store' (plan.route now) seed).1 id found later' := by
  obtain ⟨earlier, hids, hall, hsettle⟩ := h.gone
  obtain ⟨⟨later', hids'⟩, hid, hearlier⟩ := hagree.walks_alike hids
  have hsettle' : ∀ rest, settleAll store' plan earlier rest = settleAll store plan earlier rest := by
    intro rest
    exact List.foldr_ext _ _ _ fun i hi _ => by rw [hearlier i hi]
  refine ⟨later', ⟨earlier, hids', fun i hi => ?_, fun rest => ?_⟩, ?_⟩
  · rw [← hearlier i hi]
    exact hall i hi
  · rw [hsettle', hsettle]
  · rw [← hid]
    exact h.late

/-! ## Answers -/

/-- **What lies behind the stop of a search does not change the runs that it finds**: in stores that agree up to the
stop it stops there with the same runs, comes to an end, and can answer them. It gives the same answer in both, whatever
the order of the steps, exactly when in neither of them the walker can meet a failure behind the stop before the reader
has come to it. -/
theorem canAnswer_same_iff_no_overrun (h : StopsAt store plan (passFrom store (plan.route now) seed).1 id found later)
    (hagree : AgreeUpTo (plan.place id).directory store store') :
    ∃ later', StopsAt store' plan (passFrom store' (plan.route now) seed).1 id found later'
      ∧ (∀ s ∈ [store, store'], Inevitably (Session.Step s seed now) (fun x => ∃ o, x.search.result? = some o)
        (Session.start plan))
      ∧ (∀ o, CanAnswer store plan seed now o
        ↔ o = .ok found ∨ ∃ f, Overruns store plan seed now later f ∧ o = .error f)
      ∧ (∀ o, CanAnswer store' plan seed now o
        ↔ o = .ok found ∨ ∃ f, Overruns store' plan seed now later' f ∧ o = .error f)
      ∧ ((∀ o o', CanAnswer store plan seed now o → CanAnswer store' plan seed now o' → o = o')
        ↔ (∀ f, ¬ Overruns store plan seed now later f) ∧ ∀ f, ¬ Overruns store' plan seed now later' f) := by
  obtain ⟨later', h'⟩ := h.of_agreeUpTo hagree
  refine ⟨later', h', fun s _ => ?_, fun _ => canAnswer_iff_of_stop h, fun _ => canAnswer_iff_of_stop h', ?_, ?_⟩
  · exact (inevitably_concludes s plan seed now).mono fun x ⟨o, ho, _⟩ => ⟨o, ho⟩
  · -- the runs can be answered in both, so that a failure in one differs from them in the other
    intro hsame
    have hfound := exists_path_of_stop h
    have hfound' := exists_path_of_stop h'
    refine ⟨fun f hf => ?_, fun f hf => ?_⟩
    · exact absurd (hsame _ _ (exists_path_of_overrun h hf.1 hf.2) hfound') (by simp)
    · exact absurd (hsame _ _ hfound (exists_path_of_overrun h' hf.1 hf.2)) (by simp)
  · rintro ⟨hsafe, hsafe'⟩ o o' ho ho'
    rcases (canAnswer_iff_of_stop h).1 ho with rfl | ⟨f, hf, -⟩
    · rcases (canAnswer_iff_of_stop h').1 ho' with rfl | ⟨f, hf, -⟩
      · rfl
      · exact absurd hf (hsafe' f)
    · exact absurd hf (hsafe f)

/-- A run `5` behind the window, in a store of its own. -/
def lateRun : Snapshot where
  records := [⟨"job/5/prowjob.json", ⟨96, 0⟩⟩]
  ascending := by decide
  content _ := .ok (labelledDescriptor "00:02:30" "4.11")

/-- The same run, and a directory `x` behind it whose name is not a number. -/
def lateRunAndStray : Snapshot where
  records := [⟨"job/5/prowjob.json", ⟨96, 0⟩⟩, ⟨"job/x/prowjob.json", ⟨96, 0⟩⟩]
  ascending := by decide
  content _ := .ok (labelledDescriptor "00:02:30" "4.11")

/-- The search stops at the run `5` and finds no runs. -/
theorem stopsAt_lateRun :
    StopsAt lateRun payloadPlan (passFrom lateRun (payloadPlan.route ⟨100, 0⟩) none).1 "5" [] [] := by
  have hids : (passFrom lateRun (payloadPlan.route ⟨100, 0⟩) none).1 = ["5"] := by decide +kernel
  have hlate : ((lateRun.resolve (payloadPlan.place "5")).toOption.join.any fun run =>
      decide (payloadPlan.windowEnd < run.descriptor.created)) = true := by decide +kernel
  rw [hids]
  refine ⟨gone_nil _ _ _, ?_⟩
  cases hrun : lateRun.resolve (payloadPlan.place "5") with
  | error f => exact absurd hlate (by rw [hrun]; exact Bool.false_ne_true)
  | ok run? =>
    cases run? with
    | none => exact absurd hlate (by rw [hrun]; exact Bool.false_ne_true)
    | some run =>
      rw [hrun] at hlate
      exact ⟨run, rfl, of_decide_eq_true hlate⟩

/-- The stores differ behind the directory of the run `5` alone. -/
theorem agreeUpTo_lateRunAndStray : AgreeUpTo (payloadPlan.place "5").directory lateRun lateRunAndStray := by
  refine ⟨fun r hr => ⟨List.mem_append_left [_], fun hmem => ?_⟩, fun _ _ => rfl⟩
  rcases List.mem_cons.1 hmem with rfl | hmem
  · exact List.mem_cons_self
  · obtain rfl := List.mem_singleton.1 hmem
    exact absurd hr (by rw [UpTo]; decide)

/-- The search stops at the run `5` in both stores, and can answer `.ok []` in both. -/
theorem canAnswer_same_iff_no_overrun_lateRun :
    StopsAt lateRun payloadPlan (passFrom lateRun (payloadPlan.route ⟨100, 0⟩) none).1 "5" [] []
      ∧ AgreeUpTo (payloadPlan.place "5").directory lateRun lateRunAndStray
      ∧ ∃ later', StopsAt lateRunAndStray payloadPlan
        (passFrom lateRunAndStray (payloadPlan.route ⟨100, 0⟩) none).1 "5" [] later' := by
  obtain ⟨later', h', -⟩ := canAnswer_same_iff_no_overrun stopsAt_lateRun agreeUpTo_lateRunAndStray
  exact ⟨stopsAt_lateRun, agreeUpTo_lateRunAndStray, later', h'⟩

/-- **The answer depends on what lies behind the stop**: the search stops at a run behind the window and finds no runs,
and with the directory behind it it can answer that the name of the directory is malformed. -/
theorem answers_differ_lateRun :
    StopsAt lateRun payloadPlan (passFrom lateRun (payloadPlan.route ⟨100, 0⟩) none).1 "5" [] []
      ∧ AgreeUpTo (payloadPlan.place "5").directory lateRun lateRunAndStray
      ∧ (∀ o, CanAnswer lateRun payloadPlan none ⟨100, 0⟩ o ↔ o = .ok [])
      ∧ CanAnswer lateRunAndStray payloadPlan none ⟨100, 0⟩ (.error (.invalidRunId "x")) := by
  have hfailure : (passFrom lateRun (payloadPlan.route ⟨100, 0⟩) none).2 = none := by decide +kernel
  have hids : passFrom lateRunAndStray (payloadPlan.route ⟨100, 0⟩) none = (["5"], some (.invalidRunId "x")) := by
    decide +kernel
  obtain ⟨later', h'⟩ := stopsAt_lateRun.of_agreeUpTo agreeUpTo_lateRunAndStray
  -- the bound on what is ahead of the reader follows from `gone`, as the pass sends one id only
  have hlater : later'.length ≤ queueLimit := by
    obtain ⟨earlier, heq, -⟩ := h'.gone
    have hlength := congrArg List.length heq
    simp only [hids, List.length_append, List.length_cons, List.length_nil] at hlength
    rw [queueLimit]
    omega
  refine ⟨stopsAt_lateRun, agreeUpTo_lateRunAndStray, fun o => ?_, exists_path_of_overrun h' (by rw [hids]) hlater⟩
  rw [canAnswer_iff_of_stop stopsAt_lateRun]
  constructor
  · rintro (rfl | ⟨f, ⟨hf, -⟩, -⟩)
    · rfl
    · exact absurd (hfailure.symm.trans hf) (by simp)
  · exact .inl

end PayloadGate
