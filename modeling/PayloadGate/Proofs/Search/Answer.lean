import PayloadGate.Proofs.Search.Underway
import PayloadGate.Proofs.Walk.Run

/-! # What a search answers

In a store that does not change a search answers what it would answer if it first walked to the end
and then resolved one run after the other. Nothing else depends on how the store cuts its pages, on
how long it takes for them, and on how the steps of the walker and of the reader follow each other.

* **`Walk.run?_of_le`** — a walk that has come to its end stays there.
* **`inevitably_result?_eq_reference`** — whatever happens, a search comes to the answer. -/

namespace PayloadGate

open Walk (Walker passFrom)

/-- A walk that has come to its end within `steps` does so within any number of `more`. -/
theorem Walk.run?_of_le {σ : Type}
    {ask : ListQuery → Option String → σ → Except Failure ObjectPage × σ} {w : Walker} {s : σ}
    {result : Walker × σ} {steps more : Nat} (h : w.run? ask steps s = some result)
    (hle : steps ≤ more) : w.run? ask more s = some result := by
  -- by induction on the steps that were enough; once it has ended the walker stays as it is
  induction steps generalizing w s more with
  | zero => exact absurd h (by simp [Walker.run?])
  | succ steps ih =>
    obtain ⟨more, rfl⟩ := Nat.exists_eq_add_of_le' (Nat.le_of_add_left_le hle)
    rw [Walker.run?] at h ⊢
    cases hs : w.stage with
    | ended failure =>
      rw [hs] at h
      exact h
    | offering id c =>
      rw [hs] at h
      exact ih h (by omega)
    | listing c =>
      rw [hs] at h
      exact ih h (by omega)

variable {store : Snapshot} {plan : SearchPlan} {seed : Option String} {now : Time.Instant}

/-- **A search whose catalog has answered is `Underway`**, for the number of steps that its walk takes. -/
theorem underway_seeded {out : List String × Option Failure}
    (h : passFrom store (plan.route now) seed = out) :
    ∃ n, Underway store plan (seed.map (plan.route now).offset) out
      ⟨⟨plan, false, .scanning ⟨.start (plan.route now) seed, [], none, []⟩⟩, [], []⟩ n := by
  have hstanding := Walk.standing_start store (plan.route now) seed []
  rw [show Walk.pass _ _ _ = out from h] at hstanding
  refine ⟨_, .intro rfl rfl rfl hstanding ?_ (Nat.zero_le _) (.idle rfl (gone_nil store plan out.1))⟩
  intro c hc ht
  obtain rfl := Option.some.inj hc
  exact absurd rfl ht

/-- A walk that has ended without a failure has found what the pass finds: `passFrom` has the ids that `w` has
emitted. -/
theorem passFrom_eq_of_run? {σ : Type}
    {ask : ListQuery → Option String → σ → Except Failure ObjectPage × σ} {route : Walk.Route}
    (hserve : ∀ start, store.Serves ask (route.listing start)) {steps : Nat} {s s' : σ} {w : Walker}
    (hwalk : (Walker.start route seed).run? ask steps s = some (w, s'))
    (hended : w.stage = .ended none) :
    passFrom store route seed = (w.emitted.reverse, none) := by
  obtain ⟨enough, henough⟩ := Walk.ends_start route seed hserve s
  -- both walks come to the same end with as many steps as either needs
  obtain ⟨w', t, hrun, hids, hended'⟩ := henough (max enough steps) (le_max_left _ _)
  rw [Walk.run?_of_le hwalk (le_max_right _ _)] at hrun
  obtain ⟨rfl, rfl⟩ := Prod.mk.inj (Option.some.inj hrun)
  refine Prod.ext hids.symm ?_
  exact Walk.Stage.ended.inj (hended'.symm.trans hended)

/-- **A search answers what the runs that the walk finds settle one after the other**, when the
store does not change and the whole walk ends without a failure. It comes to its answer whatever the
order of the steps, the room in the queue and the pages of the listings are. -/
theorem inevitably_result?_eq_reference {σ : Type} (store : Snapshot) (plan : SearchPlan)
    (seed : Option String) (now : Time.Instant)
    (ask : ListQuery → Option String → σ → Except Failure ObjectPage × σ)
    (hserve : ∀ start, store.Serves ask ((plan.route now).listing start)) {steps : Nat} {s s' : σ}
    {w : Walker} (hwalk : (Walker.start (plan.route now) seed).run? ask steps s = some (w, s'))
    (hended : w.stage = .ended none) :
    Inevitably (Session.Step store seed now)
      (fun x => x.search.result? = some (reference store plan w.emitted.reverse))
        (Session.start plan) := by
  obtain ⟨n, hunderway⟩ := underway_seeded (passFrom_eq_of_run? hserve hwalk hended)
  -- the first event is the answer of the catalog, and no other one is possible
  refine .later ⟨_, .seed (step_of_moves (.seeded rfl))⟩ fun x' hstep => ?_
  cases hstep with
  | seed hmove =>
    cases moves_of_step hmove with
    | seeded hs =>
      exact inevitably_of_rank wellFounded_below Session.rank (fun _ _ h => exists_step seed now h)
        (fun _ _ _ h hnext => underway_step h hnext) hunderway
  | walkerPage hs => exact absurd hs (by simp [Session.start, Search.start])
  | readerPage hs => exact absurd hs (by simp [Session.start, Search.start])
  | readerObject hs => exact absurd hs (by simp [Session.start, Search.start])
  | @own e s he hmove =>
    obtain ⟨scan, hs⟩ := exists_scanning_of_step hmove
      (by rintro rfl; exact absurd he (by simp [Session.isOwn]))
      (by rintro reply now rfl; exact absurd he (by simp [Session.isOwn]))
    exact absurd hs (by simp [Session.start, Search.start])

/-- The descriptor of a run with the label `tag`, created at a `time` of the first day. -/
def labelledDescriptor (time tag : String) : List UInt8 :=
  ("[[\"run\",\x7b\"release.openshift.io/analysis\":\"" ++ tag ++ "\"\x7d,\"1970-01-01T" ++ time
    ++ "Z\"]]").toUTF8.toList

/-- Three runs: `5` of the payload, `6` of another payload, and `7` behind the window. -/
def threeRuns : Snapshot where
  records := [⟨"job/5/prowjob.json", ⟨90, 0⟩⟩, ⟨"job/6/prowjob.json", ⟨95, 0⟩⟩,
    ⟨"job/7/prowjob.json", ⟨96, 0⟩⟩]
  ascending := by decide
  content key := .ok (if key = "job/5/prowjob.json" then labelledDescriptor "00:01:30" "4.11"
    else if key = "job/6/prowjob.json" then labelledDescriptor "00:01:30" "4.10"
    else labelledDescriptor "00:02:30" "4.11")

/-- A search for the runs of the payload `4.11`, in a window of half a minute. -/
def payloadPlan : SearchPlan :=
  ⟨"job", "job", .payloadTag "4.11", ⟨80, 0⟩, ⟨10000000000, 20000000000⟩,
    ⟨"bucket", "human", "artifacts"⟩⟩

/-- The search comes to the run `5` of the payload, and to no other. -/
theorem inevitably_result?_threeRuns :
    Inevitably (Session.Step threeRuns none ⟨100, 0⟩)
        (fun x => x.search.result? = some (reference threeRuns payloadPlan ["5", "6", "7"]))
          (Session.start payloadPlan)
      ∧ (reference threeRuns payloadPlan ["5", "6", "7"]).toOption.map
        (fun runs => runs.map JobRun.runId)
        = some ["5"] := by
  have hwalk : (Walker.start (payloadPlan.route ⟨100, 0⟩) none).run? threeRuns.onePage 8 ()
      = some (⟨payloadPlan.route ⟨100, 0⟩, some "job/8", ["7", "6", "5"], .ended none⟩, ()) := by
    decide +kernel
  exact ⟨inevitably_result?_eq_reference threeRuns payloadPlan none ⟨100, 0⟩ threeRuns.onePage
    (fun start => threeRuns.serves_onePage ((payloadPlan.route ⟨100, 0⟩).listing start)) hwalk rfl,
    by decide +kernel⟩

end PayloadGate
