import PayloadGate.Proofs.Collection.Course
import PayloadGate.Proofs.Retry.Attempts

/-! # What a collection gathers

The outcomes of the attempts are given beforehand, one for each attempt of each worker; the order of the events is
left open. Without the signal a collection then comes to an outcome that depends on the order in which its workers
finish and on nothing else.

* **`RetryPolicy.answer`** — the outcome of a search with its retries.
* **`RetryPolicy.exists_of_answer`**, **`RetryPolicy.outcome_of_play`** — its runs are those of one attempt, and it is
  the outcome of the course of the attempts in time.
* **`Collection.Plays`** — the steps whose outcomes are those of the attempts.
* **`Collection.Gathered`**, **`Collection.inDueCourse_gathered`** — what a collection comes to. -/

namespace PayloadGate

/-! ## The outcome of a search with its retries -/

namespace RetryPolicy

variable {job : String} {attempts : Nat → Outcome} {spare more number : Nat} {o : Outcome}

/-- The outcome of the attempts from the one with the given `number` on, when `spare` failures may follow. The recursion
is on `spare`. -/
def answerFrom (job : String) (attempts : Nat → Outcome) (spare number : Nat) : Outcome :=
  match judge job spare (attempts number), spare with
  | .answer o, _ => o
  -- unreachable: the last attempt is answered
  | .again _, 0 => attempts number
  | .again _, more + 1 => answerFrom job attempts more (number + 1)

/-- **The outcome of a search with its retries**: the first attempt that is an answer, among at most `maxFailures + 1`.
-/
def answer (p : RetryPolicy) (job : String) (attempts : Nat → Outcome) : Outcome :=
  answerFrom job attempts p.maxFailures 0

/-- An attempt that is an answer: `answerFrom` is this answer. -/
theorem answerFrom_of_answer (h : judge job spare (attempts number) = .answer o) :
    answerFrom job attempts spare number = o := by
  unfold answerFrom
  cases spare <;> rw [h]

/-- An attempt behind which another one follows: `answerFrom` goes on at `number + 1`. -/
theorem answerFrom_of_again (h : judge job spare (attempts number) = .again more) :
    answerFrom job attempts spare number = answerFrom job attempts more (number + 1) := by
  obtain rfl := eq_of_judge_eq_again h
  conv_lhs => unfold answerFrom
  rw [h]

/-- When the attempts from `number` on come to `.ok runs`, one of them has just these runs. -/
theorem exists_of_answerFrom {runs : List JobRun} (h : answerFrom job attempts spare number = .ok runs) :
    ∃ n, number ≤ n ∧ attempts n = .ok runs := by
  -- by induction on the attempts to spare: an answer with runs is that of the attempt just made, or of a later one
  induction spare generalizing number with
  | zero =>
    cases hj : judge job 0 (attempts number) with
    | answer o =>
      rw [answerFrom_of_answer hj] at h
      exact ⟨number, Nat.le_refl _, eq_ok_of_judge (h ▸ hj)⟩
    | again more => exact absurd (eq_of_judge_eq_again hj) (by omega)
  | succ spare ih =>
    cases hj : judge job (spare + 1) (attempts number) with
    | answer o =>
      rw [answerFrom_of_answer hj] at h
      exact ⟨number, Nat.le_refl _, eq_ok_of_judge (h ▸ hj)⟩
    | again more =>
      obtain rfl := Nat.succ.inj (eq_of_judge_eq_again hj)
      rw [answerFrom_of_again hj] at h
      obtain ⟨n, hn, hruns⟩ := ih h
      exact ⟨n, Nat.le_of_succ_le hn, hruns⟩

/-- **The runs of a search are those of one attempt**, `attempts n = .ok runs`, in its order. -/
theorem exists_of_answer {p : RetryPolicy} {runs : List JobRun} (h : p.answer job attempts = .ok runs) :
    ∃ n, attempts n = .ok runs := by
  obtain ⟨n, -, hruns⟩ := exists_of_answerFrom h
  exact ⟨n, hruns⟩

/-- The outcome of a search is that of the attempts from any `k` on that begins, at whatever time `t`. -/
theorem answer_of_begins {p : RetryPolicy} {timed : Nat → TimedAttempt} {k t : Nat}
    (h : (p.rounds timed).Begins k t) :
    p.answer job (fun n => (timed n).outcome) =
      answerFrom job (fun n => (timed n).outcome) (p.maxFailures - k) k := by
  induction h with
  | first => rfl
  | next _ _ hon ih =>
    rw [ih]
    exact answerFrom_of_again (judge_of_goesOn job hon)

/-- **It is the outcome of the course of the attempts in time**, `RetryPolicy.play`, when there is no signal. -/
theorem outcome_of_play {p : RetryPolicy} {timed : Nat → TimedAttempt} {r : Played}
    (h : p.play job timed none = some r) : r.outcome = p.answer job fun n => (timed n).outcome := by
  obtain ⟨last, ⟨u, s, hbegins, -, -⟩, hstop, houtcome, -⟩ := play_none_eq_some_iff.1 h
  rw [houtcome, answer_of_begins hbegins]
  exact (answerFrom_of_answer (judge_of_not_goesOn job hstop)).symm

end RetryPolicy

namespace Collection

variable {α : Type} {c c' : Collection α} {jobs : List String} {attempts : Nat → Nat → Outcome}
  {p : RetryPolicy} {i : Nat} {w : Worker α}

/-! ## Steps by given attempts -/

/-- **A step whose outcome is that of the attempt** which the worker makes: whenever an event settles one, it is
`attempts i n` for the worker `i` at its attempt `n`. -/
inductive Plays (attempts : Nat → Nat → Outcome) (c c' : Collection α) : Prop where
  /-- A worker gets a permit and begins its first attempt. -/
  | begin (i : Nat) (attempt : α) (h : c.step (.begin i attempt) = some c')
  /-- A worker begins its next attempt. -/
  | resume (i : Nat) (attempt : α) (h : c.step (.resume i attempt) = some c')
  /-- The attempt of a worker ends. -/
  | outcome {i : Nat} {w : Worker α} {number : Nat} (hw : c.workers[i]? = some w)
      (hnumber : w.attempts = number + 1) (h : c.step (.outcome i (attempts i number)) = some c')

/-- A step in which an attempt gets on, without being settled. -/
def Advances (c c' : Collection α) : Prop := ∃ i attempt, c.step (.advance i attempt) = some c'

/-- What the worker of place `i` will come to: the `answer` of the policy to its attempts. -/
def answerOf (p : RetryPolicy) (jobs : List String) (attempts : Nat → Nat → Outcome) (i : Nat) : Outcome :=
  p.answer (jobs.getD i "") (attempts i)

/-- A worker comes to its outcome `o`: that of the attempts from the one on that it makes or makes next. A worker that
has finished comes to nothing more. -/
def ComesTo (attempts : Nat → Outcome) (o : Outcome) (w : Worker α) : Prop :=
  match w.stage with
  | .queued | .pausing => RetryPolicy.answerFrom w.job attempts w.spare w.attempts = o
  | .attempting _ =>
    ∃ number, w.attempts = number + 1 ∧ RetryPolicy.answerFrom w.job attempts w.spare number = o
  | .finished => True

/-- **What holds of a collection by given attempts**: there is no signal, and each worker that has not finished comes
to its outcome, as the others did. -/
structure Gathers (p : RetryPolicy) (jobs : List String) (attempts : Nat → Nat → Outcome) (c : Collection α)
    (ledger : List (Nat × Outcome)) : Prop where
  /-- There is no signal. -/
  cancelled_eq : c.cancelled = false
  /-- There is a permit. -/
  permits : 1 ≤ c.permits
  /-- The results tell what the ledger tells. -/
  told : Ledger jobs c ledger
  /-- Workers and entries. -/
  guards : Guards (fun j => ComesTo (attempts j) (answerOf p jobs attempts j))
    (fun j o => o = answerOf p jobs attempts j) c ledger

/-- At the start each worker comes to the outcome of all its attempts. -/
theorem gathers_start (limit : Nat) (p : RetryPolicy) (jobs : List String)
    (attempts : Nat → Nat → Outcome) : Gathers p jobs attempts (start (α := α) limit p jobs) [] := by
  refine ⟨rfl, one_le_permits_start limit p jobs, ledger_start limit p jobs, fun j w hw => ?_, by simp⟩
  rw [start, List.getElem?_map] at hw
  obtain ⟨job, hjob, rfl⟩ := Option.map_eq_some_iff.1 hw
  have hget : jobs.getD j "" = job := by rw [List.getD_eq_getElem?_getD, hjob, Option.getD_some]
  show RetryPolicy.answerFrom job (attempts j) p.maxFailures 0 = _
  rw [answerOf, hget, RetryPolicy.answer]

/-- A worker gets on to `w'`, and still comes to its outcome. -/
theorem Gathers.put {ledger : List (Nat × Outcome)} {w' : Worker α} (h : Gathers p jobs attempts c ledger)
    (hw : c.workers[i]? = some w) (hlive : w.isFinished = false) (hlive' : w'.isFinished = false)
    (hjob : w'.job = w.job) (hcomes : ComesTo (attempts i) (answerOf p jobs attempts i) w') :
    Gathers p jobs attempts (c.put i w') ledger := by
  have htold := h.told.shift (.went hw hlive hlive' hjob)
  rw [Option.toList_none, List.append_nil] at htold
  exact ⟨h.cancelled_eq, h.permits, htold, h.guards.put hcomes⟩

/-- A worker finishes with its outcome, which is the next entry of the ledger. -/
theorem Gathers.finish {ledger : List (Nat × Outcome)} (h : Gathers p jobs attempts c ledger)
    (hw : c.workers[i]? = some w) (hlive : w.isFinished = false) :
    Gathers p jobs attempts (c.finish i w (answerOf p jobs attempts i))
      (ledger ++ [(i, answerOf p jobs attempts i)]) :=
  ⟨h.cancelled_eq, h.permits, h.told.shift (.ended _ hw hlive), h.guards.finish trivial rfl⟩

/-- **An attempt that gets on keeps what holds**, with the same ledger. -/
theorem Gathers.of_advances {ledger : List (Nat × Outcome)} (h : Gathers p jobs attempts c ledger)
    (hc : Advances c c') : Gathers p jobs attempts c' ledger := by
  obtain ⟨i, attempt, hc⟩ := hc
  cases moves_of_step hc with
  | @advanced i w old attempt hw hs =>
    have hcomes := h.guards.workers i w hw
    rw [ComesTo, hs] at hcomes
    exact h.put hw (by rw [Worker.isFinished, hs]) rfl rfl hcomes

/-- **A step by given attempts keeps what holds**, with an entry more when a worker finishes by it. -/
theorem Gathers.of_plays {ledger : List (Nat × Outcome)} (h : Gathers p jobs attempts c ledger)
    (hc : Plays attempts c c') : ∃ ledger', Gathers p jobs attempts c' ledger' := by
  cases hc with
  | begin i attempt hc =>
    cases moves_of_step hc with
    | @begun i w attempt hw hs =>
      have hcomes := h.guards.workers i w hw
      rw [ComesTo, hs] at hcomes
      exact ⟨_, h.put hw (by rw [Worker.isFinished, hs]) rfl rfl ⟨w.attempts, rfl, hcomes⟩⟩
  | resume i attempt hc =>
    cases moves_of_step hc with
    | @resumed i w attempt hw hs =>
      have hcomes := h.guards.workers i w hw
      rw [ComesTo, hs] at hcomes
      exact ⟨_, h.put hw (by rw [Worker.isFinished, hs]) rfl rfl ⟨w.attempts, rfl, hcomes⟩⟩
  | @outcome i v number hv hnumber hc =>
    cases hm : moves_of_step hc with
    | @answered i w attempt o answer hw hs hj =>
      obtain rfl : w = v := Option.some.inj (hw.symm.trans hv)
      obtain ⟨n, hn, hcomes⟩ : ∃ n, _ := by
        have hcomes := h.guards.workers i w hw
        rwa [ComesTo, hs] at hcomes
      obtain rfl : n = number := by omega
      obtain rfl := (RetryPolicy.answerFrom_of_answer hj).symm.trans hcomes
      exact ⟨_, h.finish hw (by rw [Worker.isFinished, hs])⟩
    | @failed i w attempt o spare hw hs hj =>
      obtain rfl : w = v := Option.some.inj (hw.symm.trans hv)
      obtain ⟨n, hn, hcomes⟩ : ∃ n, _ := by
        have hcomes := h.guards.workers i w hw
        rwa [ComesTo, hs] at hcomes
      obtain rfl : n = number := by omega
      rw [RetryPolicy.answerFrom_of_again hj] at hcomes
      refine ⟨_, h.put hw (by rw [Worker.isFinished, hs]) rfl rfl ?_⟩
      -- the next attempt is the one behind
      show RetryPolicy.answerFrom w.job (attempts i) spare w.attempts = _
      rw [hn, hcomes]

/-- **As long as a worker has not finished there is a step by given attempts**: the one that is ready begins, or is
settled by its attempt, or ends its pause. -/
theorem Gathers.exists_plays [Inhabited α] {ledger : List (Nat × Outcome)}
    (h : Gathers p jobs attempts c ledger) (hall : c.workers.all Worker.isFinished = false) :
    ∃ c', Plays attempts c c' := by
  rcases exists_ready h.permits hall with ⟨i, w, hw, hactive⟩ | ⟨i, w, hw, hs, hpermit⟩
  · have hcomes := h.guards.workers i w hw
    cases hs : w.stage with
    | attempting attempt =>
      rw [ComesTo, hs] at hcomes
      obtain ⟨number, hnumber, -⟩ := hcomes
      -- the attempt ends, and is the last one or not
      cases hj : RetryPolicy.judge w.job w.spare (attempts i number) with
      | answer o => exact ⟨_, .outcome hw hnumber (step_of_moves (.answered hw hs hj))⟩
      | again spare => exact ⟨_, .outcome hw hnumber (step_of_moves (.failed hw hs hj))⟩
    | pausing => exact ⟨_, .resume i default (step_of_moves (.resumed hw hs))⟩
    | queued => exact absurd hactive (by simp [Worker.isActive, hs])
    | finished => exact absurd hactive (by simp [Worker.isActive, hs])
  · exact ⟨_, .begin i default (step_of_moves (.begun hw hs hpermit))⟩

/-! ## What a collection comes to -/

/-- A fatal failure names something that is not a run id: `.invalidRunId id` is the only one. -/
theorem fatal?_eq_some_iff {o : Outcome} {f : Failure} :
    fatal? o = some f ↔ ∃ id, f = .invalidRunId id ∧ o = .error f := by
  constructor
  · intro h
    cases o with
    | ok runs => exact absurd h (by simp [fatal?])
    | error g =>
      cases g with
      | invalidRunId id =>
        obtain rfl := Option.some.inj h
        exact ⟨id, rfl, rfl⟩
      | _ => exact absurd h (by simp [fatal?, Failure.isFatal])
  · rintro ⟨id, rfl, rfl⟩
    rfl

/-- An outcome without a fatal failure is none of `.error (.invalidRunId id)`. -/
theorem fatal?_eq_none_iff {o : Outcome} : fatal? o = none ↔ ∀ id, o ≠ .error (.invalidRunId id) := by
  rw [Option.eq_none_iff_forall_ne_some]
  constructor
  · intro h id ho
    exact h _ (fatal?_eq_some_iff.2 ⟨id, rfl, ho⟩)
  · intro h f hf
    obtain ⟨id, rfl, ho⟩ := fatal?_eq_some_iff.1 hf
    exact h id ho

/-- **What a collection comes to**, when its workers finish in the given order. -/
structure Gathered (p : RetryPolicy) (jobs : List String) (attempts : Nat → Nat → Outcome)
    (order : List Nat) (c : Collection α) : Prop where
  /-- Each worker finishes once. -/
  perm : order.Perm (List.range jobs.length)
  /-- They finish in this order, each with its outcome. -/
  results_eq : c.results = order.map fun i => (jobs.getD i "", answerOf p jobs attempts i)
  /-- Without a fatal failure the outcome is the runs of all searches that succeeded. -/
  ok : (∀ i < jobs.length, ∀ id, answerOf p jobs attempts i ≠ .error (.invalidRunId id)) →
    c.outcome? = some (.ok (order.flatMap fun i => runsOf (answerOf p jobs attempts i)))
  /-- A search that succeeded contributes its runs, which are those of one of its attempts, in their order. -/
  runs_of_ok : ∀ i runs, answerOf p jobs attempts i = .ok runs →
    runsOf (answerOf p jobs attempts i) = runs ∧ ∃ n, attempts i n = .ok runs
  /-- A search that failed contributes none. -/
  runs_of_error : ∀ i f, answerOf p jobs attempts i = .error f → runsOf (answerOf p jobs attempts i) = []
  /-- With a fatal failure the outcome is the first one of them. -/
  fatal : (∃ i < jobs.length, ∃ id, answerOf p jobs attempts i = .error (.invalidRunId id)) →
    ∃ before i after id, order = before ++ i :: after
      ∧ (∀ j ∈ before, ∀ id, answerOf p jobs attempts j ≠ .error (.invalidRunId id))
      ∧ answerOf p jobs attempts i = .error (.invalidRunId id)
      ∧ c.outcome? = some (.error (.invalidRunId id))

/-- The entries of a ledger are read off the workers: each is the place `i` with `answerOf` it. -/
theorem Gathers.ledger_eq {ledger : List (Nat × Outcome)} (h : Gathers p jobs attempts c ledger) :
    ledger = (ledger.map Prod.fst).map fun i => (i, answerOf p jobs attempts i) := by
  rw [List.map_map]
  conv_lhs => rw [← List.map_id ledger]
  refine List.map_congr_left fun q hq => ?_
  rw [Function.comp_apply, ← h.guards.entries q hq, id]

/-- The outcome is read off the workers, in the order in which they finished, that is the order of the ledger. -/
theorem Gathers.outcome?_eq {ledger : List (Nat × Outcome)} (h : Gathers p jobs attempts c ledger)
    (hall : c.workers.all Worker.isFinished = true) :
    c.outcome? = some (match (ledger.map Prod.fst).findSome? fun i => fatal? (answerOf p jobs attempts i) with
      | some f => .error f
      | none => .ok ((ledger.map Prod.fst).flatMap fun i => runsOf (answerOf p jobs attempts i))) := by
  have houtcome := h.told.outcome?_eq hall h.cancelled_eq
  rw [h.ledger_eq, List.findSome?_map, List.flatMap_map] at houtcome
  exact houtcome

/-- When all workers have finished, the collection has `Gathered` in the order of its ledger. -/
theorem Gathers.gathered {ledger : List (Nat × Outcome)} (h : Gathers p jobs attempts c ledger)
    (hall : c.workers.all Worker.isFinished = true) :
    Gathered p jobs attempts (ledger.map Prod.fst) c := by
  have hperm := h.told.perm_range hall
  have hmem : ∀ i, i ∈ ledger.map Prod.fst ↔ i < jobs.length := fun i => by
    rw [hperm.mem_iff, List.mem_range]
  have hruns : ∀ i runs, answerOf p jobs attempts i = .ok runs →
      runsOf (answerOf p jobs attempts i) = runs ∧ ∃ n, attempts i n = .ok runs :=
    fun i runs hok => ⟨congrArg runsOf hok, RetryPolicy.exists_of_answer hok⟩
  refine ⟨hperm, ?_, fun hok => ?_, hruns, fun i f hf => congrArg runsOf hf, fun hfatal => ?_⟩
  · rw [h.told.results_eq]
    conv_lhs => rw [h.ledger_eq, List.map_map]
    rfl
  · -- without a fatal answer, no answer in the order of `ledger` is one, and the collection is not cut short
    have hnone : (ledger.map Prod.fst).findSome?
        (fun i => fatal? (answerOf p jobs attempts i)) = none := by
      rw [List.findSome?_eq_none_iff]
      intro i hi
      exact fatal?_eq_none_iff.2 (hok i ((hmem i).1 hi))
    rw [h.outcome?_eq hall, hnone]
  · obtain ⟨i, hi, id, hid⟩ := hfatal
    -- the fatal answer that counts is the first one in the order of `ledger`, whichever task it is of
    cases hfind : (ledger.map Prod.fst).findSome? (fun i => fatal? (answerOf p jobs attempts i)) with
    | none =>
      exact absurd hid (fatal?_eq_none_iff.1 (List.findSome?_eq_none_iff.1 hfind i ((hmem i).2 hi)) id)
    | some f =>
      obtain ⟨before, k, after, horder, hk, hbefore⟩ := List.findSome?_eq_some_iff.1 hfind
      obtain ⟨id, rfl, hk⟩ := fatal?_eq_some_iff.1 hk
      refine ⟨before, k, after, id, horder, fun j hj => fatal?_eq_none_iff.1 (hbefore j hj), hk, ?_⟩
      rw [h.outcome?_eq hall, hfind]

/-- **A collection without the signal comes to its outcome**, for all `jobs`, all outcomes of all `attempts`, any
`limit` of permits and any order of the events: the runs of the searches that succeeded, in the order in which they
finished, or the first of the fatal failures. In due course means that attempts may advance as often as they like, as
long as they do not do so for ever. -/
theorem inDueCourse_gathered [Inhabited α] (limit : Nat) (p : RetryPolicy) (jobs : List String)
    (attempts : Nat → Nat → Outcome) :
    InDueCourse Advances (Plays attempts) (fun c : Collection α => ∃ order, Gathered p jobs attempts order c)
      (start limit p jobs) := by
  -- as long as it has no outcome a worker has not finished
  let held (c : Collection α) : Prop :=
    ∃ ledger, Gathers p jobs attempts c ledger ∧ c.workers.all Worker.isFinished = false
  have hreach : ∀ c : Collection α, (∃ ledger, Gathers p jobs attempts c ledger) →
      (∃ order, Gathered p jobs attempts order c) ∨ held c := by
    rintro c ⟨ledger, h⟩
    cases hall : c.workers.all Worker.isFinished with
    | true => exact Or.inl ⟨_, h.gathered hall⟩
    | false => exact Or.inr ⟨ledger, h, hall⟩
  rcases hreach _ ⟨[], gathers_start limit p jobs attempts⟩ with hnow | hheld
  · exact .now hnow
  · refine inDueCourse_of_rank Nat.lt_wfRel.wf held weight ?_ ?_ ?_ hheld
    · rintro a b ⟨ledger, h, hall⟩ hab
      refine ⟨⟨ledger, h.of_advances hab, ?_⟩, ?_⟩
      · obtain ⟨i, attempt, hab⟩ := hab
        rw [all_isFinished_of_isIdle hab rfl, hall]
      · obtain ⟨i, attempt, hab⟩ := hab
        exact weight_eq_of_isIdle hab rfl
    · rintro a ⟨ledger, h, hall⟩
      exact h.exists_plays hall
    · rintro a b ⟨ledger, h, hall⟩ hab
      refine (hreach b (h.of_plays hab)).imp_right fun hheld => ⟨hheld, ?_⟩
      -- whatever the step is, less is ahead
      cases hab with
      | begin i attempt hc => exact weight_lt_of_step hc rfl
      | resume i attempt hc => exact weight_lt_of_step hc rfl
      | outcome hw hn hc => exact weight_lt_of_step hc rfl

end Collection

end PayloadGate
