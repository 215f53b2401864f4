import PayloadGate.Proofs.System.Rounds
import PayloadGate.Readiness

/-! # The polls of a wait

The polls are rounds with a pause between them: another one follows as long as none has ended the wait.

* **`EndsWait`** — the polls that end the wait; **`waitAnswer`** — the answer they give.
* **`pollRounds`** — the polls as rounds; **`coursePolls_of_begins`** — the course of the polls from one of them on.
* **`coursePolls_none_eq_some_iff`** — how the course ends without a signal; **`coursePolls_of_cut_pause`** — how it
  ends with one that is given in a pause.
* **`IsLastPoll`** — which poll is the last one; **`EndsAtLastPoll`**, **`coursePolls_endsAtLastPoll`** — what a
  wait comes to. -/

namespace PayloadGate

open Time (Instant)

variable {isFinished : JobRun → Bool} {stop now : Instant} {readings : Nat → Instant} {polls : Nat → TimedPoll}
  {cancelAt : Option Nat} {o : Outcome} {interval most number k n clock span t c : Nat}

/-! ## What ends the wait -/

/-- **The polls that end the wait**: those that fail, that find no runs or finished ones only, and those behind which
the clock shows that it is too late, `stop < now`. -/
def EndsWait (isFinished : JobRun → Bool) (stop now : Instant) : Outcome → Prop
  | .error _ => True
  | .ok runs => runs = [] ∨ (∀ run ∈ runs, isFinished run = true) ∨ stop < now

/-- **The answer of the last poll**: its failure, or its runs, the finished ones apart from the others. No runs are the
failure `.noRelatedJobs`. -/
def waitAnswer (isFinished : JobRun → Bool) : Outcome → Except Failure (List JobRun × List JobRun)
  | .error f => .error f
  | .ok [] => .error .noRelatedJobs
  | .ok runs => .ok (runs.filter isFinished, runs.filter (!isFinished ·))

/-- Runs are answered as they are, in two lists of those that are finished and those that are not. -/
theorem waitAnswer_ok {runs : List JobRun} (h : runs ≠ []) :
    waitAnswer isFinished (.ok runs) = .ok (runs.filter isFinished, runs.filter (!isFinished ·)) := by
  cases runs with
  | nil => exact absurd rfl h
  | cons run runs => rfl

/-- The runs of an answer `.ok (finished, unfinished)` are those of the poll, of which there are some. -/
theorem eq_ok_of_waitAnswer {finished unfinished : List JobRun}
    (h : waitAnswer isFinished o = .ok (finished, unfinished)) :
    ∃ runs, o = .ok runs ∧ runs ≠ [] ∧ finished = runs.filter isFinished
      ∧ unfinished = runs.filter (!isFinished ·) := by
  cases o with
  | error f => exact absurd h (by simp [waitAnswer])
  | ok runs =>
    have hruns : runs ≠ [] := by
      rintro rfl
      exact absurd h (by simp [waitAnswer])
    rw [waitAnswer_ok hruns] at h
    obtain ⟨rfl, rfl⟩ := Prod.mk.inj (Except.ok.inj h)
    exact ⟨runs, rfl, hruns, rfl, rfl⟩

/-- No run is left when all are finished. -/
theorem filter_not_eq_nil_iff {runs : List JobRun} :
    runs.filter (!isFinished ·) = [] ↔ ∀ run ∈ runs, isFinished run = true := by
  simp [List.filter_eq_nil_iff]

/-- **A poll that does not end the wait** is followed by another: it is judged by `.again`. -/
theorem judgePoll_of_not_endsWait (h : ¬ EndsWait isFinished stop now o) :
    judgePoll stop now o isFinished = .again := by
  cases o with
  | error f => exact absurd trivial h
  | ok runs =>
    have hrunning : runs.filter (!isFinished ·) ≠ [] := fun hall => h (.inr (.inl (filter_not_eq_nil_iff.1 hall)))
    have hearly : ¬ stop < now := fun hlate => h (.inr (.inr hlate))
    exact judgeRuns_of_running hrunning hearly

/-! ## One poll -/

/-- A poll that hangs, without a signal, has no end: the course is `none`. -/
theorem coursePolls_of_hangs (hspan : (polls number).duration = none) :
    coursePolls isFinished stop readings interval polls none most number clock = none := by
  cases most with
  | zero => rfl
  | succ most =>
    rw [coursePolls, TimedPoll.ending?, hspan]
    rfl

/-- A poll ends the wait at `clock + span`, its time, whatever the signal is: a poll is not cancelled. -/
theorem coursePolls_of_endsWait (hspan : (polls number).duration = some span)
    (hend : EndsWait isFinished stop (readings number) (polls number).outcome) :
    coursePolls isFinished stop readings interval polls cancelAt (most + 1) number clock =
      some ⟨waitAnswer isFinished (polls number).outcome, number + 1, clock + span⟩ := by
  rw [coursePolls, TimedPoll.ending?, hspan]
  cases hout : (polls number).outcome with
  | error f => rfl
  | ok runs =>
    by_cases hruns : runs = []
    · rw [hruns]
      rfl
    · rw [hout] at hend
      have hdone : runs.filter (!isFinished ·) = [] ∨ stop < readings number :=
        (hend.resolve_left hruns).imp_left filter_not_eq_nil_iff.2
      simp only [judgePoll, judgeRuns_of_done hruns hdone, waitAnswer_ok hruns]

/-- The signal is given before the pause behind a poll is over: the course ends with the cancellation, but not before
the poll does. -/
theorem coursePolls_of_cut (hspan : (polls number).duration = some span)
    (hgo : ¬ EndsWait isFinished stop (readings number) (polls number).outcome)
    (hcut : c < clock + span + interval) :
    coursePolls isFinished stop readings interval polls (some c) (most + 1) number clock =
      some ⟨.error pollCancellation, number + 1, max (clock + span) c⟩ := by
  have hfilter : (some c).filter (· < clock + span + interval) = some c := by simp [hcut]
  rw [coursePolls, TimedPoll.ending?, hspan]
  simp only [judgePoll_of_not_endsWait hgo, hfilter]

/-- Another poll follows, when the signal does not come before the end of the pause: the course is the one from
`number + 1` on, begun at `clock + span + interval`. -/
theorem coursePolls_of_again (hspan : (polls number).duration = some span)
    (hgo : ¬ EndsWait isFinished stop (readings number) (polls number).outcome)
    (hquiet : ∀ c ∈ cancelAt, clock + span + interval ≤ c) :
    coursePolls isFinished stop readings interval polls cancelAt (most + 1) number clock =
      coursePolls isFinished stop readings interval polls cancelAt most (number + 1) (clock + span + interval) := by
  have hfilter : cancelAt.filter (· < clock + span + interval) = none := by
    rw [Option.filter_eq_none_iff]
    intro c hc
    simpa using hquiet c hc
  rw [coursePolls, TimedPoll.ending?, hspan]
  simp only [judgePoll_of_not_endsWait hgo, hfilter]

/-! ## The polls as rounds -/

/-- **The polls as rounds**: their times, the pause `interval`, and `goesOn` for those that do not end the wait. -/
def pollRounds (isFinished : JobRun → Bool) (stop : Instant) (readings : Nat → Instant) (interval : Nat)
    (polls : Nat → TimedPoll) : Rounds where
  span k := (polls k).duration
  goesOn k := ¬ EndsWait isFinished stop (readings k) (polls k).outcome
  pause := interval

/-- **The course of the polls is that from any `k` of them on** which begins at `t`, before the signal. By induction on
`Begins`. -/
theorem coursePolls_of_begins (h : (pollRounds isFinished stop readings interval polls).Begins k t) (hk : k ≤ most)
    (hquiet : ∀ c ∈ cancelAt, t ≤ c) :
    coursePolls isFinished stop readings interval polls cancelAt most 0 0 =
      coursePolls isFinished stop readings interval polls cancelAt (most - k) k t := by
  induction h with
  | first => rfl
  | @next k t s h hspan hgo ih =>
    have hquiet' : ∀ c ∈ cancelAt, t + s + interval ≤ c := hquiet
    have hmost : most - k = most - (k + 1) + 1 := by omega
    rw [ih (Nat.le_of_succ_le hk) fun c hc => by have := hquiet' c hc; omega, hmost]
    exact coursePolls_of_again hspan hgo hquiet'

/-- **A course that ends with the last poll** `n` at `t`: with its `waitAnswer`, and `n + 1` polls. -/
theorem coursePolls_of_ends (h : (pollRounds isFinished stop readings interval polls).Ends n t)
    (hend : EndsWait isFinished stop (readings n) (polls n).outcome) (hn : n < most) :
    coursePolls isFinished stop readings interval polls none most 0 0 =
      some ⟨waitAnswer isFinished (polls n).outcome, n + 1, t⟩ := by
  obtain ⟨u, s, hbegins, hspan, rfl⟩ := h
  have hmost : most - n = most - (n + 1) + 1 := by omega
  rw [coursePolls_of_begins hbegins (Nat.le_of_lt hn) (by simp), hmost]
  exact coursePolls_of_endsWait hspan hend

/-- **A course that is cut off in the pause behind a poll** `n`: it ends at the time `c` of the signal. -/
theorem coursePolls_of_cut_pause (h : (pollRounds isFinished stop readings interval polls).Ends n t)
    (hgo : ¬ EndsWait isFinished stop (readings n) (polls n).outcome) (hn : n < most) (hc : t ≤ c)
    (hcut : c < t + interval) :
    coursePolls isFinished stop readings interval polls (some c) most 0 0 =
      some ⟨.error pollCancellation, n + 1, c⟩ := by
  obtain ⟨u, s, hbegins, hspan, rfl⟩ := h
  have hmost : most - n = most - (n + 1) + 1 := by omega
  have hearlier : u ≤ c := by omega
  rw [coursePolls_of_begins hbegins (Nat.le_of_lt hn) (by simpa using hearlier), hmost,
    coursePolls_of_cut hspan hgo hcut, Nat.max_eq_right hc]

/-- **How the course ends without a signal**: with the first poll that ends the wait, when that ends, and with its
answer. -/
theorem coursePolls_none_eq_some_iff {r : PlayedPolls} :
    coursePolls isFinished stop readings interval polls none most 0 0 = some r ↔
      ∃ n < most, (pollRounds isFinished stop readings interval polls).Ends n r.clock
        ∧ EndsWait isFinished stop (readings n) (polls n).outcome
        ∧ r.outcome = waitAnswer isFinished (polls n).outcome ∧ r.polls = n + 1 := by
  constructor
  · intro h
    rcases (pollRounds isFinished stop readings interval polls).begins_or_stops most with
      ⟨t, hmost⟩ | ⟨k, hk, t, hbegins, hspan⟩ | ⟨n, hn, t, hends, hstop⟩
    · -- all polls that are told of went on
      rw [coursePolls_of_begins hmost (Nat.le_refl most) (by simp), Nat.sub_self] at h
      exact absurd h (by simp [coursePolls])
    · rw [coursePolls_of_begins hbegins (Nat.le_of_lt hk) (by simp), coursePolls_of_hangs hspan] at h
      exact absurd h (by simp)
    · have hend : EndsWait isFinished stop (readings n) (polls n).outcome := not_not.1 hstop
      obtain rfl := Option.some.inj ((coursePolls_of_ends hends hend hn).symm.trans h)
      exact ⟨n, hn, hends, hend, rfl, rfl⟩
  · rintro ⟨n, hn, hends, hend, houtcome, hpolls⟩
    rw [coursePolls_of_ends hends hend hn, ← houtcome, ← hpolls]

/-! ## The last poll -/

/-- **Which poll is the last one**: `n` ends the wait, by what the clock shows behind it, and none before it does. -/
structure IsLastPoll (isFinished : JobRun → Bool) (stop : Instant) (readings : Nat → Instant)
    (polls : Nat → TimedPoll) (n : Nat) : Prop where
  /-- It ends the wait. -/
  endsWait : EndsWait isFinished stop (readings n) (polls n).outcome
  /-- None does before it. -/
  earlier : ∀ k < n, ¬ EndsWait isFinished stop (readings k) (polls k).outcome

/-- **What a wait comes to**, one field for each way: its end without a signal, the runs that it answers, and the signal
in a pause. -/
structure EndsAtLastPoll (isFinished : JobRun → Bool) (stop : Instant) (readings : Nat → Instant) (interval : Nat)
    (polls : Nat → TimedPoll) : Prop where
  /-- Without a signal it ends with the last poll and its answer, and takes the time of the polls up to it with a pause
  between any two of them. -/
  ends : ∀ n, IsLastPoll isFinished stop readings polls n →
    ∀ spans : Nat → Nat, (∀ k ≤ n, (polls k).duration = some (spans k)) → ∀ most, n < most →
      coursePolls isFinished stop readings interval polls none most 0 0 =
        some ⟨waitAnswer isFinished (polls n).outcome, n + 1,
          ∑ k ∈ Finset.range (n + 1), spans k + n * interval⟩
  /-- It ends with no other poll. -/
  only : ∀ most r, coursePolls isFinished stop readings interval polls none most 0 0 = some r →
    ∃ n, IsLastPoll isFinished stop readings polls n ∧ r.outcome = waitAnswer isFinished (polls n).outcome
      ∧ r.polls = n + 1
  /-- The runs it ends with are those of the last poll. There are some, each of them on one side and in its order, and
  when some are not finished it has been too late to wait for them. -/
  runs : ∀ most r finished unfinished, coursePolls isFinished stop readings interval polls none most 0 0 = some r →
    r.outcome = .ok (finished, unfinished) →
    ∃ n runs, r.polls = n + 1 ∧ (polls n).outcome = .ok runs ∧ runs ≠ [] ∧ (finished ++ unfinished).Perm runs
      ∧ finished = runs.filter isFinished ∧ unfinished = runs.filter (!isFinished ·)
      ∧ (unfinished ≠ [] → stop < readings n)
  /-- With a signal in the pause behind a poll it ends there, with a cancellation. -/
  cut : ∀ n, (∀ k ≤ n, ¬ EndsWait isFinished stop (readings k) (polls k).outcome) →
    ∀ spans : Nat → Nat, (∀ k ≤ n, (polls k).duration = some (spans k)) → ∀ most, n < most →
      ∀ c, ∑ k ∈ Finset.range (n + 1), spans k + n * interval ≤ c →
        c < ∑ k ∈ Finset.range (n + 1), spans k + n * interval + interval →
        coursePolls isFinished stop readings interval polls (some c) most 0 0 =
          some ⟨.error pollCancellation, n + 1, c⟩

/-- A poll that ends and ends the wait is the last one, since all before it went on. -/
theorem isLastPoll_of_ends (h : (pollRounds isFinished stop readings interval polls).Ends n t)
    (hend : EndsWait isFinished stop (readings n) (polls n).outcome) :
    IsLastPoll isFinished stop readings polls n := by
  obtain ⟨u, s, hbegins, -, -⟩ := h
  exact ⟨hend, fun k hk => (hbegins.of_lt hk).1⟩

/-- The runs of the last poll that are not finished are taken only when it is too late, `stop < readings n`. -/
theorem IsLastPoll.lt_of_unfinished {runs : List JobRun} (h : IsLastPoll isFinished stop readings polls n)
    (hout : (polls n).outcome = .ok runs) (hrunning : runs.filter (!isFinished ·) ≠ []) : stop < readings n := by
  have hend := h.endsWait
  rw [hout] at hend
  rcases hend with rfl | hall | hlate
  · exact absurd rfl hrunning
  · exact absurd (filter_not_eq_nil_iff.2 hall) hrunning
  · exact hlate

/-- **What a wait comes to**, for all `polls` with their times, any completion `isFinished` of the runs, any `stop` time
and any `readings` of the clock. -/
theorem coursePolls_endsAtLastPoll (isFinished : JobRun → Bool) (stop : Instant) (readings : Nat → Instant)
    (interval : Nat) (polls : Nat → TimedPoll) : EndsAtLastPoll isFinished stop readings interval polls := by
  -- whatever the course answers, it answers at a last poll; the rest reads this off
  have honly : ∀ most r, coursePolls isFinished stop readings interval polls none most 0 0 = some r →
      ∃ n, IsLastPoll isFinished stop readings polls n ∧ r.outcome = waitAnswer isFinished (polls n).outcome
        ∧ r.polls = n + 1 := by
    intro most r hr
    obtain ⟨n, -, hends, hend, houtcome, hpolls⟩ := coursePolls_none_eq_some_iff.1 hr
    exact ⟨n, isLastPoll_of_ends hends hend, houtcome, hpolls⟩
  refine ⟨fun n hlast spans hspans most hn => ?_, honly, fun most r finished unfinished hr hout => ?_,
    fun n hgo spans hspans most hn c hc hcut => ?_⟩
  · have hends : (pollRounds isFinished stop readings interval polls).Ends n _ :=
      Rounds.ends_sum hspans hlast.earlier
    exact coursePolls_of_ends hends hlast.endsWait hn
  · obtain ⟨n, hlast, houtcome, hpolls⟩ := honly most r hr
    obtain ⟨runs, hruns, hne, rfl, rfl⟩ := eq_ok_of_waitAnswer (houtcome.symm.trans hout)
    exact ⟨n, runs, hpolls, hruns, hne, List.filter_append_perm isFinished runs, rfl, rfl,
      hlast.lt_of_unfinished hruns⟩
  · have hends : (pollRounds isFinished stop readings interval polls).Ends n _ :=
      Rounds.ends_sum hspans fun k hk => hgo k (Nat.le_of_lt hk)
    exact coursePolls_of_cut_pause hends (hgo n (Nat.le_refl n)) hn hc hcut

/-- It is not too late at the stop time itself: a run that is never finished is polled once more. -/
example (run : JobRun) :
    coursePolls (fun _ => false) ⟨1, 0⟩ (fun k => ⟨k, 0⟩) 10 (fun _ => ⟨some 5, .ok [run]⟩) none 9 0 0 =
      some ⟨.ok ([], [run]), 3, 35⟩ := by
  cbv

end PayloadGate
