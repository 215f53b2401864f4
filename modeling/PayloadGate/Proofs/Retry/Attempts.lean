import PayloadGate.Proofs.Collection.Moves
import PayloadGate.Proofs.System.Rounds

/-! # The attempts for one job

The attempts are rounds with a pause between them: another one follows when nothing has settled the search and one
more failure may still follow.

* **`RetryPolicy.Settles`** — the outcomes that settle a search; **`RetryPolicy.told`** — what is told of an outcome.
* **`RetryPolicy.rounds`** — the attempts as rounds; **`RetryPolicy.play_of_begins`** — the course of the attempts from
  one of them on.
* **`RetryPolicy.play_none_eq_some_iff`** — how the course ends without a signal.
* **`RetryPolicy.IsLast`**, **`RetryPolicy.play_unsignalled`** — which attempt is the last one, and what the course is
  up to it. -/

namespace PayloadGate

namespace RetryPolicy

variable {p : RetryPolicy} {job : String} {attempts : Nat → TimedAttempt} {cancelAt : Option Nat} {o : Outcome}
  {spare more number k clock span t c : Nat}

/-! ## What settles a search -/

/-- **The outcomes that settle a search**: runs, a fatal failure and a cancellation. -/
def Settles : Outcome → Prop
  | .ok runs => runs ≠ []
  | .error f => f.isFatal = true ∨ ∃ activity, f = .cancelled activity

/-- **What is told of an outcome**: the outcome itself, but `.noRunsYet job` when nothing was found. -/
def told (job : String) : Outcome → Outcome
  | .ok [] => .error (.noRunsYet job)
  | o => o

/-- The failures that are not tried again are the fatal ones and the cancellations. -/
theorem isRetryable_eq_false_iff {f : Failure} :
    f.isRetryable = false ↔ f.isFatal = true ∨ ∃ activity, f = .cancelled activity := by
  cases f <;> simp [Failure.isRetryable, Failure.isFatal]

/-- An outcome that `Settles` a search is the answer, whatever may still follow. -/
theorem judge_of_settles (job : String) (spare : Nat) (h : Settles o) : judge job spare o = .answer (told job o) := by
  cases o with
  | ok runs =>
    cases runs with
    | nil => exact absurd rfl h
    | cons r rs => exact judge_ok_cons job spare r rs
  | error f => exact judge_error_of_not_isRetryable job spare (isRetryable_eq_false_iff.2 h)

/-- Any other outcome counts as a failure `f`, and it is told of that failure. -/
theorem judge_of_not_settles (job : String) (spare : Nat) (h : ¬ Settles o) :
    ∃ f, told job o = .error f ∧ judge job spare o = afterFailure spare f := by
  cases o with
  | ok runs =>
    cases runs with
    | nil => exact ⟨.noRunsYet job, rfl, judge_ok_nil job spare⟩
    | cons r rs => exact absurd (List.cons_ne_nil r rs) h
  | error f =>
    have hf : f.isRetryable = true := by
      rw [← Bool.not_eq_false, isRetryable_eq_false_iff]
      exact h
    exact ⟨f, rfl, by rw [judge, if_pos hf]⟩

/-! ## One attempt -/

/-- Nothing is interrupted that ends at `t`, before the signal or with it: `t ≤ c`. -/
theorem interrupts_eq_false (h : ∀ c ∈ cancelAt, t ≤ c) : interrupts cancelAt (some t) = false := by
  cases cancelAt with
  | none => rfl
  | some c => exact decide_eq_false (Nat.not_lt.2 (h c rfl))

/-- An attempt that hangs, without a signal, has no end: the course is `none`. -/
theorem playFrom_of_hangs (hspan : (attempts number).duration = none) :
    playFrom p job attempts none spare number clock = none := by
  rw [playFrom, hspan]
  rfl

/-- The signal is given at `c`, during an attempt that would end later or hangs: the course ends at `c` with the
cancellation. -/
theorem playFrom_of_cut_attempt (hc : clock ≤ c)
    (hcut : ∀ span, (attempts number).duration = some span → c < clock + span) :
    playFrom p job attempts (some c) spare number clock = some ⟨.error (cancellation job), number + 1, c⟩ := by
  have hinterrupts : interrupts (some c) ((attempts number).duration.map (clock + ·)) = true := by
    cases hspan : (attempts number).duration with
    | none => rfl
    | some span => exact decide_eq_true (hcut span hspan)
  rw [playFrom, if_pos hinterrupts, Option.getD_some, Nat.max_eq_right hc]

/-- An attempt is the last one, when its outcome is judged as an answer and it ends before the signal. -/
theorem playFrom_of_answer (hspan : (attempts number).duration = some span)
    (hquiet : ∀ c ∈ cancelAt, clock + span ≤ c) (hj : judge job spare (attempts number).outcome = .answer o) :
    playFrom p job attempts cancelAt spare number clock = some ⟨o, number + 1, clock + span⟩ := by
  rw [playFrom, hspan, Option.map_some, interrupts_eq_false hquiet, hj]
  rfl

/-- The signal is given at `c`, in the pause behind an attempt: the course ends at `c` with the cancellation. -/
theorem playFrom_of_cut_pause (hspan : (attempts number).duration = some span) (hc : clock + span ≤ c)
    (hcut : c < clock + span + p.interval) (hj : judge job spare (attempts number).outcome = .again more) :
    playFrom p job attempts (some c) spare number clock = some ⟨.error (cancellation job), number + 1, c⟩ := by
  obtain rfl := eq_of_judge_eq_again hj
  have hquiet : ∀ d ∈ some c, clock + span ≤ d := by simpa using hc
  have hinterrupts : interrupts (some c) (some (clock + span + p.interval)) = true := decide_eq_true hcut
  rw [playFrom, hspan, Option.map_some, interrupts_eq_false hquiet, hj]
  simp only [hinterrupts, Bool.false_eq_true, if_false, if_true, Option.getD_some, Nat.max_eq_right hc]

/-- Another attempt follows, when the signal does not come before the end of the pause: the course is the one from
`number + 1` on, begun at `clock + span + p.interval`. -/
theorem playFrom_of_again (hspan : (attempts number).duration = some span)
    (hquiet : ∀ c ∈ cancelAt, clock + span + p.interval ≤ c)
    (hj : judge job spare (attempts number).outcome = .again more) :
    playFrom p job attempts cancelAt spare number clock =
      playFrom p job attempts cancelAt more (number + 1) (clock + span + p.interval) := by
  obtain rfl := eq_of_judge_eq_again hj
  have hbefore : ∀ c ∈ cancelAt, clock + span ≤ c := fun c hc => by
    have := hquiet c hc
    omega
  rw [playFrom, hspan, Option.map_some, interrupts_eq_false hbefore, hj]
  simp only [interrupts_eq_false hquiet, Bool.false_eq_true, if_false]

/-! ## The attempts as rounds -/

/-- **The attempts as rounds**: their times, the pause, and `goesOn` for those behind which another one follows. -/
def rounds (p : RetryPolicy) (attempts : Nat → TimedAttempt) : Rounds where
  span k := (attempts k).duration
  goesOn k := k < p.maxFailures ∧ ¬ Settles (attempts k).outcome
  pause := p.interval

/-- There is one attempt more than failures may follow: the number `k` of one that begins is at most `p.maxFailures`. -/
theorem le_maxFailures_of_begins (h : (p.rounds attempts).Begins k t) : k ≤ p.maxFailures :=
  h.le_of_not_goesOn fun hon => Nat.lt_irrefl _ hon.1

/-- An attempt behind which another one follows is judged by `.again`, with one failure less. -/
theorem judge_of_goesOn (job : String) (h : (p.rounds attempts).goesOn k) :
    judge job (p.maxFailures - k) (attempts k).outcome = .again (p.maxFailures - (k + 1)) := by
  obtain ⟨hk, hsettles⟩ := h
  obtain ⟨f, -, hf⟩ := judge_of_not_settles job (p.maxFailures - k) hsettles
  have hspare : p.maxFailures - k = p.maxFailures - (k + 1) + 1 := by omega
  rw [hf, hspare, afterFailure]

/-- The last attempt is judged by the answer that is told of its outcome. -/
theorem judge_of_not_goesOn (job : String) (h : ¬ (p.rounds attempts).goesOn k) :
    judge job (p.maxFailures - k) (attempts k).outcome = .answer (told job (attempts k).outcome) := by
  by_cases hsettles : Settles (attempts k).outcome
  · exact judge_of_settles job _ hsettles
  · have hspare : p.maxFailures - k = 0 := by
      have hk : ¬ k < p.maxFailures := fun hk => h ⟨hk, hsettles⟩
      omega
    obtain ⟨f, htold, hf⟩ := judge_of_not_settles job (p.maxFailures - k) hsettles
    rw [hf, hspare, htold, afterFailure]

/-- **The course of the attempts is that from any of them on** which begins at `t`, before the signal. By induction on
`Begins`. -/
theorem play_of_begins (h : (p.rounds attempts).Begins k t) (hquiet : ∀ c ∈ cancelAt, t ≤ c) :
    p.play job attempts cancelAt = playFrom p job attempts cancelAt (p.maxFailures - k) k t := by
  induction h with
  | first => rfl
  | @next k t s h hspan hon ih =>
    have hquiet' : ∀ c ∈ cancelAt, t + s + p.interval ≤ c := hquiet
    rw [ih fun c hc => by have := hquiet' c hc; omega]
    exact playFrom_of_again hspan hquiet' (judge_of_goesOn job hon)

/-- **A course that ends with the last attempt** `k` at `t`: with what is told of its outcome, and `k + 1` attempts. -/
theorem play_of_ends (h : (p.rounds attempts).Ends k t) (hlast : ¬ (p.rounds attempts).goesOn k)
    (hquiet : ∀ c ∈ cancelAt, t ≤ c) :
    p.play job attempts cancelAt = some ⟨told job (attempts k).outcome, k + 1, t⟩ := by
  obtain ⟨u, s, hbegins, hspan, rfl⟩ := h
  rw [play_of_begins hbegins fun c hc => Nat.le_trans (Nat.le_add_right u s) (hquiet c hc)]
  exact playFrom_of_answer hspan hquiet (judge_of_not_goesOn job hlast)

/-- A course with an attempt that hangs, without a signal, has no end. -/
theorem play_of_hangs (h : (p.rounds attempts).Begins k t) (hspan : (attempts k).duration = none) :
    p.play job attempts none = none := by
  rw [play_of_begins h (by simp)]
  exact playFrom_of_hangs hspan

/-- **How the course ends without a signal**: with the last attempt, when that ends, and with what is told of its
outcome. -/
theorem play_none_eq_some_iff {r : Played} :
    p.play job attempts none = some r ↔ ∃ last, (p.rounds attempts).Ends last r.clock
      ∧ ¬ (p.rounds attempts).goesOn last ∧ r.outcome = told job (attempts last).outcome ∧ r.attempts = last + 1 := by
  constructor
  · intro h
    rcases (p.rounds attempts).begins_or_stops (p.maxFailures + 1) with
      ⟨t, hk⟩ | ⟨k, -, t, hk, hspan⟩ | ⟨last, -, t, hends, hlast⟩
    · exact absurd (le_maxFailures_of_begins hk) (Nat.not_succ_le_self _)
    · exact absurd ((play_of_hangs hk hspan).symm.trans h) (by simp)
    · obtain rfl := Option.some.inj ((play_of_ends hends hlast (by simp)).symm.trans h)
      exact ⟨last, hends, hlast, rfl, rfl⟩
  · rintro ⟨last, hends, hlast, houtcome, hattempts⟩
    rw [play_of_ends hends hlast (by simp), ← houtcome, ← hattempts]

/-! ## The last attempt -/

/-- **Which attempt is the last one**: the first whose outcome settles the search, or the one of number `maxFailures`,
behind which no failure may follow. -/
structure IsLast (p : RetryPolicy) (outcomes : Nat → Outcome) (last : Nat) : Prop where
  /-- No more failures than may follow come before it. -/
  le : last ≤ p.maxFailures
  /-- Nothing settles the search before it. -/
  earlier : ∀ k < last, ¬ Settles (outcomes k)
  /-- It settles the search, or no failure may follow. -/
  settles : Settles (outcomes last) ∨ last = p.maxFailures

/-- There is a last attempt, whatever the outcomes are. -/
theorem exists_isLast (p : RetryPolicy) (outcomes : Nat → Outcome) : ∃ last, p.IsLast outcomes last := by
  classical
  -- the outcome of the attempt that may not fail counts as well
  have hex : ∃ k, Settles (outcomes k) ∨ k = p.maxFailures := ⟨p.maxFailures, .inr rfl⟩
  refine ⟨Nat.find hex, Nat.find_min' hex (.inr rfl), fun k hk hsettles => ?_, Nat.find_spec hex⟩
  exact Nat.find_min hex hk (.inl hsettles)

/-- Each attempt `k` before the last one is followed by another. -/
theorem IsLast.goesOn {last : Nat} (h : p.IsLast (fun k => (attempts k).outcome) last) (hk : k < last) :
    (p.rounds attempts).goesOn k :=
  ⟨Nat.lt_of_lt_of_le hk h.le, h.earlier k hk⟩

/-- The last attempt is not followed by another. -/
theorem IsLast.not_goesOn {last : Nat} (h : p.IsLast (fun k => (attempts k).outcome) last) :
    ¬ (p.rounds attempts).goesOn last := by
  rintro ⟨hlt, hsettles⟩
  exact h.settles.elim hsettles (Nat.ne_of_lt hlt)

/-- There is only one last attempt: of two, neither comes before the other. -/
theorem IsLast.unique {outcomes : Nat → Outcome} {last other : Nat} (h : p.IsLast outcomes last)
    (h' : p.IsLast outcomes other) : last = other := by
  -- an attempt before a last one neither settles the search nor is the one that may not fail
  have hle : ∀ {a b}, p.IsLast outcomes a → p.IsLast outcomes b → b ≤ a := by
    intro a b ha hb
    by_contra hlt
    rcases ha.settles with hs | rfl
    · exact hb.earlier a (Nat.lt_of_not_le hlt) hs
    · exact hlt hb.le
  exact Nat.le_antisymm (hle h' h) (hle h h')

/-! ## The course without a signal -/

/-- **The course of the attempts without a signal**, for all their outcomes: it ends with the last attempt and is told
of its outcome, and it takes the time of the attempts up to it with a pause between any two of them. When one of them
hangs it has no end. -/
theorem play_unsignalled (p : RetryPolicy) (job : String) (attempts : Nat → TimedAttempt) :
    ∃ last, p.IsLast (fun k => (attempts k).outcome) last
      ∧ (∀ other, p.IsLast (fun k => (attempts k).outcome) other → other = last)
      ∧ (∀ spans : Nat → Nat, (∀ k ≤ last, (attempts k).duration = some (spans k)) →
          p.play job attempts none = some ⟨told job (attempts last).outcome, last + 1,
            ∑ k ∈ Finset.range (last + 1), spans k + last * p.interval⟩)
      ∧ ((∃ k ≤ last, (attempts k).duration = none) → p.play job attempts none = none) := by
  obtain ⟨last, hlast⟩ := p.exists_isLast fun k => (attempts k).outcome
  refine ⟨last, hlast, fun other hother => hother.unique hlast, fun spans hspans => ?_, ?_⟩
  · -- every attempt up to the last one and every pause between them takes its time
    have hends : (p.rounds attempts).Ends last _ := Rounds.ends_sum hspans fun k hk => hlast.goesOn hk
    exact play_of_ends hends hlast.not_goesOn (by simp)
  · rintro ⟨k, hk, hhangs⟩
    rcases (p.rounds attempts).begins_or_stops (last + 1) with
      ⟨t, hj⟩ | ⟨j, -, t, hj, hspan⟩ | ⟨j, -, t, ⟨u, s, hj, hspan, -⟩, hstop⟩
    · exact absurd (hj.of_lt last.lt_succ_self).1 hlast.not_goesOn
    · exact play_of_hangs hj hspan
    · -- no attempt comes behind the one that hangs, and none that ends the course before the last one
      have hle : j ≤ k := hj.le_of_hangs hhangs
      have hge : last ≤ j := by
        by_contra hearlier
        exact hstop (hlast.goesOn (Nat.lt_of_not_le hearlier))
      obtain rfl : j = k := by omega
      exact absurd (hspan.symm.trans hhangs) (by simp)

/-- When one failure may follow there are two attempts to find runs, with one pause between them and none behind. -/
example : play ⟨1, 10⟩ "e2e" (fun _ => ⟨some 5, .ok []⟩) none = some ⟨.error (.noRunsYet "e2e"), 2, 20⟩ := by
  cbv

end RetryPolicy

end PayloadGate
