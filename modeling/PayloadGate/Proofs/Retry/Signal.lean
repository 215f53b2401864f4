import PayloadGate.Proofs.Retry.Attempts

/-! # A signal during the attempts

The signal cuts the course of the attempts off at its time and changes nothing before it.

* **`RetryPolicy.play_of_cut_attempt`**, **`RetryPolicy.play_of_cut_pause`** — the signal is given during an attempt,
  or in the pause behind one.
* **`RetryPolicy.lt_attempts_iff`**, **`RetryPolicy.ends_latest`** — the attempts of a course without the signal.
* **`RetryPolicy.CutAt`**, **`RetryPolicy.cutAt_of_apart`** — the course with the signal beside the one without it. -/

namespace PayloadGate

namespace RetryPolicy

variable {p : RetryPolicy} {job : String} {attempts : Nat → TimedAttempt} {r : Played} {k t c : Nat}

/-! ## Where the signal is given -/

/-- **The signal is given during an attempt** `k`, `t ≤ c` and before its end; it may hang. The course ends at `c`. -/
theorem play_of_cut_attempt (h : (p.rounds attempts).Begins k t) (hc : t ≤ c)
    (hcut : ∀ e, (p.rounds attempts).Ends k e → c < e) :
    p.play job attempts (some c) = some ⟨.error (cancellation job), k + 1, c⟩ := by
  rw [play_of_begins h (by simpa using hc)]
  exact playFrom_of_cut_attempt hc fun span hspan => hcut _ (h.ends hspan)

/-- **The signal is given in a pause** behind the attempt `k`, `t ≤ c < t + p.interval`. The course ends at `c`. -/
theorem play_of_cut_pause (h : (p.rounds attempts).Ends k t) (hon : (p.rounds attempts).goesOn k) (hc : t ≤ c)
    (hcut : c < t + p.interval) :
    p.play job attempts (some c) = some ⟨.error (cancellation job), k + 1, c⟩ := by
  obtain ⟨u, s, hbegins, hspan, rfl⟩ := h
  have hearlier : u ≤ c := by omega
  rw [play_of_begins hbegins (by simpa using hearlier)]
  exact playFrom_of_cut_pause hspan hc hcut (judge_of_goesOn job hon)

/-! ## The course without the signal -/

/-- **The attempts of a course are those that begin**: `k < r.attempts` exactly when attempt `k` begins at some time. -/
theorem lt_attempts_iff (h : p.play job attempts none = some r) :
    k < r.attempts ↔ ∃ t, (p.rounds attempts).Begins k t := by
  obtain ⟨last, ⟨u, s, hlast, -, -⟩, hstop, -, hattempts⟩ := play_none_eq_some_iff.1 h
  rw [hattempts, Nat.lt_succ_iff]
  constructor
  · intro hk
    obtain ⟨t, -, hbegins⟩ := hlast.exists_of_le hk
    exact ⟨t, hbegins⟩
  · rintro ⟨t, hbegins⟩
    exact hbegins.le_of_not_goesOn hstop

/-- The latest attempt that begins before the time `c` is the last one when the course has ended by then. -/
theorem ends_latest (h : p.play job attempts none = some r) (hc : r.clock < c)
    (hk : (p.rounds attempts).Begins k t) (hnext : ∀ u, (p.rounds attempts).Begins (k + 1) u → c ≤ u) :
    (p.rounds attempts).Ends k r.clock ∧ ¬ (p.rounds attempts).goesOn k := by
  obtain ⟨last, hends, hstop, -, -⟩ := play_none_eq_some_iff.1 h
  have hle : k ≤ last := hk.le_of_not_goesOn hstop
  have hge : last ≤ k := by
    by_contra hlt
    obtain ⟨v, s, hlast, -, hclock⟩ := hends
    obtain ⟨u, hu, hbegins⟩ := hlast.exists_of_le (Nat.lt_of_not_le hlt)
    have := hnext u hbegins
    omega
  obtain rfl := Nat.le_antisymm hle hge
  exact ⟨hends, hstop⟩

/-! ## The course with the signal -/

/-- **What the course with the signal at `c` is**, beside the one without it: cut off at `c` when that goes on behind
`c`, and the same when it has ended before. -/
structure CutAt (p : RetryPolicy) (job : String) (attempts : Nat → TimedAttempt) (c : Nat) : Prop where
  /-- A course that ends before the signal is the same with it. -/
  ended : ∀ r, p.play job attempts none = some r → r.clock < c → p.play job attempts (some c) = some r
  /-- Any other course ends at the signal, with a cancellation. The attempts begun by then are those that begin before
  it when there is none. -/
  cut : (¬ ∃ r, p.play job attempts none = some r ∧ r.clock < c) →
    ∃ begun, p.play job attempts (some c) = some ⟨.error (cancellation job), begun, c⟩
      ∧ ∀ k, k < begun ↔ ∃ t < c, (p.rounds attempts).Begins k t
  /-- The attempts of a course that ends without the signal are all that begin. -/
  attempts_iff : ∀ r, p.play job attempts none = some r →
    ∀ k, k < r.attempts ↔ ∃ t, (p.rounds attempts).Begins k t
  /-- Whether it ends or not, the course without the signal is that from any attempt on, at the time it begins. -/
  of_begins : ∀ k t, (p.rounds attempts).Begins k t →
    p.play job attempts none = playFrom p job attempts none (p.maxFailures - k) k t

/-- The signal is given at `c` when the latest attempt `k` has not been the last one by then: it cuts off this attempt,
or the pause behind it. -/
theorem play_of_cut_latest (hbegins : ∀ k, ¬ (p.rounds attempts).Begins k c)
    (hends : ∀ k, ¬ (p.rounds attempts).Ends k c) (hk : (p.rounds attempts).Begins k t) (ht : t < c)
    (hnext : ∀ u, (p.rounds attempts).Begins (k + 1) u → c ≤ u)
    (hgo : ∀ e, (p.rounds attempts).Ends k e → e < c → (p.rounds attempts).goesOn k) :
    p.play job attempts (some c) = some ⟨.error (cancellation job), k + 1, c⟩ := by
  by_cases hend : ∃ e < c, (p.rounds attempts).Ends k e
  · -- it has ended, and the next one has not begun
    obtain ⟨e, he, hend⟩ := hend
    have hon := hgo e hend he
    obtain ⟨u, s, hu, hspan, rfl⟩ := hend
    have hlater : c ≤ u + s + p.interval := hnext _ (hu.next hspan hon)
    have hapart : u + s + p.interval ≠ c := fun h => hbegins (k + 1) (h ▸ hu.next hspan hon)
    exact play_of_cut_pause (hu.ends hspan) hon (Nat.le_of_lt he) (Nat.lt_of_le_of_ne hlater hapart.symm)
  · -- it has not ended
    refine play_of_cut_attempt hk (Nat.le_of_lt ht) fun e he => ?_
    have hlater : c ≤ e := Nat.le_of_not_lt fun hlt => hend ⟨e, hlt, he⟩
    have hapart : e ≠ c := fun h => hends k (h ▸ he)
    exact Nat.lt_of_le_of_ne hlater hapart.symm

/-- **The signal cuts the course of the attempts off and does nothing else**, for all attempts with their times and for
any time of the signal at which no attempt begins or ends. -/
theorem cutAt_of_apart (p : RetryPolicy) (job : String) (attempts : Nat → TimedAttempt) {c : Nat}
    (hbegins : ∀ k, ¬ (p.rounds attempts).Begins k c) (hends : ∀ k, ¬ (p.rounds attempts).Ends k c) :
    p.CutAt job attempts c := by
  have hpos : 0 < c := by
    rcases Nat.eq_zero_or_pos c with rfl | hpos
    · exact absurd .first (hbegins 0)
    · exact hpos
  -- the attempt that is the latest one at the time of the signal
  obtain ⟨k, t, hk, ht, hnext⟩ := (p.rounds attempts).exists_latest (fun _ _ => le_maxFailures_of_begins) hpos
  by_cases hdone : ∃ e < c, (p.rounds attempts).Ends k e ∧ ¬ (p.rounds attempts).goesOn k
  · -- it has been the last one
    obtain ⟨e, he, hend, hstop⟩ := hdone
    have hplay : p.play job attempts none = some _ := play_of_ends hend hstop (by simp)
    refine ⟨fun r hr _ => ?_, fun hnot => absurd ⟨_, hplay, he⟩ hnot, fun r hr k => lt_attempts_iff hr,
      fun k t h => play_of_begins h (by simp)⟩
    obtain rfl := Option.some.inj (hplay.symm.trans hr)
    exact play_of_ends hend hstop (by simpa using Nat.le_of_lt he)
  · have hgo : ∀ e, (p.rounds attempts).Ends k e → e < c → (p.rounds attempts).goesOn k := by
      intro e hend he
      by_contra hstop
      exact hdone ⟨e, he, hend, hstop⟩
    have hcut : p.play job attempts (some c) = some ⟨.error (cancellation job), k + 1, c⟩ :=
      play_of_cut_latest hbegins hends hk ht hnext hgo
    refine ⟨fun r hr hc => ?_, fun _ => ⟨k + 1, hcut, fun j => hk.lt_succ_iff ht hnext⟩,
      fun r hr k => lt_attempts_iff hr, fun k t h => play_of_begins h (by simp)⟩
    obtain ⟨hend, hstop⟩ := ends_latest hr hc hk hnext
    exact absurd (hgo r.clock hend hc) hstop

/-- Attempts of which the first one finds nothing and the second one hangs, as all others do. -/
def stalling : Nat → TimedAttempt
  | 0 => ⟨some 5, .ok []⟩
  | _ + 1 => ⟨none, .ok []⟩

/-- They begin twice, at the times `0` and `15`. -/
theorem begins_stalling (h : (rounds ⟨3, 10⟩ stalling).Begins k t) : k = 0 ∧ t = 0 ∨ k = 1 ∧ t = 15 := by
  cases h with
  | first => exact .inl ⟨rfl, rfl⟩
  | next h hspan _ =>
    cases h with
    | first =>
      obtain rfl := Option.some.inj hspan
      exact .inr ⟨rfl, rfl⟩
    | next _ _ _ => exact absurd hspan (by simp [rounds, stalling])

/-- They end once, at the time `5`. -/
theorem ends_stalling (h : (rounds ⟨3, 10⟩ stalling).Ends k t) : t = 5 := by
  obtain ⟨u, s, hbegins, hspan, rfl⟩ := h
  rcases begins_stalling hbegins with ⟨rfl, rfl⟩ | ⟨rfl, rfl⟩
  · obtain rfl := Option.some.inj hspan
    rfl
  · exact absurd hspan (by simp [rounds, stalling])

/-- **A signal during the second of them**, which would hang for ever: the course ends at the time `30` of the
signal. -/
theorem cutAt_of_apart_stalling :
    CutAt ⟨3, 10⟩ "e2e" stalling 30
      ∧ play ⟨3, 10⟩ "e2e" stalling none = none
      ∧ play ⟨3, 10⟩ "e2e" stalling (some 30) = some ⟨.error (cancellation "e2e"), 2, 30⟩ := by
  refine ⟨cutAt_of_apart _ _ _ (fun k hk => ?_) (fun k hk => ?_), by cbv, by cbv⟩
  · rcases begins_stalling hk with ⟨-, ht⟩ | ⟨-, ht⟩
    · exact absurd ht (by decide)
    · exact absurd ht (by decide)
  · exact absurd (ends_stalling hk) (by decide)

end RetryPolicy

end PayloadGate
