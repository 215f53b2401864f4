import PayloadGate.Readiness

/-! # Scripts

A **script** lists what comes out of the calls to something, one after the other; its last entry is repeated for all
further calls.

* **`scripted?`** — the entry for a call.
* **`scriptedPoll`**, **`playPolls`** — the polls of a script, and their course. -/

namespace PayloadGate.Rehearsal

open Time (Instant)

/-- **The entry of a script for the call with the given number**; `none` for a script without entries. -/
def scripted? {α : Type} (script : List α) (number : Nat) : Option α :=
  script[number]?.or script.getLast?

/-- **A poll of a script**, whose entries hold a time, or none for one that hangs, and an outcome. The rehearsed getter
that hangs answers the signal with a failure of its own. -/
def scriptedPoll (script : List (Option Nat × Outcome)) (number : Nat) : TimedPoll :=
  match scripted? script number with
  | some (some span, outcome) => ⟨some span, outcome⟩
  | some (none, _) | none => ⟨none, .error (.cancelled "hanging getter")⟩

/-- The course of the polls of a script while the clock shows one time, when a run is finished once its completion is
recorded. -/
def playPolls (stop now : Instant) (interval : Nat) (script : List (Option Nat × Outcome)) (cancelAt : Option Nat)
    (most : Nat) : Option PlayedPolls :=
  coursePolls JobRun.isFinished stop (fun _ => now) interval (scriptedPoll script) cancelAt most 0 0

end PayloadGate.Rehearsal
