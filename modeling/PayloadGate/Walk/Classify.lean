import PayloadGate.Run.JobRun
import PayloadGate.Store.Listing

/-! # What an object says of its run

* **`AgeBands`** — the ages beyond which an object shows that its run is of no interest.
* **`classify`** — whether an object of a job directory leads to a run, past a run, or says nothing. -/

namespace PayloadGate.Walk

open Time (Instant Span)

/-- **Limits on the age of objects**: an object within them is neither older than `tooOld` nor younger than
`tooYoung`. -/
structure AgeBands where
  /-- Objects older than this belong to no run of interest. -/
  tooOld : Span
  /-- Objects younger than this belong to runs that cannot be done yet. -/
  tooYoung : Span
  deriving DecidableEq

/-- **What an object of a job directory says.** -/
inductive Decision where
  /-- Nothing. -/
  | ignore
  /-- The rest of this run can be skipped. -/
  | fastForward (id : String)
  /-- This run is to be looked at, and the rest of it can be skipped. -/
  | candidate (id : String)
  deriving DecidableEq

/-- The run directory of `key` below the job directory `root`, and the name within the run directory. -/
def splitKey? (root key : String) : Option (String × String) :=
  Text.after? (root ++ "/") key >>= Text.splitFirst? '/'

/-- Whether `age` lies beyond one of the limits. -/
def AgeBands.excludes (bands : AgeBands) (age : Span) : Bool :=
  decide (bands.tooOld < age) || decide (age < bands.tooYoung)

/-- **What the object `r` says**, by its key and its age at the time `now`. -/
def classify (root : String) (bands : AgeBands) (now : Instant) (r : ObjectRecord) : Decision :=
  if Text.endsWith r.key latestMarker then .ignore
  else match splitKey? root r.key with
    | none => .ignore
    | some (id, name) =>
      if id = "" then .ignore
      -- the age is looked at before the name: any object outside of the bands passes its run over
      else if bands.excludes (now.since r.created) then .fastForward id
      else if name = descriptorName then .candidate id
      else .ignore

end PayloadGate.Walk
