import PayloadGate.Run.Descriptor

/-! # Job runs

* **`Links`** — where a run can be looked at, with **`Links.humanUrl`** and **`Links.artifactUrl`**.
* **`JobRun`** — a run of a job whose descriptor has been read.
* **`RunMatcher`** — the label that marks the runs of one payload. -/

namespace PayloadGate

/-- **The places where runs can be looked at**: the bucket, and the bases of the two addresses. -/
structure Links where
  /-- The bucket as links name it. -/
  bucket : String
  /-- Base of the job viewer. -/
  humanBase : String
  /-- Base of the artifact browser. -/
  artifactBase : String
  deriving DecidableEq

namespace Links

/-- A `base` without slashes at its end. -/
def trimBase (base : String) : String := Text.trimEndOf (· == '/') base

/-- **The page of the run `id` in the job viewer**, below `humanBase`. -/
def humanUrl (links : Links) (root id : String) : String :=
  trimBase links.humanBase ++ "/view/gs/" ++ links.bucket ++ "/" ++ root ++ "/" ++ id

/-- **The directory of the run `id` in the artifact browser**, below `artifactBase`. -/
def artifactUrl (links : Links) (root id : String) : String :=
  trimBase links.artifactBase ++ "/gcs/" ++ links.bucket ++ "/" ++ root ++ "/" ++ id ++ "/"

end Links

/-- The name of the descriptor within a run directory. -/
def descriptorName : String := "prowjob.json"

/-- The pointer object at the top of a job directory, which belongs to no run. -/
def latestMarker : String := "latest-build.txt"

/-- **A run of a job** whose descriptor has been read. -/
structure JobRun where
  /-- The job. -/
  jobName : String
  /-- The run. -/
  runId : String
  /-- The directory that holds the runs of the job. -/
  root : String
  /-- The key of the descriptor. -/
  descriptorKey : String
  /-- The keys of the result files, in listing order. -/
  resultKeys : List String
  /-- The descriptor. -/
  descriptor : Descriptor
  /-- Its page in the job viewer. -/
  humanUrl : String
  /-- Its directory in the artifact browser. -/
  artifactUrl : String
  deriving DecidableEq

namespace JobRun

/-- A run as messages name it, `job/id`. -/
def display (run : JobRun) : String := run.jobName ++ "/" ++ run.runId

/-- Whether the run has been completed, by its descriptor. -/
def isFinished (run : JobRun) : Bool := run.descriptor.isFinished

end JobRun

/-- **What marks the runs of a payload**: the name `label` of a label with its `value`. -/
structure RunMatcher where
  /-- The label. -/
  label : String
  /-- The value it must have. -/
  value : String
  deriving DecidableEq

namespace RunMatcher

/-- The runs of a release payload, marked with its `tag`. -/
def payloadTag (tag : String) : RunMatcher := ⟨"release.openshift.io/analysis", tag⟩

/-- The runs of a pull request payload, marked with the invocation `id` that asked for it. -/
def invocation (id : String) : RunMatcher := ⟨"release.openshift.io/aggregation-id", id⟩

/-- Whether a run with the descriptor `d` is marked: the label has just this value. -/
def accepts (m : RunMatcher) (d : Descriptor) : Bool := d.label? m.label == some m.value

end RunMatcher

end PayloadGate
