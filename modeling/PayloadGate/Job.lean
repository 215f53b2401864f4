import PayloadGate.Failure
import PayloadGate.Text.Blank

/-! # Jobs and which of them to search

* **`Job`** — a job of the catalog with its facets; **`Job.infrastructure`** is read off its name.
* **`JobPrefix`** — the storage directory that belongs to a job of a pull request, with the reader
  **`JobPrefix.parseList`** and the writer **`JobPrefix.render`**.
* **`JobFilter`** — facets that a job must have and name parts it must not have.
* **`selectJobs`** — the jobs of a catalog that an analysis searches. -/

namespace PayloadGate

/-- **A job as the catalog knows it.** A facet that is not known is `""`. -/
structure Job where
  /-- The name, which is also the directory below `logs/`. -/
  name : String
  /-- Cloud platform. -/
  platform : String
  /-- Network plugin. -/
  network : String
  /-- Processor architecture. -/
  architecture : String
  deriving DecidableEq, Repr

namespace Job

/-- A job of which only the name is known. -/
def named (name : String) : Job := ⟨name, "", "", ""⟩

/-- **Who provides the machines**: `upi` when the name says so, else `ipi`. -/
def infrastructure (job : Job) : String :=
  if Text.contains job.name "upi" then "upi" else "ipi"

end Job

/-- **The storage directory of a job of a pull request.** -/
structure JobPrefix where
  /-- The job. -/
  jobName : String
  /-- Its directory, without a slash at the end. -/
  directory : String
  deriving DecidableEq, Repr

namespace JobPrefix

/-- A pair as it is written in a list: `job=directory`. -/
def render (p : JobPrefix) : String := p.jobName ++ "=" ++ p.directory

/-- One pair of a list: two non-blank sides around a single `=`. Blanks around the sides, and then slashes at the end of
the directory, are dropped; the directory may be empty after that. -/
def parse (pair : String) : Except Failure JobPrefix :=
  match Text.pieces '=' pair with
  | [name, directory] =>
    -- both sides are looked at before the slashes are dropped
    if Text.isAllBlank name || Text.isAllBlank directory then .error (malformed pair)
    else .ok ⟨Text.trim name, Text.trimEndOf (· == '/') (Text.trim directory)⟩
  | _ => .error (malformed pair)
where
  /-- The failure that names the offending pair as it was written. -/
  malformed (pair : String) : Failure :=
    .invalidInput ("GCS prefix '" ++ pair
      ++ "' should consist of job name and prefix separated by '='")

/-- **A comma-separated list of pairs**, each one read by `parse`; the first failure is that of the list. A blank text
is the empty list. -/
def parseList (value : String) : Except Failure (List JobPrefix) :=
  if Text.isAllBlank value then .ok [] else (Text.pieces ',' value).mapM parse

/-- The pairs of a list as they are written, joined by commas. -/
def renderList (ps : List JobPrefix) : String := ",".intercalate (ps.map render)

end JobPrefix

/-- **What a job must be like.** A facet that is not given, `none`, is not looked at. -/
structure JobFilter where
  /-- Required platform. -/
  platform : Option String
  /-- Required network plugin. -/
  network : Option String
  /-- Required infrastructure. -/
  infrastructure : Option String
  /-- Parts of a name that exclude a job. -/
  excluded : List String
  deriving DecidableEq, Repr

namespace JobFilter

/-- The filter that every job passes. -/
def all : JobFilter := ⟨none, none, none, []⟩

/-- **A job passes** when it has every required facet and its name contains no excluded part. -/
def accepts (filter : JobFilter) (job : Job) : Bool :=
  filter.platform.all (· == job.platform)
    && filter.network.all (· == job.network)
    && filter.infrastructure.all (· == job.infrastructure)
    && !filter.excluded.any (Text.contains job.name)

end JobFilter

/-- **The jobs to search**, in catalog order: those named by `prefixes` when there are any, and otherwise those that
`filter.accepts`. -/
def selectJobs (filter : JobFilter) (prefixes : List JobPrefix) (jobs : List Job) : List Job :=
  if prefixes.isEmpty then jobs.filter filter.accepts
  else jobs.filter fun job => prefixes.any (·.jobName == job.name)

end PayloadGate
