import PayloadGate.Analysis
import PayloadGate.Settings.Fault

/-! # Settings of an analysis

* **`Settings`** — what to analyze and how to judge it, as a user states it.
* **`Settings.check`** — the first rule that settings break.
* **`Settings.options`**, **`Settings.checkers`**, **`Settings.filter`** — the parts of an analysis that follow from
  them. -/

namespace PayloadGate

open Time (Instant)

/-- **What to analyze and how to judge it.** -/
structure Settings where
  /-- The directory that holds the output directories. -/
  workingDir : String
  /-- The tag of a release payload. -/
  tag : Option String
  /-- The invocation that asked for the payload of a pull request. -/
  invocation : Option String
  /-- The estimated start of the payload. -/
  start : Instant
  /-- The timeout, in seconds. -/
  timeout : Nat
  /-- Platform that jobs must have. -/
  platform : Option String
  /-- Network plugin that jobs must have. -/
  network : Option String
  /-- Infrastructure that jobs must have. -/
  infrastructure : Option String
  /-- Groups of tests to check. -/
  testGroups : List String
  /-- The number of passes that each test needs. -/
  minimum : Nat
  /-- The storage directories of the jobs of a pull request. -/
  prefixes : List JobPrefix
  /-- Parts of a name that exclude a job. -/
  excluded : List String
  /-- How many jobs are searched at the same time. -/
  maxJobs : Nat
  /-- Base of the job viewer. -/
  humanBase : String
  /-- Base of the artifact browser. -/
  artifactBase : String
  deriving DecidableEq

/-- The platforms that are known. -/
def knownPlatforms : List String := ["aws", "azure", "gcp", "libvirt", "metal", "ovirt", "vsphere"]

/-- The network plugins that are known. -/
def knownNetworks : List String := ["ovn", "sdn"]

/-- The infrastructures that are known. -/
def knownInfrastructures : List String := ["upi", "ipi"]

/-- The longest timeout, in seconds: four hours and 35 minutes. -/
def longestTimeout : Nat := 16500

namespace Settings

/-- Whether any facet is required of jobs: `platform`, `network` or `infrastructure`. -/
def hasFacet (s : Settings) : Bool := s.platform.isSome || s.network.isSome || s.infrastructure.isSome

/-- The rules in the order in which they are looked at, each with whether the settings `s` obey it. -/
def obeyed (s : Settings) : List (Rule × Bool) :=
  [(.atMostOnePayload, !(s.tag.isSome && s.invocation.isSome)),
    (.somePayload, s.tag.isSome || s.invocation.isSome),
    (.prefixesWithInvocation, s.invocation.isNone || !s.prefixes.isEmpty),
    (.noFacetsWithInvocation, s.invocation.isNone || !s.hasFacet),
    (.knownPlatform, s.platform.all knownPlatforms.contains),
    (.knownNetwork, s.network.all knownNetworks.contains),
    (.knownInfrastructure, s.infrastructure.all knownInfrastructures.contains),
    (.someTestGroup, !s.testGroups.isEmpty),
    (.knownTestGroups, s.testGroups.all fun g => (Junit.TestId.ofGroup? g).isSome),
    (.limitedTimeout, decide (s.timeout ≤ longestTimeout)),
    (.positiveConcurrency, decide (0 < s.maxJobs))]

/-- **The first rule that settings break**, as a fault, or `.ok ()` when they obey all. -/
def check (s : Settings) : Except ConfigFault Unit :=
  match s.obeyed.find? (!·.2) with
  | some (rule, _) => .error (.broken rule)
  | none => .ok ()

/-- The tag or the invocation; empty without either, and the tag when both are there. -/
def matchId (s : Settings) : String := (s.tag.or s.invocation).getD ""

/-- The tests of all groups, in order; a group that is not known has none. -/
def tests (s : Settings) : List Junit.TestId := (s.testGroups.filterMap Junit.TestId.ofGroup?).flatten

/-- The payload that is named, when it is exactly one, and a failure for none or two. -/
def selector (s : Settings) : Except Failure PayloadSelector :=
  match s.tag, s.invocation with
  | some tag, none => .ok (.tag tag)
  | none, some id => .ok (.invocation id s.prefixes)
  | _, _ => .error (.invalidInput "exactly one of payload tag and invocation id must be set")

/-- The window of every search: from one hour before the start to four hours after it. -/
def window : SearchWindow := ⟨Time.seconds 3600, Time.seconds 14400⟩

/-- How every search is tried again: after a minute, and given up after more than twenty failures. -/
def retry : RetryPolicy := ⟨20, 60000⟩

/-- **What is analyzed, and with what patience**, when exactly one payload is named. -/
def options (s : Settings) : Except Failure Options := do
  let selector ← s.selector
  .ok {
    selector := selector
    workingDir := s.workingDir
    estimate := s.start
    timeout := s.timeout
    grace := Time.seconds 3600
    margin := 1200
    poll := 600000
    window := window
    maxJobs := s.maxJobs
    retry := retry }

/-- **One gate for each test**, with the number of passes that is required of each. -/
def checkers (s : Settings) : List Checker :=
  let suffix := facetSuffix (s.platform.getD "") (s.network.getD "") (s.infrastructure.getD "")
  s.tests.map fun test => ⟨test, suffix, s.minimum⟩

/-- **What jobs must be like**: the facets and the excluded parts of names. -/
def filter (s : Settings) : JobFilter := ⟨s.platform, s.network, s.infrastructure, s.excluded⟩

/-- The places where runs can be looked at, for a bucket. -/
def links (s : Settings) (bucket : String) : Links := ⟨bucket, s.humanBase, s.artifactBase⟩

end Settings

end PayloadGate
