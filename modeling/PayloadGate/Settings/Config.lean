import PayloadGate.Settings.Settings
import PayloadGate.Time.Stamp

/-! # Configuration by variables

* **`Environment`** — development or production.
* **`Config`** — the settings of an analysis with the addresses of warehouse and storage.
* **`Config.load`** — the configuration that variables state. -/

namespace PayloadGate

open Time (Instant)

/-- **The environment** the program runs in: `development` or `production`. -/
inductive Environment where
  /-- With local services. -/
  | development
  /-- With the services that are in use. -/
  | production
  deriving DecidableEq, Repr

namespace Environment

/-- **The environment of a `name`**, long or short and in any case. No letter outside ASCII has one of the names as its
lower case, so that it is enough to lower ASCII letters. -/
def ofName? (name : String) : Option Environment :=
  let lower := String.ofList (name.toList.map Char.toLower)
  if lower = "development" ∨ lower = "dev" then some development
  else if lower = "production" ∨ lower = "prod" then some production
  else none

/-- The long name. -/
def name : Environment → String
  | development => "development"
  | production => "production"

end Environment

/-- How the storage is reached. -/
structure StorageConfig where
  /-- The address of the service; without one it follows from the region. -/
  endpoint : Option String
  /-- The bucket. -/
  bucket : String
  /-- The region. -/
  region : String
  /-- The name of the key. -/
  accessKey : String
  /-- The secret of the key. -/
  secretKey : String
  deriving DecidableEq

/-- **A configuration.** -/
structure Config where
  /-- The environment. -/
  environment : Environment
  /-- The address of the warehouse. -/
  databaseUrl : String
  /-- The size of the connection pool. -/
  maxConnections : Nat
  /-- The storage. -/
  storage : StorageConfig
  /-- The settings of the analysis. -/
  settings : Settings
  deriving DecidableEq

namespace Config

/-- The name and the secret of the key for development. -/
def developmentKey : String := "minioadmin"

/-- A number in the variable `name`, below `limit`, or the default `dflt`; any other text breaks the `rule`. -/
def number (lookup : String → Option String) (name : String) (limit dflt : Nat) (rule : Rule) :
    Except ConfigFault Nat :=
  match lookup name with
  | none => .ok dflt
  | some text =>
    match Decimal.unsigned? limit text.toList with
    | some n => .ok n
    | none => .error (.broken rule)

/-- The environment, which has to be stated in `RUST_ENV`. -/
def environmentOf (lookup : String → Option String) : Except ConfigFault Environment :=
  match lookup "RUST_ENV" with
  | none => .error (.missing "RUST_ENV")
  | some name =>
    match Environment.ofName? name with
    | some e => .ok e
    | none => .error (.broken .knownEnvironment)

/-- How the storage is reached. Only in development it has a default address. -/
def storageOf (lookup : String → Option String) (environment : Environment) : StorageConfig where
  -- a developer's store runs on the same machine
  endpoint := (lookup "S3_ENDPOINT").or
    (if environment = .development then some "http://localhost:9100" else none)
  bucket := (lookup "S3_BUCKET").getD "origin-ci-test"
  region := (lookup "S3_REGION").getD "us-east-1"
  accessKey := (lookup "S3_ACCESS_KEY").getD developmentKey
  secretKey := (lookup "S3_SECRET_KEY").getD developmentKey

/-- The start of the payload; by default it starts `now`. -/
def startOf (lookup : String → Option String) (now : Instant) : Except ConfigFault Instant :=
  match Text.nonBlank (lookup "JRA_JOB_START_TIME") with
  | none => .ok now
  | some text =>
    match Instant.ofStrict? text with
    | some start => .ok start
    | none => .error (.broken .stampedStart)

/-- The storage directories of the jobs of a pull request, as a list in one variable. -/
def prefixesOf (lookup : String → Option String) : Except ConfigFault (List JobPrefix) :=
  match JobPrefix.parseList ((lookup "JRA_EXPLICIT_GCS_PREFIXES").getD "") with
  | .ok prefixes => .ok prefixes
  | .error _ => .error (.broken .pairedPrefixes)

/-- The settings of the analysis, which are not checked; each fault names its variable or its rule. -/
def settingsOf (lookup : String → Option String) (now : Instant) : Except ConfigFault Settings := do
  -- of several faults the first one in this order is told
  let start ← startOf lookup now
  let timeout ← number lookup "JRA_TIMEOUT_SECS" Decimal.limit64 12600 .numericTimeout
  let minimum ← number lookup "JRA_MINIMUM_SUCCESSFUL_COUNT" Decimal.limit32 1 .numericMinimum
  let maxJobs ← number lookup "JRA_MAX_CONCURRENT_JOBS" Decimal.limit64 32 .numericConcurrency
  let prefixes ← prefixesOf lookup
  .ok {
    workingDir := (lookup "JRA_WORKING_DIR").getD "test-case-analyzer-working-dir"
    tag := Text.nonBlank (lookup "JRA_PAYLOAD_TAG")
    invocation := Text.nonBlank (lookup "JRA_PAYLOAD_INVOCATION_ID")
    start := start
    timeout := timeout
    platform := Text.nonBlank (lookup "JRA_PLATFORM")
    network := Text.nonBlank (lookup "JRA_NETWORK")
    infrastructure := Text.nonBlank (lookup "JRA_INFRASTRUCTURE")
    testGroups := Text.commaList ((lookup "JRA_TEST_GROUPS").getD "install")
    minimum := minimum
    prefixes := prefixes
    excluded := Text.commaList ((lookup "JRA_EXCLUDE_JOB_NAMES").getD "")
    maxJobs := maxJobs
    humanBase := (lookup "JRA_HUMAN_URL_BASE").getD "https://prow.ci.openshift.org"
    artifactBase :=
      (lookup "JRA_ARTIFACT_URL_BASE").getD "https://gcsweb-ci.apps.ci.l2s4.p1.openshiftapps.com" }

/-- The values for development that were left in the configuration `c`. -/
def leftovers (c : Config) : List Leftover :=
  (if c.databaseUrl = developmentDatabase then [.database] else [])
    ++ (if c.storage.accessKey = developmentKey ∨ c.storage.secretKey = developmentKey then [.credentials]
      else [])

/-- **The configuration that variables state**, or the first fault. In production no value for development may be
left. -/
def load (lookup : String → Option String) (now : Instant) : Except ConfigFault Config := do
  let environment ← environmentOf lookup
  let connections ← number lookup "JRA_DB_MAX_CONNECTIONS" Decimal.limit32 8 .numericConnections
  let settings ← settingsOf lookup now
  -- the rules come before the values for development
  settings.check
  let c : Config := {
    environment := environment
    databaseUrl := (lookup "DATABASE_URL").getD developmentDatabase
    maxConnections := connections
    storage := storageOf lookup environment
    settings := settings }
  if environment = .production ∧ c.leftovers ≠ [] then .error (.leftovers c.leftovers) else .ok c

end Config

end PayloadGate
