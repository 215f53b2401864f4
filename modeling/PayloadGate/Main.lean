import PayloadGate.Program.Course
import PayloadGate.Time.Stamp
import Std.Time.DateTime.Timestamp

/-! # The command line

The program reads the variables, with those of a file `.env` in its directory, and prints its log. It has no connection
to a network: every storage is out of its reach. -/

namespace PayloadGate

open Time (Instant)

/-- The names of all variables of a configuration. -/
def configVariables : List String :=
  ["RUST_ENV", logVariable, "DATABASE_URL", "JRA_DB_MAX_CONNECTIONS", "S3_ENDPOINT", "S3_BUCKET", "S3_REGION",
    "S3_ACCESS_KEY", "S3_SECRET_KEY", "JRA_JOB_START_TIME", "JRA_TIMEOUT_SECS", "JRA_MINIMUM_SUCCESSFUL_COUNT",
    "JRA_MAX_CONCURRENT_JOBS", "JRA_EXPLICIT_GCS_PREFIXES", "JRA_WORKING_DIR", "JRA_PAYLOAD_TAG",
    "JRA_PAYLOAD_INVOCATION_ID", "JRA_PLATFORM", "JRA_NETWORK", "JRA_INFRASTRUCTURE", "JRA_TEST_GROUPS",
    "JRA_EXCLUDE_JOB_NAMES", "JRA_HUMAN_URL_BASE", "JRA_ARTIFACT_URL_BASE"]

/-- Nothing can be reached. -/
def offline : Services where
  bucket s := .outOfReach s.bucket "there is no connection to a network"
  warehouse _ := .error "there is no connection to a network"

/-- The result of an analysis that has to be made without a network. -/
def offlineResult (c : Config) : Except Failure String := do
  let _ ← offline.connect c
  let options ← c.settings.options
  .ok options.reportPath

/-- How a run of the program goes. -/
def offlineCourse (vars : Variables) (now : Instant) : Course :=
  match Config.load vars now with
  | .error fault => .refused fault
  | .ok c => .ran c false (offlineResult c)

/-- A line as it is printed. -/
def printed (now : Instant) (line : LogLine) : String :=
  let level := line.level.name
  now.zuluStamp ++ " " ++ "".pushn ' ' (5 - level.length) ++ level ++ " " ++ LogFilter.programTarget ++ ": "
    ++ line.text

/-- What the clock on the wall shows. -/
def readClock : IO Instant := do
  let t ← Std.Time.Timestamp.now
  let nanos := t.toNanosecondsSinceUnixEpoch.val
  return ⟨nanos / 1000000000, (nanos % 1000000000).toNat⟩

/-- The text of the file of variables. -/
def readEnvFile : IO String := do
  try IO.FS.readFile ".env"
  catch _ => return ""

/-- The variables of these names. -/
def readVariables (names : List String) : IO Variables := do
  let found ← names.mapM fun name => do return (name, ← IO.getEnv name)
  return fun name => (found.lookup name).join

end PayloadGate

open PayloadGate in
/-- **The program.** -/
def main : IO UInt32 := do
  let file ← readEnvFile
  let found ← readVariables (configVariables ++ EnvFile.mentioned file)
  let vars := EnvFile.load found file
  let course := offlineCourse vars (← readClock)
  for line in course.shown (.ofVariables vars) do
    IO.println (printed (← readClock) line)
  return course.exitCode.toUInt32
