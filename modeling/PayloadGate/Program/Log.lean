import PayloadGate.Decimal.Unsigned
import PayloadGate.Text.Blank

/-! # The log of the program

* **`LogLine`** — a line of the log, with its **`LogLevel`**.
* **`LogFilter`** — which lines are shown; **`LogFilter.ofText`** reads it, **`LogFilter.shows`** applies it.

A filter is a list of directives: `level` for everything, `target=level` for what comes from the parts of a program
whose names start with the target, `target` alone for all of it. The directive with the longest target counts. -/

namespace PayloadGate

/-- **The level of a line.** -/
inductive LogLevel where
  /-- A failure. -/
  | error
  /-- Something to look at. -/
  | warn
  /-- Something to know. -/
  | info
  deriving DecidableEq, Repr

namespace LogLevel

/-- The name of a level. -/
def name : LogLevel → String
  | error => "ERROR"
  | warn => "WARN"
  | info => "INFO"

/-- How much has to be shown for lines of this level to be among it. -/
def rank : LogLevel → Nat
  | error => 1
  | warn => 2
  | info => 3

end LogLevel

/-- **A line of the log.** -/
structure LogLine where
  /-- The level. -/
  level : LogLevel
  /-- The text. -/
  text : String
  deriving DecidableEq, Repr

/-- A directive of a filter. -/
structure LogDirective where
  /-- What it is about; everything when empty. -/
  target : String
  /-- How much of it is shown, from nothing at zero to everything at five. -/
  rank : Nat
  deriving DecidableEq, Repr

namespace LogDirective

/-- The names of the ranks, from zero on. -/
def rankNames : List String := ["off", "error", "warn", "info", "debug", "trace"]

/-- The rank of a name in `rankNames`, in any case, or of a number. Without a name it is that of errors. -/
def rank? (text : String) : Option Nat :=
  match Decimal.unsigned? Decimal.limit64 text.toList with
  | some n => if n < rankNames.length then some n else none
  | none =>
    -- nothing behind the `=` of a target stands for errors
    if text = "" then some 1
    else rankNames.findIdx? (· = String.ofList (text.toList.map Char.toLower))

/-- Whether a character can begin a directive. -/
def begins (c : Char) : Bool := c.isAlphanum || c == '_' || c == '-' || c == ':' || 0x80 ≤ c.toNat

/-- **The directive of a text**, if it is one: a rank alone, a target alone, or a target with a rank behind `=`. -/
def ofText? (text : String) : Option LogDirective :=
  let text := Text.trim text
  if (text.toList.head?).all begins then
    match Text.splitFirst? '=' text with
    | some (target, level) => (rank? level).map fun r => ⟨target, r⟩
    | none =>
      match rank? text with
      | some r => some ⟨"", r⟩
      -- a target alone shows all that it has
      | none => some ⟨text, 5⟩
  else none

/-- Of two directives the one that counts: the one with the longer target, of two alike the later one. -/
def better (best : Option LogDirective) (d : LogDirective) : Option LogDirective :=
  match best with
  | some b => if d.target.length < b.target.length then best else some d
  | none => some d

end LogDirective

/-- **Which lines are shown.** -/
structure LogFilter where
  /-- The directives. -/
  directives : List LogDirective
  deriving DecidableEq, Repr

namespace LogFilter

/-- What the lines of the program come from. -/
def programTarget : String := "jobrun_analyzer"

/-- **The filter of a text**, whose directives are separated by commas. Malformed ones do not count; without any, errors
are shown. -/
def ofText (text : String) : LogFilter :=
  let found := ((Text.pieces ',' text).filter (· ≠ "")).filterMap LogDirective.ofText?
  ⟨if found.isEmpty then [⟨"", 1⟩] else found⟩

/-- How much of the program is shown: the rank of the directive that is `better` than all others with a target that
`programTarget` begins with. -/
def rank (f : LogFilter) : Nat :=
  let about := f.directives.filter fun d => d.target.toList.isPrefixOf programTarget.toList
  ((about.foldl LogDirective.better none).map (·.rank)).getD 0

/-- **Whether a line is shown**: its level ranks at most as high as what is shown. -/
def shows (f : LogFilter) (line : LogLine) : Bool := decide (line.level.rank ≤ f.rank)

end LogFilter

end PayloadGate
