import PayloadGate.Time.Calendar

/-! # Instants and spans

An **`Instant`** counts seconds since the start of 1970 (UTC) and nanoseconds within the second.
A leap second has no second of its own: it is told by a nanosecond count of `10^9` or more on top of
the second before it. Spans are signed numbers of nanoseconds.

Both are unbounded here. The calendar of a program ends somewhere: its instants are those of the years `-262143` to
`262142`, its spans those of up to `2^63 - 1` milliseconds in either direction. Within them `t.plus span` and
`t.minus span` are the instants of the program. Where one of them lies beyond, there is no such instant and the program
stops, so that nothing that is stated about `t.plus span` is about a run of it.

* **`Instant.since`** — the span between two instants.
* **`Instant.plus`** — an instant a span later. -/

namespace PayloadGate.Time

/-- A signed number of nanoseconds. -/
abbrev Span := Int

/-- The nanoseconds of a second. -/
def nanosPerSecond : Nat := 1000000000

/-- The seconds of a day. -/
def secondsPerDay : Nat := 86400

/-- A span of whole milliseconds. -/
def milliseconds (n : Int) : Span := n * 1000000

/-- A span of whole seconds. -/
def seconds (n : Int) : Span := n * 1000000000

/-- **A point of time.** -/
structure Instant where
  /-- Seconds since the start of 1970. -/
  seconds : Int
  /-- Nanoseconds within the second, `10^9` or more within a leap second. -/
  nanos : Nat
  deriving DecidableEq, Repr

namespace Instant

/-- Instants are ordered by their second, then by their nanosecond. -/
instance : LT Instant :=
  ⟨fun a b => a.seconds < b.seconds ∨ (a.seconds = b.seconds ∧ a.nanos < b.nanos)⟩

instance (a b : Instant) : Decidable (a < b) :=
  inferInstanceAs (Decidable (a.seconds < b.seconds ∨ (a.seconds = b.seconds ∧ a.nanos < b.nanos)))

/-- Whether the instant lies within a leap second: `nanos` counts past `nanosPerSecond`. -/
def isLeap (t : Instant) : Bool := nanosPerSecond ≤ t.nanos

/-- The second of the day. -/
def secondOfDay (t : Instant) : Nat := (t.seconds % secondsPerDay).toNat

/-- **The span from `earlier` to `later`.** A leap second between the two, by the time of day, counts
as a second more. -/
def since (later earlier : Instant) : Span :=
  let leap : Int :=
    if earlier.isLeap && earlier.secondOfDay < later.secondOfDay then 1
    else if later.isLeap && later.secondOfDay < earlier.secondOfDay then -1
    else 0
  (later.seconds - earlier.seconds + leap) * nanosPerSecond + ((later.nanos : Int) - earlier.nanos)

/-- The instant `nanos` nanoseconds after the start of a second, where `nanos` may be negative or more than a second. -/
def ofNanos (second : Int) (nanos : Int) : Instant :=
  ⟨second + nanos / nanosPerSecond, (nanos % nanosPerSecond).toNat⟩

/-- **The instant a span later.** A step within a leap second stays in it; a step out of it counts
from the second before, or going back from the second after. It stands for an instant of the calendar when its year is
one of `-262143` to `262142`. -/
def plus (t : Instant) (span : Span) : Instant :=
  let whole := span.tdiv nanosPerSecond
  let rest := span.tmod nanosPerSecond
  if !t.isLeap then ofNanos (t.seconds + whole) (t.nanos + rest)
  -- forward out of the leap second, the count is from the second before it
  else if 0 < whole ∨ (0 < rest ∧ 2 * (nanosPerSecond : Int) ≤ t.nanos + rest) then
    ofNanos (t.seconds + whole) (t.nanos - nanosPerSecond + rest)
  -- backward, it is from the second behind it
  else if whole < 0 then ofNanos (t.seconds + 1 + whole) (t.nanos - nanosPerSecond + rest)
  else ⟨t.seconds, (t.nanos + rest).toNat⟩

/-- The instant a span earlier: `t.plus (-span)`, with the same range of years. -/
def minus (t : Instant) (span : Span) : Instant := t.plus (-span)

end Instant

end PayloadGate.Time
