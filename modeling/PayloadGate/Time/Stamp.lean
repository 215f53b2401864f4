import PayloadGate.Time.Instant
import PayloadGate.Text.Blank
import PayloadGate.Decimal.Unsigned

/-! # Written timestamps

* **`Instant.stamp`** — date, time of day and a fraction of 3, 6 or 9 digits when one is needed, with
  the separator and the zone mark of the format that asks.
* **`Instant.ofStrict?`** — the reader of RFC 3339.
* **`Instant.ofLax?`** — a reader that also takes single digits, blanks between the parts and years
  of other lengths.

Both readers take the second 60 for a leap second and a fraction of any length, of which the first
nine digits count. -/

namespace PayloadGate.Time

/-! ## Writing -/

/-- The decimal text of `n` with leading zeros up to `width` characters. -/
def padded (width n : Nat) : String :=
  let digits := Decimal.text n
  String.ofList (List.replicate (width - digits.length) '0') ++ digits

namespace Instant

/-- The year as it is written: four digits, and a sign when the year needs more or is negative. -/
def yearText (year : Int) : String :=
  if 0 ≤ year ∧ year ≤ 9999 then padded 4 year.toNat
  else (if year < 0 then "-" else "+") ++ padded 4 year.natAbs

/-- The fraction of a second: nothing for `0`, or a point and the fewest of 3, 6 and 9 digits that keep the value. -/
def fractionText (nanos : Nat) : String :=
  if nanos == 0 then ""
  else if nanos % 1000000 == 0 then "." ++ padded 3 (nanos / 1000000)
  else if nanos % 1000 == 0 then "." ++ padded 6 (nanos / 1000)
  else "." ++ padded 9 nanos

/-- **A timestamp** with the given text between date and time and the given text at its end. -/
def stamp (separator zone : String) (t : Instant) : String :=
  let date := Date.ofDayNumber (t.seconds / secondsPerDay)
  let second := t.secondOfDay
  yearText date.year ++ "-" ++ padded 2 date.month ++ "-" ++ padded 2 date.day ++ separator
    ++ padded 2 (second / 3600) ++ ":" ++ padded 2 (second / 60 % 60) ++ ":"
    ++ padded 2 (second % 60 + if t.isLeap then 1 else 0)
    ++ fractionText (t.nanos % nanosPerSecond) ++ zone

/-- A timestamp that ends in a numeric offset: `separator` is `T` and `zone` is `+00:00`. -/
def offsetStamp (t : Instant) : String := t.stamp "T" "+00:00"

/-- A timestamp that ends in `Z`, as run descriptors hold it. -/
def zuluStamp (t : Instant) : String := t.stamp "T" "Z"

/-- A timestamp as messages show it, with a space between date and time and `UTC` behind a space. -/
def spokenStamp (t : Instant) : String := t.stamp " " " UTC"

end Instant

/-! ## Reading -/

namespace Stamp

/-- What is left of a text after a part of it was read. -/
abbrev Reader (α : Type) := List Char → Option (α × List Char)

/-- The longest run of digits at the start, at most `most` of them; `none` when it has fewer than `least`. -/
def number (least most : Nat) : Reader Nat := fun cs =>
  let digits := (cs.take most).takeWhile Char.isDigit
  if least ≤ digits.length then some (Decimal.digitsValue digits, cs.drop digits.length) else none

/-- One given character. -/
def mark (c : Char) : Reader Unit
  | d :: cs => if d = c then some ((), cs) else none
  | [] => none

/-- The character between date and time: a `T` of either case or a space. -/
def separator : Reader Unit
  | d :: cs => if d = 'T' ∨ d = 't' ∨ d = ' ' then some ((), cs) else none
  | [] => none

/-- An optional fraction of a second, in nanoseconds: one to nine digits behind a point, filled up with zeros. Digits
after the ninth are passed over. -/
def fraction : Reader Nat
  | '.' :: cs => do
    let (value, rest) ← number 1 9 cs
    let used := cs.length - rest.length
    some (value * Nat.pow 10 (9 - used), rest.dropWhile Char.isDigit)
  | cs => some (0, cs)

/-- The offset from UTC in seconds: `Z`, or a sign, two digits of hours, whatever `between` passes
over, and two digits of minutes below 60. -/
def offset (between : List Char → Option (List Char)) : Reader Int
  | [] => none
  | c :: cs =>
    if c = 'Z' ∨ c = 'z' then some (0, cs)
    else if c = '+' ∨ c = '-' ∨ c = '\u2212' then do
      let (hours, cs) ← number 2 2 cs
      let cs ← between cs
      let (minutes, cs) ← number 2 2 cs
      if minutes < 60 then
        let span : Int := hours * 3600 + minutes * 60
        some (if c = '+' then span else -span, cs)
      else none
    else none

/-- The years that dates can have. -/
def yearInRange (year : Int) : Bool := -262143 ≤ year && year ≤ 262142

/-- The instant of a written date, time and offset, when all of them exist. The second `60` is read as the last
nanoseconds of second `59`, a leap second. -/
def instant? (date : Date) (hour minute second nanos : Nat) (offset : Int) : Option Instant :=
  if date.isValid && yearInRange date.year && hour < 24 && minute < 60 && second ≤ 60
      && offset.natAbs < secondsPerDay then
    -- a leap second counts as the second before it, with nanoseconds beyond its end
    let seconds := date.dayNumber * secondsPerDay + hour * 3600 + minute * 60 + min second 59 - offset
    -- the offset may lead out of the calendar
    if yearInRange (Date.ofDayNumber (seconds / secondsPerDay)).year then
      some ⟨seconds, nanos + if second = 60 then nanosPerSecond else 0⟩
    else none
  else none

/-- The text without the blanks at its start. -/
def skipBlanks (cs : List Char) : List Char := cs.dropWhile Text.isBlank

/-- A number after optional blanks. -/
def spacedNumber (most : Nat) : Reader Nat := fun cs => number 1 most (skipBlanks cs)

/-- A character after optional blanks. -/
def spacedMark (c : Char) : Reader Unit := fun cs => mark c (skipBlanks cs)

/-- A year after optional blanks: with a sign any number of digits, without one at most four. -/
def spacedYear : Reader Int := fun cs =>
  match skipBlanks cs with
  | '-' :: rest => (number 1 rest.length rest).map fun (n, left) => (-(n : Int), left)
  | '+' :: rest => (number 1 rest.length rest).map fun (n, left) => ((n : Int), left)
  | rest => (number 1 4 rest).map fun (n, left) => ((n : Int), left)

/-- The offset of the lax format: `UTC` in any case, or an offset with any colons and blanks between
hours and minutes. -/
def laxOffset : Reader Int
  | a :: b :: c :: cs =>
    if a.toUpper = 'U' ∧ b.toUpper = 'T' ∧ c.toUpper = 'C' then some (0, cs)
    else offset skip (a :: b :: c :: cs)
  | cs => offset skip cs
where
  /-- Passes over colons and blanks. -/
  skip (cs : List Char) : Option (List Char) :=
    some (cs.dropWhile fun c => c == ':' || Text.isBlank c)

end Stamp

namespace Instant

open Stamp

/-- **The reader of RFC 3339**: exactly two digits for each part, no blanks, and nothing behind the offset. -/
def ofStrict? (s : String) : Option Instant := do
  let (year, cs) ← number 4 4 s.toList
  let (_, cs) ← mark '-' cs
  let (month, cs) ← number 2 2 cs
  let (_, cs) ← mark '-' cs
  let (day, cs) ← number 2 2 cs
  let (_, cs) ← separator cs
  let (hour, cs) ← number 2 2 cs
  let (_, cs) ← mark ':' cs
  let (minute, cs) ← number 2 2 cs
  let (_, cs) ← mark ':' cs
  let (second, cs) ← number 2 2 cs
  let (nanos, cs) ← fraction cs
  let (offset, cs) ← offset (fun cs => (mark ':' cs).map (·.2)) cs
  if cs.isEmpty then instant? ⟨year, month, day⟩ hour minute second nanos offset else none

/-- **The lax reader**: blanks may stand before a number or a mark and at the end, a part may have fewer digits, and
`UTC` counts as an offset. -/
def ofLax? (s : String) : Option Instant := do
  let (year, cs) ← spacedYear s.toList
  let (_, cs) ← spacedMark '-' cs
  let (month, cs) ← spacedNumber 2 cs
  let (_, cs) ← spacedMark '-' cs
  let (day, cs) ← spacedNumber 2 cs
  let (_, cs) ← separator cs
  let (hour, cs) ← spacedNumber 2 cs
  let (_, cs) ← spacedMark ':' cs
  let (minute, cs) ← spacedNumber 2 cs
  let (_, cs) ← spacedMark ':' cs
  let (second, cs) ← spacedNumber 2 cs
  let (nanos, cs) ← fraction cs
  let (offset, cs) ← laxOffset (skipBlanks cs)
  if cs.all Text.isBlank then instant? ⟨year, month, day⟩ hour minute second nanos offset else none

end Instant

end PayloadGate.Time
