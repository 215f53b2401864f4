import PayloadGate.Decimal.Binary64
import PayloadGate.Decimal.Unsigned

/-! # The decimal text of a floating point number

* **`Magnitude.shortest`** — of the decimal numbers that read back as a magnitude, one with the fewest
  digits, and of those the nearest; of two equally near ones the larger.
* **`Binary64.text`** — its digits in positional notation, without a point when the number is whole.
* **`Binary64.ofText?`** — the reader: digits with an optional point and an optional exponent, or a word
  for an infinity or for no number. -/

namespace PayloadGate.Decimal

/-! ## Writing -/

/-- A decimal number `digits * 10 ^ places / 10 ^ 1074`. -/
structure Decimal1074 where
  /-- The digits as a number. -/
  digits : Nat
  /-- How often they are multiplied by ten. -/
  places : Nat

namespace Magnitude

/-- The value of a magnitude in units of `10 ^ -1074`, which is always whole. -/
def decimalUnits (m : Magnitude) : Nat := m.units * Nat.pow 5 1074

/-- Whether a number of units of `10 ^ -1074` reads back as `m`. -/
def readsBack (m : Magnitude) (units : Nat) : Bool := nearest? units (Nat.pow 10 1074) == some m

/-- **The best decimal with the given step** that reads back as `m`: one of the two neighbours of the
value on the grid of the step. -/
def onGrid? (m : Magnitude) (places : Nat) : Option Decimal1074 :=
  let value := m.decimalUnits
  let step := Nat.pow 10 places
  let below := value / step
  let lowOk := m.readsBack (below * step)
  let highOk := m.readsBack ((below + 1) * step)
  if lowOk && highOk then
    -- half a step is rounded up
    some (if 2 * (value % step) < step then ⟨below, places⟩ else ⟨below + 1, places⟩)
  else if lowOk then some ⟨below, places⟩
  else if highOk then some ⟨below + 1, places⟩
  else none

/-- The first grid, from the given one to finer ones, on which a neighbour of the value reads back. The
finest grid holds the value itself. -/
def search (m : Magnitude) : Nat → Decimal1074
  | 0 => ⟨m.decimalUnits, 0⟩
  | places + 1 => (m.onGrid? (places + 1)).getD (m.search places)

/-- **A shortest decimal that reads back as `m`.** -/
def shortest (m : Magnitude) : Decimal1074 := m.search ((text m.decimalUnits).length - 1)

end Magnitude

/-- The digits of a fraction without the zeros at their end, and the point before them. -/
def fractionText (digits : List Char) : List Char :=
  match (digits.reverse.dropWhile (· == '0')).reverse with
  | [] => []
  | ds => '.' :: ds

/-- **A decimal number in positional notation.** -/
def Decimal1074.text (d : Decimal1074) : List Char :=
  let all := (Decimal.text (d.digits * Nat.pow 10 d.places)).toList
  let padded := List.replicate (1075 - all.length) '0' ++ all
  padded.take (padded.length - 1074) ++ fractionText (padded.drop (padded.length - 1074))

/-- **The text of a number.** -/
def Binary64.text : Binary64 → List Char
  | .nan => "NaN".toList
  | .infinite negative => (if negative then ['-'] else []) ++ "inf".toList
  | .finite negative m => (if negative then ['-'] else []) ++ m.shortest.text

/-! ## Reading -/

/-- Powers of ten beyond which every number is infinite, and below which every number is zero. -/
def decimalRange : Int × Int := (310, -330)

/-- **The number nearest to `digits * 10 ^ exponent`.** -/
def Binary64.ofDecimal (negative : Bool) (digits : Nat) (exponent : Int) : Binary64 :=
  let top : Int := (Decimal.text digits).length + exponent
  if digits = 0 ∨ top < decimalRange.2 then .finite negative .zero
  else if decimalRange.1 < top then .infinite negative
  else
    -- one of the two powers is `1`
    match Magnitude.nearest? (digits * Nat.pow 10 exponent.toNat) (Nat.pow 10 (-exponent).toNat) with
    | some m => .finite negative m
    | none => .infinite negative

/-- The exponent at the end of a number: nothing, or an `e` of either case, an optional sign and
digits. -/
def exponent? : List Char → Option Int
  | [] => some 0
  | c :: cs =>
    if c = 'e' ∨ c = 'E' then
      match cs with
      | '+' :: ds => (digits? ds).map fun n => (n : Int)
      | '-' :: ds => (digits? ds).map fun n => -(n : Int)
      | ds => (digits? ds).map fun n => (n : Int)
    else none

/-- Digits with an optional point among them, before it or behind it, and an exponent. -/
def unsignedNumber? (negative : Bool) (cs : List Char) : Option Binary64 := do
  let whole := cs.takeWhile Char.isDigit
  -- without a point there is no fraction
  let (fraction, rest) := match cs.dropWhile Char.isDigit with
    | '.' :: r => (r.takeWhile Char.isDigit, r.dropWhile Char.isDigit)
    | r => ([], r)
  let digits ← digits? (whole ++ fraction)
  let exponent ← exponent? rest
  some (.ofDecimal negative digits (exponent - fraction.length))

/-- **The number that a text spells.** -/
def Binary64.ofText? (cs : List Char) : Option Binary64 :=
  let (negative, cs) := match cs with
    | '-' :: r => (true, r)
    | '+' :: r => (false, r)
    | _ => (false, cs)
  let word := String.ofList (cs.map Char.toLower)
  if word = "nan" then some .nan
  else if word = "inf" ∨ word = "infinity" then some (.infinite negative)
  else unsignedNumber? negative cs

end PayloadGate.Decimal
