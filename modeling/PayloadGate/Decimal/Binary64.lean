/-! # Binary floating point numbers of 64 bits

* **`Magnitude`** — a finite non-negative number `significand * 2 ^ exponent / 2 ^ 1074`, in the one form
  that fits the format.
* **`Magnitude.nearest?`** — the magnitude nearest to a quotient, an exact half going to the even
  significand; `none` when the quotient is too large for the format.
* **`Binary64`** — the numbers of the format. -/

namespace PayloadGate.Decimal

/-- The first number of more than 53 bits, `2 ^ 53`. -/
def significandLimit : Nat := 9007199254740992

/-- The first number of 53 bits, `2 ^ 52`. -/
def leadingBit : Nat := 4503599627370496

/-- **A finite number without its sign**, in units of `2 ^ -1074`. -/
structure Magnitude where
  /-- The leading bits. -/
  significand : Nat
  /-- How often they are doubled. -/
  exponent : Nat
  /-- There are at most 53 of them. -/
  significand_lt : significand < significandLimit
  /-- There are fewer only where the exponent cannot be smaller. -/
  normal : exponent = 0 ∨ leadingBit ≤ significand
  /-- The largest number of the format has this exponent. -/
  exponent_le : exponent ≤ 2045
  deriving DecidableEq

namespace Magnitude

/-- The number zero. -/
def zero : Magnitude := ⟨0, 0, by decide, .inl rfl, by decide⟩

/-- The magnitude with the given parts, when the format has it in this form. -/
def ofParts? (significand exponent : Nat) : Option Magnitude :=
  if h : significand < significandLimit ∧ (exponent = 0 ∨ leadingBit ≤ significand) ∧ exponent ≤ 2045 then
    some ⟨significand, exponent, h.1, h.2.1, h.2.2⟩
  else none

/-- The value in units of `2 ^ -1074`. -/
def units (m : Magnitude) : Nat := m.significand * Nat.pow 2 m.exponent

/-- A quotient rounded to a whole number, an exact half to the even neighbour. -/
def roundQuotient (num den : Nat) : Nat :=
  let floor := num / den
  let rest := num % den
  if 2 * rest < den then floor
  else if den < 2 * rest then floor + 1
  -- exactly between two numbers, the even one
  else if floor % 2 = 0 then floor else floor + 1

/-- The exponent at which a number of units keeps 53 bits. -/
def exponentFor (units : Nat) : Nat := Nat.log2 units - 52

/-- **The magnitude nearest to `num / den`.** -/
def nearest? (num den : Nat) : Option Magnitude :=
  let scaled := num * Nat.pow 2 1074
  let exponent := exponentFor (scaled / den)
  let significand := roundQuotient scaled (den * Nat.pow 2 exponent)
  -- rounding up has come to the next power of two
  if significand = significandLimit then ofParts? leadingBit (exponent + 1) else ofParts? significand exponent

end Magnitude

/-- **A number of the format.** -/
inductive Binary64 where
  /-- Not a number. -/
  | nan
  /-- An infinity. -/
  | infinite (negative : Bool)
  /-- A finite number; there are two zeros. -/
  | finite (negative : Bool) (magnitude : Magnitude)
  deriving DecidableEq

namespace Binary64

/-- The positive zero. -/
def zero : Binary64 := .finite false .zero

end Binary64

end PayloadGate.Decimal
