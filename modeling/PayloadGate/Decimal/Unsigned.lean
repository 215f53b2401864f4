/-! # Unsigned decimal numbers

* **`digits?`** — the value of a text of ASCII digits, of any length.
* **`unsigned?`** — a number below a limit as settings and counts are written: digits after an
  optional plus sign. -/

namespace PayloadGate.Decimal

/-- The value of a list of digit characters, most significant first. -/
def digitsValue (cs : List Char) : Nat := Nat.ofDigitChars 10 cs 0

/-- **The value of a text of one or more ASCII digits.** -/
def digits? (cs : List Char) : Option Nat :=
  if cs ≠ [] ∧ cs.all Char.isDigit then some (digitsValue cs) else none

/-- **A number below `limit`**: an optional plus sign, then digits; leading zeros are allowed. -/
def unsigned? (limit : Nat) (cs : List Char) : Option Nat :=
  (digits? (match cs with | '+' :: rest => rest | _ => cs)).filter (· < limit)

/-- The first number past those of 32 bits, `2 ^ 32`. -/
def limit32 : Nat := 4294967296

/-- The first number past those of 64 bits, `2 ^ 64`. -/
def limit64 : Nat := 18446744073709551616

/-- The decimal text of a number, without leading zeros. -/
def text (n : Nat) : String := toString n

end PayloadGate.Decimal
