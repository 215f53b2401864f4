import PayloadGate.Decimal.Unsigned

/-! # References in character data

* **`reference?`** — the character that a reference names: one of five by name, any other by number.
* **`resolve?`** — character data with its references resolved; nothing when one of them is unknown or is
  not closed before the next one starts.
* **`escape`** — character data in which the characters that have a meaning are written as references. -/

namespace PayloadGate.Markup

/-- The value of a hexadecimal digit, in either case. -/
def hexDigit? (c : Char) : Option Nat :=
  if c.isDigit then some (c.toNat - 48)
  else if 'a' ≤ c ∧ c ≤ 'f' then some (c.toNat - 87)
  else if 'A' ≤ c ∧ c ≤ 'F' then some (c.toNat - 55)
  else none

/-- The value of a text of one or more hexadecimal digits, `none` for any other text. -/
def hexDigits? (cs : List Char) : Option Nat :=
  if cs = [] then none else (cs.mapM hexDigit?).map (·.foldl (fun n d => 16 * n + d) 0)

/-- The character of the number `n`; zero, surrogates and numbers past the last character have none. -/
def charOfNumber? (n : Nat) : Option Char :=
  if h : n ≠ 0 ∧ n.isValidChar then some ⟨n.toUInt32, by
    have hlt : n < 4294967296 := by rcases h.2 with h | h <;> omega
    simpa [UInt32.isValidChar, Nat.toUInt32, UInt32.toNat_ofNat_of_lt' hlt] using h.2⟩
  else none

/-- **The character that a reference names**, by the `body` between `&` and `;`: one of the five names, or a number. -/
def reference? (body : List Char) : Option Char :=
  match body with
  | '#' :: 'x' :: digits => hexDigits? digits >>= charOfNumber?
  | '#' :: digits => Decimal.digits? digits >>= charOfNumber?
  | _ =>
    -- the five names that need no declaration
    [("lt", '<'), ("gt", '>'), ("amp", '&'), ("apos", '\x27'), ("quot", '\x22')].lookup
      (String.ofList body)

/-- The resolved data behind a `&` of which the given body has been seen, last character first; outside
of references there is no body. -/
def resolveFrom? : Option (List Char) → List Char → Option (List Char)
  | none, [] => some []
  -- a `&` without the `;` that ends its reference
  | some _, [] => none
  | none, c :: cs => if c = '&' then resolveFrom? (some []) cs else (resolveFrom? none cs).map (c :: ·)
  | some seen, c :: cs =>
    if c = ';' then do
      let d ← reference? seen.reverse
      let ds ← resolveFrom? none cs
      some (d :: ds)
    else if c = '&' then none
    else resolveFrom? (some (c :: seen)) cs

/-- **Character data with its references resolved**, `none` when one is unknown or not closed. -/
def resolve? (raw : List Char) : Option (List Char) := resolveFrom? none raw

/-- How a character of character data is written: `<`, `>` and `&` by their names. -/
def escapeChar (c : Char) : List Char :=
  if c = '<' then "&lt;".toList
  else if c = '>' then "&gt;".toList
  else if c = '&' then "&amp;".toList
  else [c]

/-- **Character data as it is written**, character by character. -/
def escape (cs : List Char) : List Char := cs.flatMap escapeChar

/-- How a character is written between double quotes: the quotation mark by its name, too. -/
def escapeQuotedChar (c : Char) : List Char :=
  if c = '\x22' then "&quot;".toList else escapeChar c

/-- **The value of an attribute as it is written**, between double quotes, character by character. -/
def escapeQuoted (cs : List Char) : List Char := cs.flatMap escapeQuotedChar

end PayloadGate.Markup
