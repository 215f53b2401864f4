import PayloadGate.Json.Value
import PayloadGate.Text.Utf8

/-! # Reading JSON

* **`Json.parse`** — the value that a sequence of bytes spells, with nothing but blanks around it.

The grammar is that of RFC 8259. Its characters are read from UTF-8; a byte that belongs to no
character is accepted only inside a string, which then stands for no text. -/

namespace PayloadGate.Json

/-- A character of the input, or a byte that belongs to none. -/
abbrev Symbol := Option Char

/-- A reader answers with the part read and the rest. -/
abbrev Reader (α : Type) := List Symbol → Option (α × List Symbol)

/-- The blanks of JSON. -/
def isBlank : Symbol → Bool
  | some ' ' | some '\t' | some '\n' | some '\r' => true
  | _ => false

/-- The input without the blanks at its start. -/
def skipBlanks (cs : List Symbol) : List Symbol := cs.dropWhile isBlank

/-! ## Strings -/

/-- The value of a hexadecimal digit. -/
def hexDigit? : Symbol → Option Nat
  | some c =>
    if '0' ≤ c ∧ c ≤ '9' then some (c.toNat - '0'.toNat)
    else if 'a' ≤ c ∧ c ≤ 'f' then some (c.toNat - 'a'.toNat + 10)
    else if 'A' ≤ c ∧ c ≤ 'F' then some (c.toNat - 'A'.toNat + 10)
    else none
  | none => none

/-- Four hexadecimal digits. -/
def hex4? (a b c d : Symbol) : Option Nat := do
  some (4096 * (← hexDigit? a) + 256 * (← hexDigit? b) + 16 * (← hexDigit? c) + (← hexDigit? d))

/-- What a unit of a string stands for: a character, half of a surrogate pair, or nothing. -/
inductive Piece where
  /-- A character. -/
  | char (c : Char)
  /-- A code unit given by its number. -/
  | codeUnit (n : Nat)
  /-- A byte of no character. -/
  | broken

/-- The character that an escape of one letter stands for. -/
def escape? : Char → Option Char
  | '"' => some '"'
  | '\\' => some '\\'
  | '/' => some '/'
  | 'b' => some '\x08'
  | 'f' => some '\x0c'
  | 'n' => some '\n'
  | 'r' => some '\r'
  | 't' => some '\t'
  | _ => none

/-- The units of a string up to its closing quote. Control characters and unknown escapes have no
place in a string. -/
def pieces : List Symbol → Option (List Piece × List Symbol)
  | [] => none
  | some '"' :: cs => some ([], cs)
  | some '\\' :: some 'u' :: a :: b :: c :: d :: cs => do
    let n ← hex4? a b c d
    let (rest, left) ← pieces cs
    some (.codeUnit n :: rest, left)
  | some '\\' :: some e :: cs => do
    let c ← escape? e
    let (rest, left) ← pieces cs
    some (.char c :: rest, left)
  | some c :: cs =>
    -- a backslash without its escape, or a control character
    if c = '\\' ∨ c.toNat < 0x20 then none
    else do
      let (rest, left) ← pieces cs
      some (.char c :: rest, left)
  | none :: cs => do
    let (rest, left) ← pieces cs
    some (.broken :: rest, left)

/-- The text that the units stand for: a high surrogate, `D800` to `DBFF`, must be followed by a low one, `DC00` to
`DFFF`, and no low one stands alone. -/
def textOf : List Piece → Option (List Char)
  | [] => some []
  | .char c :: ps => (textOf ps).map (c :: ·)
  | .codeUnit n :: .codeUnit m :: ps =>
    if 0xD800 ≤ n ∧ n < 0xDC00 then
      -- a surrogate pair stands for one character beyond the first plane
      if 0xDC00 ≤ m ∧ m < 0xE000 then
        (textOf ps).map (Char.ofNat (0x10000 + (n - 0xD800) * 0x400 + (m - 0xDC00)) :: ·)
      else none
    else if 0xDC00 ≤ n ∧ n < 0xE000 then none
    else (textOf (.codeUnit m :: ps)).map (Char.ofNat n :: ·)
  | .codeUnit n :: ps =>
    if 0xD800 ≤ n ∧ n < 0xE000 then none else (textOf ps).map (Char.ofNat n :: ·)
  | .broken :: _ => none

/-- A string after its opening quote. -/
def stringBody : Reader (Option String) := fun cs => do
  let (ps, rest) ← pieces cs
  some ((textOf ps).map String.ofList, rest)

/-! ## Numbers and words -/

/-- A decimal digit. -/
def isDigit : Symbol → Bool
  | some c => c.isDigit
  | none => false

/-- The digits at the start. -/
def digits (cs : List Symbol) : List Symbol × List Symbol := cs.span isDigit

/-- One or more digits. -/
def someDigits? (cs : List Symbol) : Option (List Symbol × List Symbol) :=
  match digits cs with
  | ([], _) => none
  | r => some r

/-- The digits before the point: a single `0`, or digits that do not start with one. -/
def wholePart? : List Symbol → Option (List Symbol × List Symbol)
  -- no digit may follow a leading zero
  | some '0' :: cs => if (cs.head?.map isDigit).getD false then none else some ([some '0'], cs)
  | cs => someDigits? cs

/-- The optional point with digits behind it. -/
def fractionPart? : List Symbol → Option (List Symbol × List Symbol)
  | some '.' :: cs => (someDigits? cs).map fun (ds, r) => (some '.' :: ds, r)
  | cs => some ([], cs)

/-- The optional exponent. -/
def exponentPart? : List Symbol → Option (List Symbol × List Symbol)
  | some 'e' :: cs => signed (some 'e') cs
  | some 'E' :: cs => signed (some 'E') cs
  | cs => some ([], cs)
where
  /-- Digits after an optional sign. -/
  signed (mark : Symbol) : List Symbol → Option (List Symbol × List Symbol)
    | some '+' :: cs => (someDigits? cs).map fun (ds, r) => (mark :: some '+' :: ds, r)
    | some '-' :: cs => (someDigits? cs).map fun (ds, r) => (mark :: some '-' :: ds, r)
    | cs => (someDigits? cs).map fun (ds, r) => (mark :: ds, r)

/-- A number, spelled as it stands: an optional `-`, then `wholePart?`, `fractionPart?` and `exponentPart?`. -/
def number? (cs : List Symbol) : Option (Value × List Symbol) := do
  let (sign, cs) := match cs with
    | some '-' :: rest => ([some '-'], rest)
    | _ => ([], cs)
  let (whole, cs) ← wholePart? cs
  let (fraction, cs) ← fractionPart? cs
  let (exponent, cs) ← exponentPart? cs
  some (.number (String.ofList ((sign ++ whole ++ fraction ++ exponent).filterMap id)), cs)

/-- The value of a word, when the input goes on with its letters. -/
def word? (letters : String) (value : Value) (cs : List Symbol) : Option (Value × List Symbol) :=
  ((letters.toList.map some).isPrefixOf? cs).map fun rest => (value, rest)

/-! ## Values -/

mutual
/-- A value after optional blanks; `fuel` bounds the number of its parts. -/
def value (fuel : Nat) (cs : List Symbol) : Option (Value × List Symbol) :=
  match fuel with
  | 0 => none
  | fuel + 1 =>
    match skipBlanks cs with
    | some '"' :: cs => (stringBody cs).map fun (s, rest) => (.text s, rest)
    | some '[' :: cs =>
      match skipBlanks cs with
      | some ']' :: rest => some (.list [], rest)
      | cs => (items fuel cs).map fun (vs, rest) => (.list vs, rest)
    | some '\x7b' :: cs =>
      match skipBlanks cs with
      | some '\x7d' :: rest => some (.object [], rest)
      | cs => (members fuel cs).map fun (ms, rest) => (.object ms, rest)
    | some 'n' :: cs => word? "ull" .null cs
    | some 't' :: cs => word? "rue" (.bool true) cs
    | some 'f' :: cs => word? "alse" (.bool false) cs
    | cs => number? cs
termination_by structural fuel

/-- The items of a list up to its closing bracket, at least one. -/
def items (fuel : Nat) (cs : List Symbol) : Option (List Value × List Symbol) :=
  match fuel with
  | 0 => none
  | fuel + 1 => do
    let (v, cs) ← value fuel cs
    match skipBlanks cs with
    | some ']' :: rest => some ([v], rest)
    | some ',' :: rest => (items fuel rest).map fun (vs, left) => (v :: vs, left)
    | _ => none
termination_by structural fuel

/-- The members of an object up to its closing brace, at least one. -/
def members (fuel : Nat) (cs : List Symbol) : Option (List (Option String × Value) × List Symbol) :=
  match fuel with
  | 0 => none
  | fuel + 1 =>
    match skipBlanks cs with
    | some '"' :: cs => do
      let (name, cs) ← stringBody cs
      match skipBlanks cs with
      | some ':' :: cs =>
        let (v, cs) ← value fuel cs
        match skipBlanks cs with
        | some '\x7d' :: rest => some ([(name, v)], rest)
        | some ',' :: rest => (members fuel rest).map fun (ms, left) => ((name, v) :: ms, left)
        | _ => none
      | _ => none
    | _ => none
termination_by structural fuel
end

/-- **The value that a text spells**, with nothing but blanks behind it. A nested value
takes two steps and at least one character, so twice the length of the text is fuel enough. -/
def ofSymbols? (cs : List Symbol) : Option Value := do
  let (v, rest) ← value (2 * cs.length + 2) cs
  if (skipBlanks rest).isEmpty then some v else none

/-- **The value that a sequence of bytes spells**, a byte of no character being a symbol `none` that has no place
outside strings. -/
def parse (bytes : List UInt8) : Option Value := ofSymbols? (Text.Utf8.scan bytes)

end PayloadGate.Json
