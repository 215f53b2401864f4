import PayloadGate.Decimal.Shortest

/-! # Texts as YAML scalars

* **`Yaml.scalar`** — a text as a scalar of a block mapping: plain where it can be read back as this very
  text, else in single quotes, in double quotes with escapes, or as a literal block when it has several
  lines.

Lines have no maximal length, so a scalar is broken only where the text itself has a line break. -/

namespace PayloadGate.Yaml

open Decimal (Binary64)

/-! ## Character classes -/

/-- Line breaks. -/
def isBreak (c : Char) : Bool :=
  c == '\n' || c == '\r' || c == '\u0085' || c == '\u2028' || c == '\u2029'

/-- Characters that stand for themselves. -/
def isPrintable (c : Char) : Bool :=
  let n := c.toNat
  n == 0xA || (0x20 ≤ n && n ≤ 0x7E) || (0xA0 ≤ n && n ≤ 0xFFFD && n != 0xFEFF) || 0x10000 ≤ n

/-- A blank, a line break or the end of the text. -/
def isSpaceOrEnd : Option Char → Bool
  | none => true
  | some c => c == ' ' || c == '\t' || isBreak c || c == '\x00'

/-! ## Texts that a plain scalar would turn into something else -/

/-- A sign, or none, and a zero with further digits: `007`, which is read as text. -/
def isZeroPadded (cs : List Char) : Bool :=
  match (match cs with | '-' :: r => r | '+' :: r => r | _ => cs) with
  | '0' :: d :: r => (d :: r).all Char.isDigit
  | _ => false

/-- The value of a digit of some base up to 16. -/
def digitValue? (c : Char) : Option Nat :=
  if c.isDigit then some (c.toNat - '0'.toNat)
  else if 'a' ≤ c ∧ c ≤ 'f' then some (c.toNat - 'a'.toNat + 10)
  else if 'A' ≤ c ∧ c ≤ 'F' then some (c.toNat - 'A'.toNat + 10)
  else none

/-- Whether the characters are one or more digits of a base with a value below `limit`. -/
def isBaseNumber (base limit : Nat) (cs : List Char) : Bool :=
  !cs.isEmpty &&
    match cs.mapM digitValue? with
    | some ds => ds.all (· < base) && ds.foldl (fun n d => n * base + d) 0 < limit
    | none => false

/-- A number with the mark of its base, below `limit`. -/
def isMarkedNumber (limit : Nat) : List Char → Bool
  | '0' :: 'x' :: ds => isBaseNumber 16 limit ds
  | '0' :: 'o' :: ds => isBaseNumber 8 limit ds
  | '0' :: 'b' :: ds => isBaseNumber 2 limit ds
  | _ => false

/-- A finite floating point number. -/
def isFinite (cs : List Char) : Bool :=
  match Binary64.ofText? cs with
  | some (.finite _ _) => true
  | _ => false

/-- Whether the characters start with a sign. -/
def isSigned : List Char → Bool
  | c :: _ => c == '+' || c == '-'
  | [] => false

/-- The words for infinities and for no number. -/
def floatWords : List String :=
  [".inf", ".Inf", ".INF", "+.inf", "+.Inf", "+.INF", "-.inf", "-.Inf", "-.INF",
    ".nan", ".NaN", ".NAN"]

/-- The words for nothing and for truth values. -/
def reservedWords : List String :=
  ["null", "Null", "NULL", "~", "true", "True", "TRUE", "false", "False", "FALSE"]

/-- **A text that would be read as a number**: with the mark of its base, `0x`, `0o` or `0b`, and at most 128 bits, or
as a floating point number. -/
def isNumeric (cs : List Char) : Bool :=
  match cs with
  -- one sign is enough
  | '+' :: r => isMarkedNumber (Nat.pow 2 128) r || (!isSigned r && isFinite r)
  | '-' :: r => isMarkedNumber (Nat.pow 2 127 + 1) r || isFinite cs
  | _ => isMarkedNumber (Nat.pow 2 128) cs || isFinite cs

/-- **A text that a plain scalar would not stand for**: one of `reservedWords`, or `isNumeric`. -/
def isMistakable (s : String) : Bool :=
  s == "" || reservedWords.contains s || floatWords.contains s
    || isZeroPadded s.toList || isNumeric s.toList

/-! ## What the characters of a text allow -/

/-- Whether a text starts with a character that opens something else, given what follows it. -/
def opensOther : List Char → Bool
  | [] => false
  | c :: rest =>
    "#,[]\x7b\x7d&*!|>'\"%@\x60".toList.contains c
      || ((c == '?' || c == ':' || c == '-') && isSpaceOrEnd rest.head?)

/-- Whether a colon before a blank, or a number sign behind one, stands in the text after its first character
`before`. -/
def endsPlain (before : Char) : List Char → Bool
  | [] => false
  | c :: rest =>
    (c == ':' && isSpaceOrEnd rest.head?) || (c == '#' && isSpaceOrEnd (some before))
      || endsPlain c rest

/-- Whether a text has marks that a block mapping gives a meaning of their own. -/
def hasIndicators (cs : List Char) : Bool :=
  -- three dashes or points mark a document
  ['-', '-', '-'].isPrefixOf cs || ['.', '.', '.'].isPrefixOf cs || opensOther cs
    || match cs with
      | [] => false
      | c :: rest => endsPlain c rest

/-- Whether a character of class `p` stands right before one of class `q`. -/
def hasPair (p q : Char → Bool) : List Char → Bool
  | a :: b :: rest => (p a && q b) || hasPair p q (b :: rest)
  | _ => false

/-- The space character. -/
def isSpace (c : Char) : Bool := c == ' '

/-- Whether the first or the last character is of class `p`. -/
def touchesEnd (p : Char → Bool) (cs : List Char) : Bool :=
  cs.head?.any p || cs.getLast?.any p

/-- The text needs escapes: some character does not stand for itself, or a line ends in spaces. -/
def needsEscapes (cs : List Char) : Bool :=
  !cs.all isPrintable || hasPair isSpace isBreak cs

/-- A plain scalar can hold the text: no blank at its ends, no break, and no `hasIndicators`. -/
def plainAllowed (cs : List Char) : Bool :=
  !needsEscapes cs && !touchesEnd (fun c => isSpace c || isBreak c) cs && !cs.any isBreak
    && !hasIndicators cs

/-- Single quotes can hold the text. -/
def singleAllowed (cs : List Char) : Bool := !needsEscapes cs && !hasPair isBreak isSpace cs

/-- A literal block can hold the text. -/
def literalAllowed (cs : List Char) : Bool := !needsEscapes cs && !cs.getLast?.any isSpace

/-! ## Writing -/

/-- A hexadecimal digit in upper case. -/
def hexDigit (n : Nat) : Char := if n < 10 then Char.ofNat (n + 48) else Char.ofNat (n + 55)

/-- A number in `width` hexadecimal digits. -/
def hex (width n : Nat) : List Char :=
  (List.range width).reverse.map fun i => hexDigit (n / Nat.pow 16 i % 16)

/-- The letters of the escapes that have one. -/
def escapeLetters : List (Char × Char) :=
  [('\x00', '0'), ('\x07', 'a'), ('\x08', 'b'), ('\t', 't'), ('\n', 'n'), ('\x0b', 'v'), ('\x0c', 'f'),
    ('\r', 'r'), ('\x1b', 'e'), ('"', '"'), ('\\', '\\'), ('\u0085', 'N'), ('\u2028', 'L'),
    ('\u2029', 'P')]

/-- A character within double quotes: by its letter in `escapeLetters`, as it is, or by `x`, `u` or `U` and 2, 4 or 8
digits. -/
def escaped (c : Char) : List Char :=
  match escapeLetters.lookup c with
  | some letter => ['\\', letter]
  | none =>
    if isPrintable c then [c]
    else if c.toNat ≤ 0xFF then '\\' :: 'x' :: hex 2 c.toNat
    else if c.toNat ≤ 0xFFFF then '\\' :: 'u' :: hex 4 c.toNat
    else '\\' :: 'U' :: hex 8 c.toNat

/-- A text in double quotes, all on one line. -/
def doubleQuoted (cs : List Char) : List Char := '"' :: (cs.flatMap escaped ++ ['"'])

/-- Spaces. -/
def spaces (n : Nat) : List Char := List.replicate n ' '

/-- The inside of a text in single quotes: a quote is written twice, and a line goes on after the
indentation. `broken` tells that a line break stands right before. -/
def singleBody (indent : Nat) (broken : Bool) : List Char → List Char
  | [] => if broken then spaces indent else []
  | c :: cs =>
    if isBreak c then c :: singleBody indent true cs
    -- an empty line is not indented
    else
      (if broken then spaces indent else []) ++ (if c == '\'' then ['\'', '\''] else [c])
        ++ singleBody indent false cs

/-- A text in single quotes. -/
def singleQuoted (indent : Nat) (cs : List Char) : List Char :=
  '\'' :: (singleBody indent false cs ++ ['\''])

/-- The lines of a literal block, each behind `indent` spaces. `fresh` tells that a line starts here. -/
def literalBody (indent : Nat) (fresh : Bool) : List Char → List Char
  | [] => []
  | c :: cs =>
    -- an empty line is not indented
    if isBreak c then c :: literalBody indent true cs
    else (if fresh then spaces indent else []) ++ c :: literalBody indent false cs

/-- What a literal block says of its first line, the indentation, when that starts with a blank, and of the line breaks
at its end: `-` that there is none, `+` that all of several belong to the text. -/
def literalHints (cs : List Char) : List Char :=
  (if cs.head?.any (fun c => isSpace c || isBreak c) then ['2'] else [])
    ++ match cs.reverse with
      | [] => ['-']
      | [c] => if isBreak c then ['+'] else ['-']
      | c :: d :: _ => if !isBreak c then ['-'] else if isBreak d then ['+'] else []

/-- A text as a literal block. -/
def literal (indent : Nat) (cs : List Char) : List Char :=
  '|' :: (literalHints cs ++ '\n' :: literalBody indent true cs)

/-- A text without line feeds: plain if it may be, else in single quotes if they suffice, else in double quotes. -/
def inline (indent : Nat) (quote : Bool) (cs : List Char) : List Char :=
  if !quote && plainAllowed cs then cs
  else if singleAllowed cs then singleQuoted indent cs
  else doubleQuoted cs

/-- **A text as a scalar**, its further lines indented by `indent`, up to and with the line break that ends it. A
literal block whose text ends in a line break has that one already. -/
def scalar (indent : Nat) (s : String) : List Char :=
  let cs := s.toList
  if cs.contains '\n' then
    if literalAllowed cs then
      literal indent cs ++ if cs.getLast?.any isBreak then [] else ['\n']
    else doubleQuoted cs ++ ['\n']
  else inline indent (isMistakable s) cs ++ ['\n']

end PayloadGate.Yaml
