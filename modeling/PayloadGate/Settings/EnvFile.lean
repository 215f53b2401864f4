import PayloadGate.Settings.EnvLines

/-! # A file of variables

A file may give values to variables that have none: `NAME=value`, one to a line, with quotations, escapes and the
values of other variables.

* **`Variables`** — the variables, by their names.
* **`EnvFile.value?`** — the value that is written behind the equals sign.
* **`EnvFile.line?`** — the variable of a line with its value.
* **`EnvFile.load`** — the variables after a file has been read. -/

namespace PayloadGate

/-- **The variables**, by their names. -/
abbrev Variables := String → Option String

/-- The variables when `name` gets the `value`, unless it has one. -/
def Variables.supply (vars : Variables) (name value : String) : Variables :=
  fun n => if n = name then some ((vars name).getD value) else vars n

/-- A variable that has a value keeps it: `supply` changes nothing. -/
theorem Variables.supply_of_some {vars : Variables} {name old : String} (value : String)
    (h : vars name = some old) : vars.supply name value = vars := by
  funext n
  by_cases hn : n = name
  · subst hn; simp [Variables.supply, h]
  · simp [Variables.supply, hn]

/-- A variable without a value gets the one that is supplied. -/
theorem Variables.supply_of_none {vars : Variables} {name : String} (value : String)
    (h : vars name = none) : vars.supply name value name = some value := by
  simp [Variables.supply, h]

/-- Variables of `other` names stay as they are. -/
theorem Variables.supply_of_ne (vars : Variables) {name other : String} (value : String) (h : other ≠ name) :
    vars.supply name value other = vars other := by
  simp [Variables.supply, h]

namespace EnvFile

/-! ## Values -/

/-- **Where in a value the reader stands**; `weak` tells whether it is in double quotes. -/
inductive Place where
  /-- In no quotes. -/
  | plain
  /-- In double quotes. -/
  | quoted
  /-- In single quotes. -/
  | strong
  /-- Behind a backslash. -/
  | escape (weak : Bool)
  /-- Behind a dollar sign, in a name that ends by itself. -/
  | name (weak : Bool) (chars : List Char)
  /-- In a name that ends with a closing brace. -/
  | braced (weak : Bool) (chars : List Char)
  /-- Behind the value, where only blanks and a comment may follow. -/
  | behind
  /-- In a comment. -/
  | comment
  deriving DecidableEq, Repr

/-- Where the reader stands outside of names and escapes, in double quotes when `weak`. -/
def Place.back (weak : Bool) : Place := if weak then .quoted else .plain

/-- The blocks of characters, by their first and last ones, in which the characters behind the letter blocks of Latin
are neither letters nor digits. -/
def symbolBlocks : List (Nat × Nat) := [(0x2000, 0x2BFF), (0x3000, 0x3020), (0xE000, 0xF8FF), (0x1F000, 0x1FAFF)]

/-- Whether a character can belong to a name that ends by itself: the letters and the digits. -/
def isNameChar (c : Char) : Bool :=
  let n := c.toNat
  if n < 0x80 then c.isAlphanum
  else 0xC0 ≤ n && n ≠ 0xD7 && n ≠ 0xF7 && !symbolBlocks.any fun b => decide (b.1 ≤ n ∧ n ≤ b.2)

/-- The value of the variable `name`; an unknown one is empty. -/
def valueOf (vars : Variables) (name : List Char) : List Char := ((vars (String.ofList name)).getD "").toList

/-- What stands for an escaped character, `none` when it may not be escaped. -/
def unescaped? (c : Char) : Option Char :=
  if c = 'n' then some '\n'
  else if c ∈ ['\\', '\x27', '\x22', '$', ' '] then some c
  else none

/-- **What a character changes**: the characters it adds to the value, and the place behind it. The result is `none`
where it may not stand. -/
def step? (vars : Variables) (p : Place) (c : Char) : Option (List Char × Place) :=
  match p with
  | .plain =>
    if c = '$' then some ([], .name false [])
    else if c = '\x27' then some ([], .strong)
    else if c = '\x22' then some ([], .quoted)
    else if c = '\\' then some ([], .escape false)
    -- outside of quotes the first blank ends the value
    else if c = ' ' ∨ c = '\t' then some ([], .behind)
    else some ([c], .plain)
  | .quoted =>
    if c = '$' then some ([], .name true [])
    else if c = '\x22' then some ([], .plain)
    else if c = '\\' then some ([], .escape true)
    else some ([c], .quoted)
  | .strong => some (if c = '\x27' then ([], .plain) else ([c], .strong))
  | .escape weak => (unescaped? c).map fun d => ([d], .back weak)
  | .name weak chars =>
    if isNameChar c then some ([], .name weak (chars ++ [c]))
    else if c = '\x7b' ∧ chars = [] then some ([], .braced weak [])
    -- another name follows at once
    else if c = '$' then some (valueOf vars chars, .name weak [])
    -- the name ends before this character, which belongs to the text
    else some (valueOf vars chars ++ [c], .back weak)
  | .braced weak chars =>
    if c = '\x7d' then some (valueOf vars chars, .back weak) else some ([], .braced weak (chars ++ [c]))
  | .behind => if c = ' ' ∨ c = '\t' then some ([], .behind) else if c = '#' then some ([], .comment) else none
  | .comment => some ([], .comment)

/-- What a value still gets at its end, `none` when something is open there. -/
def ending? (vars : Variables) : Place → Option (List Char)
  | .plain | .escape false | .behind | .comment => some []
  | .name false chars => some (valueOf vars chars)
  | _ => none

/-- The value from the place `p` on, character by character. -/
def valueFrom? (vars : Variables) : Place → List Char → Option (List Char)
  | p, [] => ending? vars p
  | p, c :: rest => do
    let (added, p) ← step? vars p c
    (added ++ ·) <$> valueFrom? vars p rest

/-- **The value that is written behind the equals sign**, `none` when it is malformed. -/
def value? (vars : Variables) (text : List Char) : Option (List Char) := valueFrom? vars .plain text

/-! ## Lines -/

/-- Whether a character can begin the name of a variable. -/
def beginsName (c : Char) : Bool := c.isAlpha || c == '_'

/-- Whether a character can be in the name of a variable. -/
def inName (c : Char) : Bool := c.isAlphanum || c == '_' || c == '.'

/-- The name at the beginning of a text, and what follows it behind blanks, `none` when there is no name. -/
def name? (text : List Char) : Option (List Char × List Char) :=
  if (text.head?).any beginsName then
    some (text.takeWhile inName, (text.dropWhile inName).dropWhile Text.isBlank)
  else none

/-- What follows an equals sign and blanks, `none` without the sign. -/
def afterEquals? : List Char → Option (List Char)
  | '=' :: rest => some (rest.dropWhile Text.isBlank)
  | _ => none

/-- The name of a line and what is written behind its equals sign. The word `export` may stand before the name. -/
def sides? (line : List Char) : Option (List Char × List Char) := do
  let (name, rest) ← name? line
  match afterEquals? rest with
  | some value => some (name, value)
  | none =>
    -- `export` may stand in front of the name
    if name = "export".toList then do
      let (name, rest) ← name? rest
      some (name, ← afterEquals? rest)
    else none

/-- **What a line says**: nothing, `some none`, or a variable and its value. It is `none` when the line is malformed. -/
def line? (vars : Variables) (line : List Char) : Option (Option (String × String)) :=
  let line := Text.strip Text.isBlank line
  if line.isEmpty ∨ line.head? = some '#' then some none
  else do
    let (name, text) ← sides? line
    let value ← if text.isEmpty ∨ text.head? = some '#' then some [] else value? vars text
    some (some (String.ofList name, String.ofList value))

/-- The variables after some lines; those behind the first malformed one do not count, and no line changes a variable
that has a value. -/
def loadLines (vars : Variables) : List (Option (List Char)) → Variables
  | [] => vars
  -- quotes are still open at the end of the file
  | none :: _ => vars
  | some line :: rest =>
    match line? vars line with
    -- a line that is no assignment ends the reading, and what was set before it stays
    | none => vars
    | some none => loadLines vars rest
    | some (some (name, value)) => loadLines (vars.supply name value) rest

/-- **The variables after a file has been read.** A byte order mark at its beginning does not count. -/
def load (vars : Variables) (text : String) : Variables :=
  let chars := match text.toList with
    -- a mark of the byte order is no part of the first line
    | '\uFEFF' :: rest => rest
    | chars => chars
  loadLines vars (EnvLines.logicalLines chars)

/-! ## Mentioned names -/

/-- The names between dollar signs with opening braces and the closing braces behind them. -/
def bracedNames : List Char → List (List Char)
  | [] => []
  | '$' :: '\x7b' :: rest => rest.takeWhile (· ≠ '\x7d') :: bracedNames rest
  | _ :: rest => bracedNames rest

/-- **The names of all variables that a file can set or use**, perhaps with others. -/
def mentioned (text : String) : List String :=
  let words (p : Char → Bool) := text.toList.splitOnP fun c => !p c
  ((words inName ++ words isNameChar ++ bracedNames text.toList).map String.ofList).eraseDups

end EnvFile

end PayloadGate
