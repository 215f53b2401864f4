import PayloadGate.Text.Blank

/-! # Lines of a file of variables

A line of the file goes on over its end while a quotation is open. **`EnvLines.logicalLines`** are the lines so joined,
without comments; a quotation that is never closed, or a blank at the very end of the file, spoils the last of them.

* **`EnvLines.State`** — what is open behind a character; **`EnvLines.State.next`** — what a character changes. -/

namespace PayloadGate.EnvLines

/-- **What is open behind a character.** -/
inductive State where
  /-- Nothing. -/
  | complete
  /-- A blank has been read, behind which a comment can begin. -/
  | blank
  /-- A backslash has been read. -/
  | escape
  /-- A quotation in single quotes. -/
  | strong
  /-- A backslash in single quotes. -/
  | strongEscape
  /-- A quotation in double quotes. -/
  | weak
  /-- A backslash in double quotes. -/
  | weakEscape
  deriving DecidableEq, Repr

namespace State

/-- What a character opens where nothing is open. -/
def opened (c : Char) (otherwise : State) : State :=
  if c = '\\' then escape
  else if c = '\x22' then weak
  else if c = '\x27' then strong
  else otherwise

/-- **What the character `c` changes.** There is no state, `none`, when it begins a comment. A second blank in a row
counts as a character like any other. -/
def next (s : State) (c : Char) : Option State :=
  match s with
  | blank => if c = '#' then none else some (opened c complete)
  | complete => some (opened c (if Text.isBlank c ∧ c ≠ '\n' ∧ c ≠ '\r' then blank else complete))
  | escape => some complete
  | strong => some (if c = '\\' then strongEscape else if c = '\x27' then complete else strong)
  | strongEscape => some strong
  | weak => some (if c = '\\' then weakEscape else if c = '\x22' then complete else weak)
  | weakEscape => some weak

end State

/-- The characters before a comment, and what is open behind them; the state is `none` when a comment follows. -/
def beforeComment : State → List Char → List Char × Option State
  | s, [] => ([], some s)
  | s, c :: rest =>
    match s.next c with
    | none => ([], none)
    | some t =>
      let (kept, last) := beforeComment t rest
      (c :: kept, last)

/-- The lines of a text, each with its end. -/
def physicalLines : List Char → List (List Char)
  | [] => []
  | '\n' :: rest => ['\n'] :: physicalLines rest
  | c :: rest =>
    match physicalLines rest with
    | [] => [[c]]
    | line :: lines => (c :: line) :: lines

/-- A line without its end. -/
def withoutEnd (line : List Char) : List Char :=
  match line.reverse with
  | '\n' :: '\r' :: rest => rest.reverse
  | '\n' :: rest => rest.reverse
  | _ => line

/-- Whether a line is all comment. -/
def isComment (line : List Char) : Bool := (line.dropWhile Text.isBlank).head? = some '#'

/-- The lines joined, when the text `before` stands before the first of them and the state `s` is open behind it. A line
that belongs to the one before is added to it. -/
def joined : State → List Char → List (List Char) → List (Option (List Char))
  -- at the end of the text nothing may be open
  | s, _, [] => if s = .complete then [] else [none]
  | s, before, line :: rest =>
    -- what is open before the line does not matter for a comment
    if isComment (before ++ line) then some [] :: joined .complete [] rest
    else match beforeComment s line with
      | (kept, none) => some (before ++ kept) :: joined .complete [] rest
      | (_, some .complete) => some (withoutEnd (before ++ line)) :: joined .complete [] rest
      -- something is open at the end of the line, so the next one belongs to it
      | (_, some t) => joined t (before ++ line) rest

/-- **The lines of a file**, those joined that belong together, without their comments. A spoiled line is `none`. -/
def logicalLines (text : List Char) : List (Option (List Char)) := joined .complete [] (physicalLines text)

end PayloadGate.EnvLines
