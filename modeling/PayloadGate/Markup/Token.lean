/-! # The tokens of a marked-up text

* **`Token`** — what a text is made of: tags, character data, and the parts that carry no data.
* **`Lexer.step`** — one character after the other is taken into the token that is being read.
* **`tokens`** — the tokens of a whole text. A text whose rest cannot be read ends in `Token.malformed`, so
  that what stands before it can still be used.

Reading is lenient where nothing is lost by it: names are not checked, and a tag ends at the first `>`
outside quotes. -/

namespace PayloadGate.Markup

/-- The blanks that separate the parts of a tag. -/
def isSpace (c : Char) : Bool := c == ' ' || c == '\t' || c == '\r' || c == '\n'

/-- The inside of an opening tag. -/
structure Tag where
  /-- The name, up to the first blank. -/
  name : List Char
  /-- All that follows the name. -/
  rest : List Char
  deriving DecidableEq

/-- **A token.** -/
inductive Token where
  /-- A tag that opens an element. -/
  | opening (tag : Tag)
  /-- A tag that is a whole element. -/
  | empty (tag : Tag)
  /-- A tag that closes an element. -/
  | closing (name : List Char)
  /-- Character data, with its references as they are written. -/
  | text (raw : List Char)
  /-- Character data in which nothing has a meaning of its own. -/
  | literal (content : List Char)
  /-- A comment, an instruction or the declaration of the document. -/
  | aside
  /-- The declaration of the document type. -/
  | doctype
  /-- The rest of the text cannot be read. -/
  | malformed
  deriving DecidableEq

namespace Token

/-- A list without the blanks at its end; those at its start are kept. -/
def trimEnd (cs : List Char) : List Char := (cs.reverse.dropWhile isSpace).reverse

/-- The name of an opening tag, up to the first blank, and what follows it. -/
def tag (inside : List Char) : Tag :=
  ⟨inside.takeWhile (!isSpace ·), inside.dropWhile (!isSpace ·)⟩

/-- **The token of a tag**, by the first and the last character `inside` it: a slash there makes it a closing tag or a
whole element. -/
def ofInside (inside : List Char) : Token :=
  match inside with
  | '/' :: name => closing (trimEnd name)
  | _ =>
    match inside.reverse with
    | '/' :: most => empty (tag most.reverse)
    | _ => opening (tag inside)

end Token

/-- **A token of which a part has been read**; what has been seen of it stands last character first. -/
inductive Lexer where
  /-- Character data. -/
  | text (seen : List Char)
  /-- Only the `<` of a tag. -/
  | opened
  /-- A tag, perhaps within quotes. -/
  | tag (quote : Option Char) (seen : List Char)
  /-- An instruction or the declaration of the document. -/
  | instruction (seen : List Char)
  /-- The first characters behind `<!`, which do not yet tell what it is. -/
  | bang (seen : List Char)
  /-- A comment. -/
  | comment (seen : List Char)
  /-- Literal character data. -/
  | literal (seen : List Char)
  /-- The declaration of the document type, with the number of its inner `<` that are open. -/
  | doctype (depth : Nat) (seen : List Char)

namespace Lexer

/-- The state at the start of a text, and behind each tag. -/
def start : Lexer := .text []

/-- A quotation mark of either kind. -/
def quote? (c : Char) : Option Char := if c = '\x22' ∨ c = '\x27' then some c else none

/-- The mark that starts a comment, behind `<!`. -/
def commentMark : List Char := ['-', '-']

/-- The mark that starts literal character data, behind `<!`. -/
def literalMark : List Char := ['[', 'C', 'D', 'A', 'T', 'A', '[']

/-- The word that starts the declaration of the document type, behind `<!`. -/
def doctypeMark : List Char := ['d', 'o', 'c', 't', 'y', 'p', 'e']

/-- A declaration of the document type says its word, in any case, and a name. -/
def isDoctype (inside : List Char) : Bool :=
  doctypeMark == (inside.take 7).map Char.toLower && (inside.drop 7).any (!isSpace ·)

/-- What stands behind `<!`, from the characters that have been seen of it. -/
def ofBang? (seen : List Char) : Option Lexer :=
  let inside := seen.reverse
  if inside = commentMark then some (.comment [])
  else if inside = literalMark then some (.literal [])
  else if inside = ['D'] ∨ inside = ['d'] then some (.doctype 0 seen)
  else if inside.isPrefixOf commentMark || inside.isPrefixOf literalMark then some (.bang seen)
  else none

/-- **One character more**: the token that it completes, if any, and the state behind it. The state is `none` when the
text cannot be read on. -/
def step (l : Lexer) (c : Char) : Option Token × Option Lexer :=
  match l with
  | .text seen =>
    if c = '<' then (if seen = [] then none else some (.text seen.reverse), some .opened)
    else (none, some (.text (c :: seen)))
  | .opened =>
    if c = '!' then (none, some (.bang []))
    else if c = '?' then (none, some (.instruction []))
    else if c = '>' then (some (.ofInside []), some start)
    else (none, some (.tag (quote? c) [c]))
  | .tag none seen =>
    if c = '>' then (some (.ofInside seen.reverse), some start)
    else (none, some (.tag (quote? c) (c :: seen)))
  -- within quotes a `>` is a character like any other
  | .tag (some q) seen => (none, some (.tag (if c = q then none else some q) (c :: seen)))
  | .instruction seen =>
    if c = '>' then
      match seen with
      -- an instruction has at least the mark at its end
      | [] => (none, none)
      | last :: _ => if last = '?' then (some .aside, some start) else (none, some (.instruction (c :: seen)))
    else (none, some (.instruction (c :: seen)))
  | .bang seen => (none, ofBang? (c :: seen))
  | .comment seen =>
    -- the mark at the end does not share its dashes with the one at the start
    if c = '>' ∧ seen.take 2 = ['-', '-'] then (some .aside, some start)
    else (none, some (.comment (c :: seen)))
  | .literal seen =>
    if c = '>' ∧ seen.take 2 = [']', ']'] then (some (.literal (seen.drop 2).reverse), some start)
    else (none, some (.literal (c :: seen)))
  | .doctype depth seen =>
    if c = '<' then (none, some (.doctype (depth + 1) (c :: seen)))
    else if c = '>' then
      match depth with
      -- the declaration ends where no inner `<` is open
      | 0 => if isDoctype seen.reverse then (some .doctype, some start) else (none, none)
      | outer + 1 => (none, some (.doctype outer (c :: seen)))
    else (none, some (.doctype depth (c :: seen)))

/-- The tokens at the end of a text: character data may end there, and nothing else. -/
def finish : Lexer → List Token
  | .text [] => []
  | .text seen => [.text seen.reverse]
  | _ => [.malformed]

/-- **The tokens of a text** of which the given part of a token has been read; `malformed` ends them where the text
cannot be read on. -/
def run : Lexer → List Char → List Token
  | l, [] => l.finish
  | l, c :: cs =>
    match l.step c with
    | (token, some l) => token.toList ++ run l cs
    | (_, none) => [.malformed]

end Lexer

/-- **The tokens of a text.** A byte order mark at its start is passed over. -/
def tokens (cs : List Char) : List Token :=
  Lexer.start.run (match cs with
    | c :: rest => if c = '\uFEFF' then rest else cs
    | [] => [])

end PayloadGate.Markup
