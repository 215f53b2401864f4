import PayloadGate.Markup.Token
import PayloadGate.Markup.Reference

/-! # Elements and character data as a tree

* **`Node`** — an element with its content, or a run of character data.
* **`Node.text?`** — the text of a run.
* **`Tag.attributes?`** — the attributes of an element.
* **`rootName`** — the name of the outermost element, from the first tag alone.
* **`document?`** — the outermost element. Nothing behind its end is looked at, and character data before
  its start is refused. -/

namespace PayloadGate.Markup

/-- A piece of character data. -/
inductive Piece where
  /-- With references. -/
  | text (raw : List Char)
  /-- Without. -/
  | literal (content : List Char)
  deriving DecidableEq

/-- **An element or a run of character data.** -/
inductive Node where
  /-- Character data between two tags. -/
  | run (pieces : List Piece)
  /-- An element. -/
  | element (tag : Tag) (content : List Node)

/-! ## Character data -/

namespace Piece

/-- A blank piece with references; literal data never counts as blank. -/
def isBlank : Piece → Bool
  | text raw => raw.all isSpace
  | literal _ => false

/-- The piece without the blanks at its start; literal data keeps them. -/
def trimStart : Piece → Piece
  | text raw => text (raw.dropWhile isSpace)
  | p => p

/-- The piece without the blanks at its end; literal data keeps them. -/
def trimEnd : Piece → Piece
  | text raw => text (Token.trimEnd raw)
  | p => p

/-- The text of a piece, `none` when a reference in it is unknown. -/
def resolve? : Piece → Option (List Char)
  | text raw => Markup.resolve? raw
  | literal content => some content

/-- The pieces of a run without the blanks at its two ends, as they are written: a blank that a reference
names, or that stands in literal data, is kept. -/
def trimRun (pieces : List Piece) : List Piece :=
  match pieces.dropWhile isBlank with
  | [] => []
  | first :: rest =>
    match (first.trimStart :: rest).reverse with
    | [] => []
    | last :: most => (last.trimEnd :: most).reverse

end Piece

namespace Node

/-- A run of character data as a node, unless nothing is left of it without its blanks. -/
def ofRun (pieces : List Piece) : List Node :=
  match Piece.trimRun pieces with
  | [] => []
  | ps => [run ps]

/-- **The text of a run**, `none` when a reference in one of its `pieces` is unknown. -/
def text? (pieces : List Piece) : Option String :=
  (pieces.mapM Piece.resolve?).map fun parts => String.ofList parts.flatten

mutual
/-- Whether every run in a node has a text, at every depth. -/
def isResolvable : Node → Bool
  | run pieces => (text? pieces).isSome
  | element _ content => areResolvable content

/-- Whether every run in the nodes of a list has a text. -/
def areResolvable : List Node → Bool
  | [] => true
  | n :: ns => isResolvable n && areResolvable ns
end

end Node

/-! ## Names and attributes -/

/-- A name without the part up to its first colon, its prefix. -/
def localName (name : List Char) : String :=
  match name.span (· != ':') with
  | (whole, []) => String.ofList whole
  | (_, _ :: rest) => String.ofList rest

/-- The name of an attribute without the part up to its first colon; a declaration of a namespace keeps
its whole name. -/
def attributeName (name : List Char) : String :=
  if name = "xmlns".toList ∨ "xmlns:".toList <+: name then String.ofList name else localName name

/-- Where the reader of attributes stands. -/
inductive AttributeReader where
  /-- Before a name. -/
  | gap
  /-- Within a name. -/
  | name (seen : List Char)
  /-- Between a name and its equals sign. -/
  | named (name : List Char)
  /-- Between the equals sign and the value. -/
  | equals (name : List Char)
  /-- Within a value. -/
  | value (name : List Char) (quote : Char) (seen : List Char)

/-- The attributes from a place on, each with its whole name and its value as it is written. -/
def attributesFrom? : AttributeReader → List Char → Option (List (List Char × List Char))
  | .gap, [] => some []
  | .gap, c :: cs => if isSpace c then attributesFrom? .gap cs else attributesFrom? (.name [c]) cs
  | .name seen, c :: cs =>
    -- the names are gathered last character first
    if c = '=' then attributesFrom? (.equals seen.reverse) cs
    else if isSpace c then attributesFrom? (.named seen.reverse) cs
    else attributesFrom? (.name (c :: seen)) cs
  | .named name, c :: cs =>
    if c = '=' then attributesFrom? (.equals name) cs
    else if isSpace c then attributesFrom? (.named name) cs
    else none
  | .equals name, c :: cs =>
    if isSpace c then attributesFrom? (.equals name) cs
    else if c = '\x22' ∨ c = '\x27' then attributesFrom? (.value name c []) cs
    else none
  | .value name quote seen, c :: cs =>
    if c = quote then (attributesFrom? .gap cs).map ((name, seen.reverse) :: ·)
    else attributesFrom? (.value name quote (c :: seen)) cs
  -- the tag ends within an attribute
  | _, [] => none

/-- **The attributes of an element**, `none` when two of them have the same whole name. -/
def Tag.attributes? (tag : Tag) : Option (List (List Char × List Char)) :=
  (attributesFrom? .gap tag.rest).filter fun as => (as.map (·.1)).Nodup

/-! ## Documents -/

/-- Why a text has no outermost element. -/
inductive RootFault where
  /-- The text cannot be read up to the first tag. -/
  | malformed
  /-- There is no tag. -/
  | absent
  deriving DecidableEq

/-- **The name of the outermost element**, from the first tag alone; what stands before it has to be no closing tag. -/
def rootName : List Token → Except RootFault String
  | [] => .error .absent
  -- a closing tag before any element closes nothing
  | .malformed :: _ | .closing _ :: _ => .error .malformed
  | .opening tag :: _ | .empty tag :: _ => .ok (localName tag.name)
  | _ :: ts => rootName ts

/-- An element that is open, with what has been read of its content, last node first. -/
structure OpenElement where
  /-- Its tag. -/
  tag : Tag
  /-- Its content. -/
  content : List Node

namespace OpenElement

/-- The element with the `nodes` behind its content. -/
def add (nodes : List Node) (e : OpenElement) : OpenElement := ⟨e.tag, nodes.reverse ++ e.content⟩

/-- The element when it is closed, its content in the order of the text. -/
def close (e : OpenElement) : Node := .element e.tag e.content.reverse

end OpenElement

/-- **Reads tokens up to the end of the outermost element**, given the elements that are open, innermost first, and the
character data since the last tag. What follows that end is not looked at. -/
def build : List OpenElement → List Piece → List Token → Option Node
  | _, _, [] => none
  | _, _, .malformed :: _ => none
  -- texts and literals make one run, until an element or a declaration ends it
  | stack, pieces, .text raw :: ts => build stack (pieces ++ [.text raw]) ts
  | stack, pieces, .literal content :: ts => build stack (pieces ++ [.literal content]) ts
  | stack, pieces, .aside :: ts => build stack pieces ts
  -- before the root only blanks may stand
  | [], pieces, .doctype :: ts => if Node.ofRun pieces = [] then build [] [] ts else none
  | e :: stack, pieces, .doctype :: ts => build (e.add (Node.ofRun pieces) :: stack) [] ts
  | [], pieces, .opening tag :: ts => if Node.ofRun pieces = [] then build [⟨tag, []⟩] [] ts else none
  | e :: stack, pieces, .opening tag :: ts =>
    build (⟨tag, []⟩ :: e.add (Node.ofRun pieces) :: stack) [] ts
  | [], pieces, .empty tag :: _ => if Node.ofRun pieces = [] then some (.element tag []) else none
  | e :: stack, pieces, .empty tag :: ts =>
    build (e.add (Node.ofRun pieces ++ [.element tag []]) :: stack) [] ts
  | [], _, .closing _ :: _ => none
  | e :: stack, pieces, .closing name :: ts =>
    if e.tag.name = name then
      let done := (e.add (Node.ofRun pieces)).close
      match stack with
      -- the root is closed, and what follows it is not looked at
      | [] => some done
      | outer :: stack => build (outer.add [done] :: stack) [] ts
    else none

/-- **The outermost element of a document**, `none` when it is malformed or not closed. -/
def document? (ts : List Token) : Option Node := build [] [] ts

end PayloadGate.Markup
