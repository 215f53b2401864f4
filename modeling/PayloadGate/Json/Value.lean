/-! # JSON values

* **`Value`** — a JSON document as a reader of typed records needs it: the members of an object stay in
  the order in which they are written, repeated names included, and a text that stands for no sequence
  of characters (ill-formed bytes, a surrogate without its partner) is kept as such, because it does no
  harm where nobody looks at it. -/

namespace PayloadGate.Json

/-- **A JSON value.** Numbers keep their spelling, so that no digit is lost; `text none` is a string whose escapes stand
for no text. -/
inductive Value where
  /-- The word `null`. -/
  | null
  /-- A truth value. -/
  | bool (value : Bool)
  /-- A number as it is spelled. -/
  | number (lexeme : String)
  /-- A string; `none` when it stands for no text. -/
  | text (content : Option String)
  /-- A list in brackets. -/
  | list (items : List Value)
  /-- An object: names and values in the order of writing. -/
  | object (members : List (Option String × Value))

end PayloadGate.Json
