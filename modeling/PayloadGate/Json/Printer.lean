import PayloadGate.Json.Value

/-! # Writing JSON

* **`Json.quoted`** — a text as a JSON string.
* **`Json.render`** — a value without any blanks. -/

namespace PayloadGate.Json

/-- A hexadecimal digit in lower case. -/
def hexDigit (n : Nat) : Char := if n < 10 then Char.ofNat (n + 48) else Char.ofNat (n + 87)

/-- A character inside a string: the quote, the backslash and the control characters are escaped, by a letter where
there is one, else as `\u00` and two digits. -/
def escaped (c : Char) : List Char :=
  if c = '"' then ['\\', '"']
  else if c = '\\' then ['\\', '\\']
  else if c = '\x08' then ['\\', 'b']
  else if c = '\x0c' then ['\\', 'f']
  else if c = '\n' then ['\\', 'n']
  else if c = '\r' then ['\\', 'r']
  else if c = '\t' then ['\\', 't']
  else if c.toNat < 0x20 then
    ['\\', 'u', '0', '0', hexDigit (c.toNat / 16), hexDigit (c.toNat % 16)]
  else [c]

/-- **A text as a JSON string**: `escaped` characters between quotes. -/
def quoted (s : String) : List Char := '"' :: (s.toList.flatMap escaped ++ ['"'])

mutual
/-- **A value without any blanks**, with the members of objects in their order. A string that stands for no text has no
spelling and is written as the empty one. -/
def render : Value → List Char
  | .null => "null".toList
  | .bool b => (if b then "true" else "false").toList
  | .number lexeme => lexeme.toList
  | .text s => quoted (s.getD "")
  | .list [] => "[]".toList
  | .list (v :: vs) => '[' :: (render v ++ renderItems vs)
  | .object [] => ['\x7b', '\x7d']
  | .object ((name, v) :: ms) =>
    '\x7b' :: (quoted (name.getD "") ++ ':' :: (render v ++ renderMembers ms))

/-- The items of a list after the first, and the closing bracket. -/
def renderItems : List Value → List Char
  | [] => [']']
  | v :: vs => ',' :: (render v ++ renderItems vs)

/-- The members of an object after the first, and the closing brace. -/
def renderMembers : List (Option String × Value) → List Char
  | [] => ['\x7d']
  | (name, v) :: ms => ',' :: (quoted (name.getD "") ++ ':' :: (render v ++ renderMembers ms))
end

end PayloadGate.Json
