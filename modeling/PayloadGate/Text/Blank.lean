/-! # Blank characters and trimming

* **`isBlank`** — the characters with the Unicode property `White_Space`.
* **`trim`**, **`trimEndOf`** — a text without the blanks at its ends, or without a given class of
  characters at its end.
* **`contains`** — whether one text occurs inside another.
* **`nonBlank`** — an optional text, trimmed, unless nothing is left of it. -/

namespace PayloadGate.Text

/-- **The Unicode property `White_Space`.** -/
def isBlank (c : Char) : Bool :=
  let n := c.toNat
  (0x9 ≤ n && n ≤ 0xD) || n == 0x20 || n == 0x85 || n == 0xA0 || n == 0x1680
    || (0x2000 ≤ n && n ≤ 0x200A) || n == 0x2028 || n == 0x2029 || n == 0x202F || n == 0x205F
    || n == 0x3000

/-- Drops the longest tail whose characters all satisfy `p`. -/
def dropTail (p : Char → Bool) (cs : List Char) : List Char :=
  (cs.reverse.dropWhile p).reverse

/-- Drops the characters of class `p` at both ends. -/
def strip (p : Char → Bool) (cs : List Char) : List Char :=
  dropTail p (cs.dropWhile p)

/-- **A text without the blanks at its two ends.** -/
def trim (s : String) : String := String.ofList (strip isBlank s.toList)

/-- A text without the characters of class `p` at its end. -/
def trimEndOf (p : Char → Bool) (s : String) : String := String.ofList (dropTail p s.toList)

/-- A text that is all blank, the empty text included. -/
def isAllBlank (s : String) : Bool := s.toList.all isBlank

/-- Whether `needle` occurs in `hay` as a block of neighbours. -/
def occursIn (needle : List Char) : List Char → Bool
  | [] => needle.isEmpty
  | c :: cs => needle.isPrefixOf (c :: cs) || occursIn needle cs

/-- Whether the text `needle` occurs in the text `hay`. -/
def contains (hay needle : String) : Bool := occursIn needle.toList hay.toList

/-- Whether `hay` ends with `tail`. -/
def endsWith (hay tail : String) : Bool := tail.toList.isSuffixOf hay.toList

/-- What follows `head` in `s`, when `s` begins with it. -/
def after? (head s : String) : Option String :=
  (head.toList.isPrefixOf? s.toList).map String.ofList

/-- The two sides of the first `mark` in `s`. -/
def splitFirst? (mark : Char) (s : String) : Option (String × String) :=
  match s.toList.span (· != mark) with
  | (_, []) => none
  | (left, _ :: right) => some (String.ofList left, String.ofList right)

/-- The pieces of a text between the marks; one piece more than there are marks. -/
def pieces (mark : Char) (s : String) : List String :=
  (s.toList.splitOn mark).map String.ofList

/-- **An optional text, trimmed**, or nothing when it is blank. -/
def nonBlank (value : Option String) : Option String :=
  (value.map trim).filter (· ≠ "")

/-- The trimmed pieces of a comma-separated text, blank ones left out. -/
def commaList (s : String) : List String :=
  ((pieces ',' s).map trim).filter (· ≠ "")

end PayloadGate.Text
