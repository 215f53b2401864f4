import PayloadGate.Junit.Suite
import PayloadGate.Markup.Reference

/-! # Writing result files

* **`Suite.element`** — a suite as an element: its attributes, its cases, then its children.
* **`Suite.document`** — the file that holds one suite. -/

namespace PayloadGate.Junit

/-- An attribute `name="value"` with the blank before it. -/
def field (name : String) (value : List Char) : List Char :=
  " ".toList ++ name.toList ++ "=\"".toList ++ Markup.escapeQuoted value ++ "\"".toList

/-- An element; one without `content` is a single tag. -/
def element (name : String) (attributes content : List Char) : List Char :=
  if content = [] then "<".toList ++ name.toList ++ attributes ++ "/>".toList
  else "<".toList ++ name.toList ++ attributes ++ ">".toList ++ content
    ++ "</".toList ++ name.toList ++ ">".toList

/-- The element `failure`, with the message as its attribute and the text in it. -/
def FailureNote.element (note : FailureNote) : List Char :=
  Junit.element "failure" (field "message" note.message.toList) (Markup.escape note.output.toList)

/-- The element `skipped`, with the message as its attribute. -/
def skipElement (message : String) : List Char :=
  element "skipped" (field "message" message.toList) []

/-- The element `system-out`, of what a test printed, unless it printed nothing. -/
def systemOutElement (out : String) : List Char :=
  if out = "" then [] else element "system-out" [] (Markup.escape out.toList)

/-- The element `testcase`: name and time, then failure, skip mark and output. -/
def TestCase.element (c : TestCase) : List Char :=
  Junit.element "testcase" (field "name" c.name.toList ++ field "time" c.duration.text)
    ((match c.failure with | some note => note.element | none => [])
      ++ (match c.skipped with | some message => skipElement message | none => [])
      ++ systemOutElement c.systemOut)

/-- The text of a count, in base 10. -/
def countText (n : UInt32) : List Char := (Decimal.text n.toNat).toList

namespace Suite

/-- The attributes of a suite, in the order in which they are written. -/
def attributes (name : String) (tests skipped failures : UInt32) (duration : Decimal.Binary64) :
    List Char :=
  field "name" name.toList ++ field "tests" (countText tests)
    ++ field "skipped" (countText skipped) ++ field "failures" (countText failures)
    ++ field "time" duration.text

mutual
/-- **The element of a suite**: its cases, and then its children. -/
def element : Suite → List Char
  | ⟨name, tests, skipped, failures, duration, cases, children⟩ =>
    Junit.element "testsuite" (attributes name tests skipped failures duration)
      (cases.flatMap TestCase.element ++ elements children)

/-- The elements of a list of suites, one behind the other. -/
def elements : List Suite → List Char
  | [] => []
  | s :: ss => element s ++ elements ss
end

/-- **The file that holds one suite**: the declaration of XML 1.0 in UTF-8, and the element on a line of its own. -/
def document (s : Suite) : String :=
  String.ofList ("<?xml version=\"1.0\" encoding=\"UTF-8\"?>\n".toList ++ s.element ++ "\n".toList)

end Suite

end PayloadGate.Junit
