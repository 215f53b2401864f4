import PayloadGate.Failure
import PayloadGate.Junit.Suite
import PayloadGate.Markup.Node
import PayloadGate.Text.Utf8

/-! # Reading result files

A result file holds one `testsuite`, or a list of them within `testsuites`. Prefixes of names are ignored, and
so are elements and attributes that results do not need.

* **`suite?`** — the suite of an element.
* **`forestOfBytes`** — the suites of a file. -/

namespace PayloadGate.Junit

open Decimal (Binary64)
open Markup (Node Tag localName)

/-! ## Attributes -/

/-- The attributes of an element by the names that count, with the values as they are written. -/
abbrev Fields := List (String × List Char)

namespace Fields

/-- The attributes of an element, of which those of the names `known` may stand only once. -/
def ofTag? (known : List String) (tag : Tag) : Option Fields := do
  let fields := (← tag.attributes?).map fun a => (Markup.attributeName a.1, a.2)
  if known.all fun name => (fields.filter (·.1 == name)).length ≤ 1 then some fields else none

/-- The text of the field `name`; a field that is absent is empty. -/
def text? (fields : Fields) (name : String) : Option String :=
  match fields.lookup name with
  | none => some ""
  | some raw => (Markup.resolve? raw).map String.ofList

/-- The count in the field `name`, a number of 32 bits; a field that is absent is zero. -/
def count? (fields : Fields) (name : String) : Option UInt32 :=
  match fields.lookup name with
  | none => some 0
  | some raw => (Decimal.unsigned? Decimal.limit32 raw).map Nat.toUInt32

/-- The duration in the field `name`; a field that is absent is zero. -/
def duration? (fields : Fields) (name : String) : Option Binary64 :=
  match fields.lookup name with
  | none => some .zero
  | some raw => Binary64.ofText? raw

end Fields

/-! ## Cases -/

/-- The texts of the runs of a content, `none` when one of them has a reference that does not resolve. -/
def texts? (content : List Node) : Option (List String) :=
  content.foldr
    (fun n texts => match n with
      | .run pieces => do some ((← Node.text? pieces) :: (← texts))
      | .element _ _ => texts)
    (some [])

/-- The elements of a content that have the local name `name`, each with its tag and its content. -/
def elements (name : String) (content : List Node) : List (Tag × List Node) :=
  content.filterMap fun n => match n with
    | .element tag inner => if localName tag.name = name then some (tag, inner) else none
    | .run _ => none

/-- **A failure**: its message, and the text around its inner elements, which may not be divided. -/
def failureNote? (tag : Tag) (content : List Node) : Option FailureNote := do
  let fields ← Fields.ofTag? ["message"] tag
  let message ← Fields.text? fields "message"
  match ← texts? content with
  | [] => some ⟨message, ""⟩
  | [output] => some ⟨message, output⟩
  | _ => none

/-- **The message of a skip mark**, from its attribute `message`. -/
def skipMessage? (tag : Tag) (content : List Node) : Option String := do
  let fields ← Fields.ofTag? ["message"] tag
  let _ ← texts? content
  Fields.text? fields "message"

/-- **The text of an element** that may hold nothing else: at most one run. -/
def plainText? (content : List Node) : Option String :=
  match content with
  | [] => some ""
  | [.run pieces] => Node.text? pieces
  | _ => none

/-- What is `read` of an element that may stand once or be absent; a second one is refused. -/
def atMostOne? {α : Type} (read : Tag → List Node → Option α) :
    List (Tag × List Node) → Option (Option α)
  | [] => some none
  | [(tag, content)] => (read tag content).map some
  | _ => none

/-- **A test case.** Text beside its elements says nothing, but has to be readable. -/
def testCase? (tag : Tag) (content : List Node) : Option TestCase := do
  let fields ← Fields.ofTag? ["name", "time"] tag
  let name ← Fields.text? fields "name"
  let duration ← Fields.duration? fields "time"
  -- text between the elements says nothing, but has to be readable
  let _ ← texts? content
  let failure ← atMostOne? failureNote? (elements "failure" content)
  let skipped ← atMostOne? skipMessage? (elements "skipped" content)
  let systemOut ← atMostOne? (fun _ => plainText?) (elements "system-out" content)
  some ⟨name, duration, failure, skipped, systemOut.getD ""⟩

/-! ## Suites -/

/-- Whether a node is an element of one of some names. -/
def isListed (names : List String) : Node → Bool
  | .element tag _ => names.contains (localName tag.name)
  | .run _ => false

/-- Whether a node that stands behind the first listed element can be passed over. It is an element of the
same whole name, which is read at its place, or all text in it has to be readable. -/
def isPassableBehind (first : Node) : Node → Bool
  | .run _ => false
  | .element tag inner =>
    match first with
    | .element listed _ => listed.name == tag.name || Node.areResolvable inner
    | .run _ => false

/-- Whether the elements of one local name also have one whole name, prefix included. -/
def haveOneName (es : List (Tag × List Node)) : Bool :=
  match es with
  | [] => true
  | (first, _) :: rest => rest.all fun e => e.1.name == first.name

/-- **Whether the content of a suite can be gone through.** Before the first listed element, text says nothing
but has to be readable. From there on no text may stand between the elements. -/
def isPassable (names : List String) (content : List Node) : Bool :=
  (texts? (content.takeWhile (!isListed names ·))).isSome
    && (match content.dropWhile (!isListed names ·) with
      | [] => true
      | first :: rest => rest.all (isPassableBehind first))
    && names.all fun name => haveOneName (elements name content)

mutual
/-- **The suite of an element**: its attributes, its cases in their order, and the suites below it in theirs. -/
def suite? : Node → Option Suite
  | .run _ => none
  | .element tag content => do
    let fields ← Fields.ofTag? ["name", "tests", "skipped", "failures", "time"] tag
    let name ← Fields.text? fields "name"
    let tests ← Fields.count? fields "tests"
    let skipped ← Fields.count? fields "skipped"
    let failures ← Fields.count? fields "failures"
    let duration ← Fields.duration? fields "time"
    let cases ← (elements "testcase" content).mapM fun e => testCase? e.1 e.2
    let children ← suites? content
    if isPassable ["testcase", "testsuite"] content then
      some ⟨name, tests, skipped, failures, duration, cases, children⟩
    else none

/-- The suites of the elements of a content that are suites, in their order; other elements are passed over. -/
def suites? : List Node → Option (List Suite)
  | [] => some []
  -- text between the suites was looked at by `isPassable`
  | .run _ :: ns => suites? ns
  | .element tag content :: ns =>
    if localName tag.name = "testsuite" then do
      some ((← suite? (.element tag content)) :: (← suites? ns))
    else suites? ns
end

/-- **The suites of an element that lists them**, which may have no attribute twice. -/
def suiteList? : Node → Option (List Suite)
  | .run _ => none
  | .element tag content => do
    -- attributes of the root mean nothing, but have to be well-formed
    let _ ← Fields.ofTag? [] tag
    let suites ← suites? content
    if isPassable ["testsuite"] content then some suites else none

/-! ## Files -/

/-- A result file that cannot be read, for the reason `detail`. -/
def unreadable (detail : String) : Failure := .serialization detail

/-- **The suites of a result file**: of a root `testsuites` those it lists, and of a root `testsuite` this one. -/
def forestOfBytes (bytes : List UInt8) : Except Failure (List Suite) :=
  match Text.Utf8.decode? bytes with
  | none => .error (unreadable "JUnit file is not UTF-8: a byte belongs to no character")
  | some cs =>
    let tokens := Markup.tokens cs
    -- the first tag decides how the document is read
    match Markup.rootName tokens with
    | .error .malformed =>
      .error (unreadable "Malformed JUnit XML at position of the first tag that cannot be read")
    | .error .absent => .error (unreadable "JUnit file has no root element")
    | .ok "testsuites" =>
      match Markup.document? tokens >>= suiteList? with
      | some suites => .ok suites
      | none => .error (unreadable "Failed to parse testsuites: not a list of suites")
    | .ok "testsuite" =>
      match Markup.document? tokens >>= suite? with
      | some suite => .ok [suite]
      | none => .error (unreadable "Failed to parse testsuite: not a suite")
    | .ok other => .error (unreadable ("Unexpected JUnit root element <" ++ other ++ ">"))

end PayloadGate.Junit
