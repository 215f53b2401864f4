import PayloadGate.Proofs.Junit.Fields
import PayloadGate.Proofs.Junit.Layout

/-! # Result files that were written are read back

* **`Suite.trimmed`** — a suite without the blanks at the ends of its outputs, which is all that writing loses.
* **`Suite.item`** — the element of a suite as an item of markup.
* **`Suite.isLayout_item`** — that element is a layout of the trimmed suite.
* **`Suite.forestOfBytes_document`** — the file of a suite is read as the trimmed suite. -/

namespace PayloadGate.Junit

open Markup (Tag Item Node localName escape trim)
open Markup.Item (AreSound chars charsOf nodes nodesFrom nodesOf document)

/-! ## What writing loses -/

/-- A text without the blanks at its two ends, as the reader takes it. -/
def trimText (s : String) : String := String.ofList (trim s.toList)

/-- A failure without the blanks at the ends of its `output`. -/
def FailureNote.trimmed (note : FailureNote) : FailureNote := { note with output := trimText note.output }

/-- A case without the blanks at the ends of its two outputs. -/
def TestCase.trimmed (c : TestCase) : TestCase :=
  { c with failure := c.failure.map FailureNote.trimmed, systemOut := trimText c.systemOut }

mutual
/-- **A suite without the blanks at the ends of its outputs**, at every depth. -/
def Suite.trimmed : Suite → Suite
  | ⟨name, tests, skipped, failures, duration, cases, children⟩ =>
    ⟨name, tests, skipped, failures, duration, cases.map TestCase.trimmed, trimmedAll children⟩

/-- The suites of a list without the blanks at the ends of their outputs. -/
def trimmedAll : List Suite → List Suite
  | [] => []
  | s :: ss => s.trimmed :: trimmedAll ss
end

/-! ## Elements as items -/

/-- An element with `fields`; one without `content` is a single tag. -/
def writtenItem (name : String) (fields : List (String × List Char)) (content : List Item) : Item :=
  .element (fieldsTag name fields) content.isEmpty content

/-- The items of a text: none when it is empty, or its characters with references. -/
def textItems (text : String) : List Item := if text = "" then [] else [.data (escape text.toList)]

/-- The item of a failure, the counterpart of `FailureNote.element`. -/
def FailureNote.item (note : FailureNote) : Item :=
  writtenItem "failure" [("message", note.message.toList)] (textItems note.output)

/-- The item of a skip mark, the counterpart of `skipElement`. -/
def skipItem (message : String) : Item := writtenItem "skipped" [("message", message.toList)] []

/-- The items of what a test printed, none when it printed nothing. -/
def systemOutItems (out : String) : List Item :=
  if out = "" then [] else [writtenItem "system-out" [] (textItems out)]

/-- The items within a case: failure, skip mark and output, as far as they are there. -/
def TestCase.items (c : TestCase) : List Item :=
  (c.failure.map FailureNote.item).toList ++ (c.skipped.map skipItem).toList ++ systemOutItems c.systemOut

/-- The fields of a case: its name and its duration. -/
def TestCase.fields (c : TestCase) : List (String × List Char) :=
  [("name", c.name.toList), ("time", c.duration.text)]

/-- The item of a case, the counterpart of `TestCase.element`. -/
def TestCase.item (c : TestCase) : Item := writtenItem "testcase" c.fields c.items

namespace Suite

/-- The fields of a suite, in the order in which they are written. -/
def fields (name : String) (tests skipped failures : UInt32) (duration : Decimal.Binary64) :
    List (String × List Char) :=
  [("name", name.toList), ("tests", countText tests), ("skipped", countText skipped),
    ("failures", countText failures), ("time", duration.text)]

mutual
/-- **The item of a suite**, the counterpart of `Suite.element`: its cases, and then its children. -/
def item : Suite → Item
  | ⟨name, tests, skipped, failures, duration, cases, children⟩ =>
    writtenItem "testsuite" (fields name tests skipped failures duration) (cases.map TestCase.item ++ items children)

/-- The items of a list of suites, one behind the other. -/
def items : List Suite → List Item
  | [] => []
  | s :: ss => item s :: items ss
end

end Suite

/-! ## Their characters -/

/-- The characters of two contents one after the other: `charsOf` goes over `++`. -/
theorem charsOf_append (a b : List Item) : charsOf (a ++ b) = charsOf a ++ charsOf b := by
  induction a with
  | nil => rfl
  | cons i a ih => rw [List.cons_append, charsOf, charsOf, ih, List.append_assoc]

/-- An element with fields, for some name, fields and content. -/
def IsWritten (i : Item) : Prop := ∃ name fields content, i = writtenItem name fields content

/-- Elements have characters: a content of some is not written as nothing. -/
theorem charsOf_ne_nil_of_isWritten {content : List Item} (h : ∀ i ∈ content, IsWritten i) (hne : content ≠ []) :
    charsOf content ≠ [] := by
  obtain ⟨i, is, rfl⟩ := List.exists_cons_of_ne_nil hne
  obtain ⟨name, fields, inner, rfl⟩ := h i List.mem_cons_self
  rw [charsOf, writtenItem, chars]
  split_ifs <;> exact List.cons_ne_nil _ _

/-- **The characters of an element with fields** are what `element` writes, when a content that is there has
characters. -/
theorem chars_writtenItem (name : String) (fields : List (String × List Char)) {content : List Item}
    (h : content ≠ [] → charsOf content ≠ []) :
    chars (writtenItem name fields content) = element name (fieldsText fields) (charsOf content) := by
  rw [writtenItem, chars, element, fieldsTag]
  cases content with
  | nil => simp [charsOf]
  | cons i is =>
    rw [if_neg (h (List.cons_ne_nil i is))]
    simp

/-- The characters of a text are what `escape` writes. -/
theorem charsOf_textItems (text : String) : charsOf (textItems text) = escape text.toList := by
  rw [textItems]
  split_ifs with h
  · rw [h]; rfl
  · rw [charsOf, chars, charsOf, List.append_nil]

/-- A text that is not empty has characters. -/
theorem charsOf_textItems_ne_nil {text : String} (h : textItems text ≠ []) : charsOf (textItems text) ≠ [] := by
  have htext : text ≠ "" := fun hempty => h (if_pos hempty)
  rw [charsOf_textItems]
  exact mt Markup.escape_eq_nil_iff.1 (mt String.toList_eq_nil_iff.1 htext)

/-- The characters of a failure are what is written for it. -/
theorem FailureNote.chars_item (note : FailureNote) : chars note.item = note.element := by
  rw [item, chars_writtenItem _ _ charsOf_textItems_ne_nil, charsOf_textItems, fieldsText, List.flatMap_singleton]
  rfl

/-- The characters of a skip mark are what is written for it. -/
theorem chars_skipItem (message : String) : chars (skipItem message) = skipElement message := by
  rw [skipItem, chars_writtenItem _ _ fun h => absurd rfl h, fieldsText, List.flatMap_singleton]
  rfl

/-- The characters of what a test printed are what is written for it. -/
theorem charsOf_systemOutItems (out : String) : charsOf (systemOutItems out) = systemOutElement out := by
  rw [systemOutItems, systemOutElement]
  split_ifs
  · rfl
  · rw [charsOf, chars_writtenItem _ _ charsOf_textItems_ne_nil, charsOf_textItems, charsOf, List.append_nil]
    rfl

/-- There are elements alone within a case. -/
theorem TestCase.isWritten_of_mem_items {c : TestCase} {i : Item} (h : i ∈ c.items) : IsWritten i := by
  rw [items, List.mem_append, List.mem_append, Option.mem_toList, Option.mem_toList, Option.map_eq_some_iff,
    Option.map_eq_some_iff, systemOutItems] at h
  rcases h with (⟨note, -, rfl⟩ | ⟨message, -, rfl⟩) | h
  · exact ⟨_, _, _, rfl⟩
  · exact ⟨_, _, _, rfl⟩
  · split_ifs at h
    · cases h
    · exact ⟨_, _, _, List.mem_singleton.1 h⟩

/-- The characters of an item that may be absent: none when it is. -/
theorem charsOf_toList {α : Type} {f : α → Item} {g : α → List Char} (h : ∀ x, chars (f x) = g x) (o : Option α) :
    charsOf (o.map f).toList = (o.map g).getD [] := by
  cases o with
  | none => rfl
  | some x => exact (List.append_nil _).trans (h x)

/-- **The characters of a case** are what is written for it. -/
theorem TestCase.chars_item (c : TestCase) : chars c.item = c.element := by
  have hcontent : charsOf c.items = (c.failure.map FailureNote.element).getD []
      ++ (c.skipped.map skipElement).getD [] ++ systemOutElement c.systemOut := by
    rw [items, charsOf_append, charsOf_append, charsOf_systemOutItems, charsOf_toList FailureNote.chars_item,
      charsOf_toList chars_skipItem]
  rw [item, chars_writtenItem _ _ (charsOf_ne_nil_of_isWritten fun _ => isWritten_of_mem_items), hcontent, fieldsText,
    fields, List.flatMap_cons, List.flatMap_singleton, element]
  cases c.failure <;> cases c.skipped <;> rfl

namespace Suite

/-- The characters of cases one after the other are what is written for them. -/
theorem charsOf_cases (cases : List TestCase) :
    charsOf (cases.map TestCase.item) = cases.flatMap TestCase.element := by
  induction cases with
  | nil => rfl
  | cons c cases ih => rw [List.map_cons, charsOf, c.chars_item, ih, List.flatMap_cons]

/-- A list of suites has elements alone. -/
theorem isWritten_of_mem_items {ss : List Suite} {i : Item} (h : i ∈ items ss) : IsWritten i := by
  induction ss with
  | nil => cases h
  | cons s ss ih =>
    rcases List.mem_cons.1 h with rfl | h
    · cases s
      exact ⟨_, _, _, rfl⟩
    · exact ih h

mutual
/-- **The characters of a suite** are what is written for it. The induction is on suites and lists of suites at once. -/
theorem chars_item : ∀ s : Suite, chars s.item = s.element
  | ⟨name, tests, skipped, failures, duration, cases, children⟩ => by
    have hwritten : ∀ i ∈ cases.map TestCase.item ++ items children, IsWritten i := by
      intro i hi
      rcases List.mem_append.1 hi with hi | hi
      · obtain ⟨c, -, rfl⟩ := List.mem_map.1 hi
        exact ⟨_, _, _, rfl⟩
      · exact isWritten_of_mem_items hi
    have hfields : fieldsText (fields name tests skipped failures duration)
        = attributes name tests skipped failures duration := by
      simp [fields, fieldsText, attributes]
    rw [item, chars_writtenItem _ _ (charsOf_ne_nil_of_isWritten hwritten), charsOf_append, charsOf_cases,
      charsOf_items children, hfields, element]

/-- The characters of a list of suites are what is written for them. -/
theorem charsOf_items : ∀ ss : List Suite, charsOf (items ss) = elements ss
  | [] => rfl
  | s :: ss => by rw [items, charsOf, chars_item s, charsOf_items ss, elements]
end

end Suite

/-! ## They can be written -/

/-- An element with fields can be written before other items, when its name, its fields and its content can be. -/
theorem areSound_writtenItem {name : String} {fields : List (String × List Char)} {content is : List Item}
    (hname : IsElementName name) (hfields : ArePlain fields) (hcontent : AreSound content) (h : AreSound is) :
    AreSound (writtenItem name fields content :: is) :=
  .element (isSound_fieldsTag hname hfields) List.isEmpty_iff.1 hcontent h

/-- A text can be written, whatever is in it, because its marks are escaped. -/
theorem areSound_textItems (text : String) : AreSound (textItems text) := by
  rw [textItems]
  split_ifs
  · exact .nil
  · refine .data Markup.lt_notMem_escape ?_ .nil
    rw [Markup.resolve?_escape]
    rfl

/-- The field of a message is plain. -/
theorem arePlain_message (message : String) : ArePlain [("message", message.toList)] :=
  arePlain_of_names ["message"] rfl (by decide) (by decide)

/-- The items within a case can be written. -/
theorem TestCase.areSound_items (c : TestCase) : AreSound c.items := by
  have hout : AreSound (systemOutItems c.systemOut) := by
    rw [systemOutItems]
    split_ifs
    · exact .nil
    · exact areSound_writtenItem (by decide) ⟨fun _ hf => absurd hf List.not_mem_nil, List.nodup_nil⟩
        (areSound_textItems _) .nil
  have hskipped : AreSound ((c.skipped.map skipItem).toList ++ systemOutItems c.systemOut) := by
    cases c.skipped with
    | none => exact hout
    | some message => exact areSound_writtenItem (by decide) (arePlain_message message) .nil hout
  rw [items, List.append_assoc]
  cases c.failure with
  | none => exact hskipped
  | some note =>
    exact areSound_writtenItem (by decide) (arePlain_message note.message) (areSound_textItems _) hskipped

/-! ## They are read back -/

/-- **The nodes of a text**: none when it is blank, or a run that reads as the trimmed text. -/
theorem nodesOf_textItems (text : String) :
    nodesOf (textItems text) = [] ∧ trimText text = ""
      ∨ ∃ pieces, nodesOf (textItems text) = [.run pieces] ∧ Node.text? pieces = some (trimText text) := by
  by_cases htext : text = ""
  · exact .inl ⟨by rw [textItems, if_pos htext]; rfl, by rw [htext]; rfl⟩
  · have hraw : escape text.toList ≠ [] := mt Markup.escape_eq_nil_iff.1 (mt String.toList_eq_nil_iff.1 htext)
    have hnodes : nodesOf (textItems text) = Node.ofRun [.text (escape text.toList)] := by
      rw [textItems, if_neg htext, nodesOf, nodesFrom, nodesFrom, List.nil_append, Markup.Item.flush, if_neg hraw]
      rfl
    rw [hnodes, Node.ofRun, Markup.Piece.trimRun_text]
    -- text that is all blank leaves no node; of any other the trimmed text is written and read
    by_cases hblank : (escape text.toList).all Markup.isSpace = true
    · have htrim : trim text.toList = [] := by
        rw [← Markup.escape_eq_nil_iff, ← Markup.trim_escape, Markup.trim_of_blank hblank]
      exact .inl ⟨by rw [if_pos hblank], by rw [trimText, htrim]⟩
    · refine .inr ⟨[.text (trim (escape text.toList))], by rw [if_neg hblank], ?_⟩
      have hread : Markup.resolve? (trim (escape text.toList)) = some (trim text.toList) := by
        rw [Markup.trim_escape, Markup.resolve?_escape]
      rw [Node.text?, List.mapM_cons, Markup.Piece.resolve?, hread, List.mapM_nil]
      exact congrArg (fun cs => some (String.ofList cs)) (List.append_nil _)

/-- **A failure is read back** as `note.trimmed`. -/
theorem FailureNote.failureNote?_item (note : FailureNote) :
    failureNote? (fieldsTag "failure" [("message", note.message.toList)]) (nodesOf (textItems note.output))
      = some note.trimmed := by
  have hmessage : Fields.text? [("message", Markup.escapeQuoted note.message.toList)] "message" = some note.message :=
    Fields.text?_of_lookup rfl
  rw [failureNote?, Fields.ofTag?_fieldsTag (arePlain_message note.message)]
  simp only [Option.bind_eq_bind, Option.bind_some, List.map_cons, List.map_nil, hmessage]
  rcases nodesOf_textItems note.output with ⟨hnodes, htrim⟩ | ⟨pieces, hnodes, htext⟩
  · rw [hnodes, trimmed, htrim]
    rfl
  · have htexts : texts? [.run pieces] = some [trimText note.output] := by
      simp [texts?, htext]
    rw [hnodes, htexts]
    rfl

/-- **A skip mark is read back**, its message as it was. -/
theorem skipMessage?_item (message : String) :
    skipMessage? (fieldsTag "skipped" [("message", message.toList)]) [] = some message := by
  have hmessage : Fields.text? [("message", Markup.escapeQuoted message.toList)] "message" = some message :=
    Fields.text?_of_lookup rfl
  rw [skipMessage?, Fields.ofTag?_fieldsTag (arePlain_message message)]
  exact hmessage

/-- What a test printed is read back, trimmed. -/
theorem plainText?_textItems (text : String) : plainText? (nodesOf (textItems text)) = some (trimText text) := by
  rcases nodesOf_textItems text with ⟨hnodes, htrim⟩ | ⟨pieces, hnodes, htext⟩
  · rw [hnodes, htrim, plainText?]
  · rw [hnodes, plainText?, htext]

/-- The nodes of elements with fields are those of each, since there is no text between them. -/
theorem nodesOf_of_isWritten {content : List Item} (h : ∀ i ∈ content, IsWritten i) :
    nodesOf content = content.flatMap nodes := by
  refine Markup.nodesOf_of_isNoText fun i hi => ?_
  obtain ⟨name, fields, inner, rfl⟩ := h i hi
  trivial

/-- The elements of a name in two contents one after the other. -/
theorem elements_append (name : String) (a b : List Node) :
    elements name (a ++ b) = elements name a ++ elements name b := List.filterMap_append

/-- An element with fields is found by its own name, and by no other. -/
theorem elements_writtenItem (name own : String) (hown : localName own.toList = own)
    (fields : List (String × List Char)) (content : List Item) :
    elements name (nodes (writtenItem own fields content))
      = if own = name then [(fieldsTag own fields, nodesOf content)] else [] := by
  have hlocal : localName (fieldsTag own fields).name = own := hown
  rw [writtenItem, nodes, ReadsAs.elements_cons, hlocal]
  exact List.append_nil _

/-- An element that may be absent is read when it stands alone, whatever `read` makes of it. -/
theorem atMostOne?_toList {α β : Type} {read : Tag → List Node → Option β} {f : α → Tag × List Node} {g : α → β}
    (h : ∀ x, read (f x).1 (f x).2 = some (g x)) (o : Option α) :
    atMostOne? read (o.map f).toList = some (o.map g) := by
  cases o with
  | none => rfl
  | some x => exact congrArg (Option.map some) (h x)

namespace TestCase

/-- The nodes of a case by their kinds: by each `name`, its own elements alone are found. -/
theorem elements_items (c : TestCase) (name : String) :
    elements name (nodesOf c.items)
      = (if "failure" = name then (c.failure.map fun note =>
          (fieldsTag "failure" [("message", note.message.toList)], nodesOf (textItems note.output))).toList else [])
        ++ (if "skipped" = name then (c.skipped.map fun message =>
          (fieldsTag "skipped" [("message", message.toList)], [])).toList else [])
        ++ if "system-out" = name ∧ c.systemOut ≠ "" then
          [(fieldsTag "system-out" [], nodesOf (textItems c.systemOut))] else [] := by
  rw [nodesOf_of_isWritten fun _ => isWritten_of_mem_items, items, List.flatMap_append, List.flatMap_append,
    elements_append, elements_append]
  -- one optional item of each kind, so that each one is looked at by itself
  congr 2
  · cases c.failure with
    | none => exact (ite_self _).symm
    | some note =>
      exact (congrArg (elements name) (List.append_nil _)).trans (elements_writtenItem name "failure" (by decide) _ _)
  · cases c.skipped with
    | none => exact (ite_self _).symm
    | some message =>
      exact (congrArg (elements name) (List.append_nil _)).trans (elements_writtenItem name "skipped" (by decide) _ _)
  · rw [systemOutItems]
    by_cases hout : c.systemOut = ""
    · rw [if_pos hout, if_neg fun h => h.2 hout]
      rfl
    · rw [if_neg hout, List.flatMap_singleton, elements_writtenItem name "system-out" (by decide)]
      exact if_congr (and_iff_left hout).symm rfl rfl

/-- There is no text beside the elements of a case. -/
theorem texts?_items (c : TestCase) : texts? (nodesOf c.items) = some [] := by
  refine ReadsAs.texts?_of_elements fun n hn => ?_
  rw [nodesOf_of_isWritten fun _ => isWritten_of_mem_items] at hn
  obtain ⟨i, hi, hn⟩ := List.mem_flatMap.1 hn
  obtain ⟨name, fields, content, rfl⟩ := isWritten_of_mem_items hi
  exact ⟨_, _, List.mem_singleton.1 hn⟩

/-- The fields of a case are plain. -/
theorem arePlain_fields (c : TestCase) : ArePlain c.fields :=
  arePlain_of_names ["name", "time"] rfl (by decide) (by decide)

/-- **A case is read back** as `c.trimmed`. -/
theorem testCase?_item (c : TestCase) :
    testCase? (fieldsTag "testcase" c.fields) (nodesOf c.items) = some c.trimmed := by
  have hname : Fields.text? (c.fields.map fun f => (f.1, Markup.escapeQuoted f.2)) "name" = some c.name :=
    Fields.text?_of_lookup rfl
  have hduration : Fields.duration? (c.fields.map fun f => (f.1, Markup.escapeQuoted f.2)) "time"
      = some c.duration := Fields.duration?_of_lookup rfl
  have hfailure : atMostOne? failureNote? (elements "failure" (nodesOf c.items))
      = some (c.failure.map FailureNote.trimmed) := by
    rw [c.elements_items]
    simp only [String.reduceEq, if_true, if_false, false_and, List.append_nil]
    exact atMostOne?_toList FailureNote.failureNote?_item c.failure
  have hskipped : atMostOne? skipMessage? (elements "skipped" (nodesOf c.items)) = some c.skipped := by
    rw [c.elements_items]
    simp only [String.reduceEq, if_true, if_false, false_and, List.append_nil, List.nil_append]
    exact (atMostOne?_toList skipMessage?_item c.skipped).trans (congrArg some Option.map_id')
  -- without any text no element is written, and its absence is read as no text
  obtain ⟨out, hout, htrim⟩ : ∃ out,
      atMostOne? (fun _ => plainText?) (elements "system-out" (nodesOf c.items)) = some out
        ∧ out.getD "" = trimText c.systemOut := by
    rw [c.elements_items]
    simp only [String.reduceEq, if_false, true_and, List.nil_append]
    by_cases hempty : c.systemOut = ""
    · exact ⟨none, by rw [if_neg fun h => h hempty]; rfl, by rw [hempty]; rfl⟩
    · refine ⟨some (trimText c.systemOut), ?_, rfl⟩
      rw [if_pos hempty, atMostOne?, plainText?_textItems]
      rfl
  rw [testCase?, Fields.ofTag?_fieldsTag c.arePlain_fields]
  simp only [Option.bind_eq_bind, Option.bind_some, hname, hduration, c.texts?_items, hfailure, hskipped, hout, htrim]
  rfl

end TestCase

/-! ## Suites -/

namespace Suite

/-- The fields of a suite are plain. -/
theorem arePlain_fields (name : String) (tests skipped failures : UInt32) (duration : Decimal.Binary64) :
    ArePlain (fields name tests skipped failures duration) :=
  arePlain_of_names suiteFields rfl (by decide) (by decide)

/-- The fields of a suite state what it says of itself: name, counts and duration. -/
theorem isStatedBy_fields (s : Suite) :
    s.IsStatedBy (fieldsTag "testsuite" (fields s.name s.tests s.skipped s.failures s.duration)) := by
  refine ⟨_, Fields.ofTag?_fieldsTag (arePlain_fields ..) suiteFields, ?_, ?_, ?_, ?_, ?_⟩
  · exact Fields.text?_of_lookup rfl
  · exact Fields.count?_of_lookup rfl
  · exact Fields.count?_of_lookup rfl
  · exact Fields.count?_of_lookup rfl
  · exact Fields.duration?_of_lookup rfl

/-- Cases that were written are laid out before suites, each as the trimmed case. -/
theorem isLayout_cases {suites : List Suite} {is : List Item} (h : IsLayout suiteNames [] suites is)
    (cases : List TestCase) :
    IsLayout suiteNames (cases.map TestCase.trimmed) suites (cases.map TestCase.item ++ is) := by
  induction cases with
  | nil => exact h
  | cons c cases ih =>
    have hsound : AreSound [c.item] := areSound_writtenItem (by decide) c.arePlain_fields c.areSound_items .nil
    exact .case hsound (by decide) rfl c.testCase?_item ih

mutual
/-- **The item of a suite is a layout of the trimmed suite**, whatever suites follow. The induction is on suites and
lists of suites at once. -/
theorem isLayout_item {names : List String} {suites : List Suite} {is : List Item}
    (next : IsLayout names [] suites is) : ∀ s : Suite, IsLayout names [] (s.trimmed :: suites) (s.item :: is)
  | ⟨name, tests, skipped, failures, duration, cases, children⟩ => by
    rw [trimmed, item]
    exact .suite (isSound_fieldsTag (by decide) (arePlain_fields ..)) List.isEmpty_iff.1 rfl
      (isStatedBy_fields ⟨name, tests, skipped, failures, duration, cases.map TestCase.trimmed, trimmedAll children⟩)
      (isLayout_cases (isLayout_items children) cases) next

/-- The items of a list of suites are a layout of the trimmed suites. -/
theorem isLayout_items {names : List String} : ∀ ss : List Suite, IsLayout names [] (trimmedAll ss) (items ss)
  | [] => .nil
  | s :: ss => isLayout_item (isLayout_items ss) s
end

/-- The file of a suite is a document: a declaration, its item, and the end of the line. -/
theorem toList_document (s : Suite) : s.document.toList = Markup.Item.document declaration s.item ['\n'] := by
  have hdeclaration : "<?xml version=\"1.0\" encoding=\"UTF-8\"?>\n".toList = charsOf declaration := by
    decide +kernel
  have hchars : s.document.toList
      = "<?xml version=\"1.0\" encoding=\"UTF-8\"?>\n".toList ++ s.element ++ "\n".toList := String.toList_ofList
  have hend : "\n".toList = ['\n'] := rfl
  rw [hchars, Markup.Item.document, chars_item, hdeclaration, hend, List.append_assoc]

/-- **The file of a suite is read as the suite**, without the blanks at the ends of its outputs: `.ok [s.trimmed]`, for
every tree `s`. -/
theorem forestOfBytes_document (s : Suite) : forestOfBytes s.document.toUTF8.toList = .ok [s.trimmed] := by
  have hbytes : s.document.toUTF8.toList = bytesOf declaration s.item ['\n'] := by
    rw [bytesOf, ← toList_document, String.ofList_toList]
  rw [hbytes]
  exact (isLayout_item .nil s).forestOfBytes_single arePreliminary_declaration _

end Suite

end PayloadGate.Junit
