import PayloadGate.Junit.Reader
import PayloadGate.Proofs.Markup.Document
import PayloadGate.Proofs.Text.Encoding

/-! # The layout of a result file

* **`IsLayout`** — a content in which cases and suites stand in their own order, mixed in any way and with blanks,
  comments and unknown elements between them.
* **`IsLayout.readsAs`** — what such a content is read as.
* **`forestOfBytes_layout`** — the layout of a file does not matter, and neither does it whether a single suite
  stands in a list or by itself. -/

namespace PayloadGate.Junit

open Markup (Tag Item Node localName)
open Markup.Item (AreSound ArePreliminary nodes nodesFrom nodesOf document)

/-! ## Layouts -/

/-- The names of the attributes that a suite states of itself. -/
abbrev suiteFields : List String := ["name", "tests", "skipped", "failures", "time"]

/-- **A tag that states what a suite says of itself**: its name, its counts and its duration. -/
def Suite.IsStatedBy (s : Suite) (tag : Tag) : Prop :=
  ∃ fields, Fields.ofTag? suiteFields tag = some fields ∧ Fields.text? fields "name" = some s.name
    ∧ Fields.count? fields "tests" = some s.tests ∧ Fields.count? fields "skipped" = some s.skipped
    ∧ Fields.count? fields "failures" = some s.failures ∧ Fields.duration? fields "time" = some s.duration

/-- The names of the elements that count in a suite. -/
abbrev suiteNames : List String := ["testcase", "testsuite"]

/-- The names of the elements that count in a list of suites. -/
abbrev listNames : List String := ["testsuite"]

/-- **A layout of cases and suites.** The cases stand in their order and the suites in theirs, one kind among the
other; between them there are blanks, comments and elements of other names than the given ones. Each suite is laid
out in the same way. -/
inductive IsLayout : List String → List TestCase → List Suite → List Item → Prop where
  /-- The end of the content. -/
  | nil {names : List String} : IsLayout names [] [] []
  /-- Blanks. -/
  | blank {names : List String} {cases : List TestCase} {suites : List Suite} {is : List Item} {raw : List Char}
    (h : ∀ c ∈ raw, Markup.isSpace c = true) (next : IsLayout names cases suites is) :
    IsLayout names cases suites (.data raw :: is)
  /-- A comment. -/
  | comment {names : List String} {cases : List TestCase} {suites : List Suite} {is : List Item}
    {content : List Char} (h : ¬['-', '-', '>'] <:+: content) (next : IsLayout names cases suites is) :
    IsLayout names cases suites (.comment content :: is)
  /-- An unknown element. -/
  | other {names : List String} {cases : List TestCase} {suites : List Suite} {is : List Item} {tag : Tag}
    {short : Bool} {content : List Item} (sound : AreSound [.element tag short content])
    (unknown : localName tag.name ∉ names) (next : IsLayout names cases suites is) :
    IsLayout names cases suites (.element tag short content :: is)
  /-- A case, in any form in which it is read by itself. -/
  | case {names : List String} {cases : List TestCase} {suites : List Suite} {is : List Item} {tag : Tag}
    {short : Bool} {content : List Item} {c : TestCase} (sound : AreSound [.element tag short content])
    (listed : "testcase" ∈ names) (named : tag.name = "testcase".toList)
    (reads : testCase? tag (nodesOf content) = some c) (next : IsLayout names cases suites is) :
    IsLayout names (c :: cases) suites (.element tag short content :: is)
  /-- A suite, which is laid out itself. -/
  | suite {names : List String} {cases : List TestCase} {suites : List Suite} {is : List Item} {tag : Tag}
    {short : Bool} {content : List Item} {s : Suite} (sound : tag.IsSound) (empty : short = true → content = [])
    (named : tag.name = "testsuite".toList) (stated : s.IsStatedBy tag)
    (inner : IsLayout suiteNames s.cases s.children content) (next : IsLayout names cases suites is) :
    IsLayout names cases (s :: suites) (.element tag short content :: is)

namespace IsLayout

variable {names : List String} {cases : List TestCase} {suites : List Suite} {items : List Item}

/-- A layout can be written: its items are `AreSound`. -/
theorem areSound (h : IsLayout names cases suites items) : AreSound items := by
  induction h with
  | nil => exact .nil
  | blank h next ih => exact .data (Markup.lt_notMem_of_blank h) (Markup.isSome_resolve?_of_blank h) ih
  | comment h next ih => exact .comment h ih
  | other sound unknown next ih => exact sound.cons ih
  | case sound listed named reads next ih => exact sound.cons ih
  | suite sound empty named stated inner next ihInner ih => exact .element sound empty ihInner ih

/-- There is no text in a layout but blanks. -/
theorem isNoText (h : IsLayout names cases suites items) : ∀ i ∈ items, i.IsNoText := by
  induction h with
  | nil => exact fun i hi => absurd hi List.not_mem_nil
  | blank h next ih => exact List.forall_mem_cons.2 ⟨h, ih⟩
  | comment h next ih => exact List.forall_mem_cons.2 ⟨trivial, ih⟩
  | other sound unknown next ih => exact List.forall_mem_cons.2 ⟨trivial, ih⟩
  | case sound listed named reads next ih => exact List.forall_mem_cons.2 ⟨trivial, ih⟩
  | suite sound empty named stated inner next ihInner ih => exact List.forall_mem_cons.2 ⟨trivial, ih⟩

end IsLayout

/-! ## What a layout is read as -/

/-- **What the elements of a content are read as**: the `cases` and the `suites`, each kind in its order, with nothing
that stands in the way. -/
structure ReadsAs (names : List String) (cases : List TestCase) (suites : List Suite) (content : List Node) :
    Prop where
  /-- There are elements alone, and all data in them can be read. -/
  elements : ∀ n ∈ content, ∃ tag inner, n = .element tag inner ∧ Node.areResolvable inner = true
  /-- The elements that count have no prefix. -/
  named : ∀ name ∈ names, ∀ e ∈ Junit.elements name content, e.1.name = name.toList
  /-- The cases. -/
  cases : "testcase" ∈ names →
    (Junit.elements "testcase" content).mapM (fun e => testCase? e.1 e.2) = some cases
  /-- The suites. -/
  suites : "testsuite" ∈ names → suites? content = some suites

namespace ReadsAs

variable {names : List String} {cases : List TestCase} {suites : List Suite} {content : List Node}

/-- There is no text among elements: `texts? content = some []`. -/
theorem texts?_of_elements (h : ∀ n ∈ content, ∃ tag inner, n = .element tag inner) : texts? content = some [] := by
  induction content with
  | nil => rfl
  | cons n content ih =>
    obtain ⟨tag, inner, rfl⟩ := h n List.mem_cons_self
    exact ih fun m hm => h m (List.mem_cons_of_mem _ hm)

/-- Elements of one local name that have no prefix have one whole name. -/
theorem haveOneName_of_forall {name : List Char} {es : List (Tag × List Node)} (h : ∀ e ∈ es, e.1.name = name) :
    haveOneName es = true := by
  rcases es with _ | ⟨⟨first, inner⟩, rest⟩
  · rfl
  · refine List.all_eq_true.2 fun e he => beq_iff_eq.2 ?_
    exact (h e (List.mem_cons_of_mem _ he)).trans (h ⟨first, inner⟩ List.mem_cons_self).symm

/-- The elements of a `name`, from the first element of the content on. -/
theorem elements_cons (name : String) (tag : Tag) (inner content : List Node) :
    Junit.elements name (.element tag inner :: content)
      = (if localName tag.name = name then [(tag, inner)] else []) ++ Junit.elements name content := by
  by_cases hlocal : localName tag.name = name <;> simp [Junit.elements, hlocal]

/-- **An element more at the front**: with a case, a suite or neither, as `cases'` and `suites'` say. -/
theorem cons {tag : Tag} {inner : List Node} {cases' : List TestCase} {suites' : List Suite}
    (h : ReadsAs names cases suites content) (hinner : Node.areResolvable inner = true)
    (hnamed : ∀ name ∈ names, localName tag.name = name → tag.name = name.toList)
    (hcases : "testcase" ∈ names →
      (Junit.elements "testcase" (.element tag inner :: content)).mapM (fun e => testCase? e.1 e.2) = some cases')
    (hsuites : "testsuite" ∈ names → suites? (.element tag inner :: content) = some suites') :
    ReadsAs names cases' suites' (.element tag inner :: content) := by
  refine ⟨fun n hn => ?_, fun name hname e he => ?_, hcases, hsuites⟩
  · rcases List.mem_cons.1 hn with rfl | hn
    · exact ⟨tag, inner, rfl, hinner⟩
    · exact h.elements n hn
  · rw [elements_cons] at he
    rcases List.mem_append.1 he with he | he
    · split_ifs at he with hlocal
      · rw [List.mem_singleton.1 he]
        exact hnamed name hname hlocal
      · cases he
    · exact h.named name hname e he

/-- **Such a content can be gone through**: `isPassable` for its `names`. -/
theorem isPassable (h : ReadsAs names cases suites content) : Junit.isPassable names content = true := by
  -- nothing before the first listed element is text, and all behind it can be resolved
  have hbefore : texts? (content.takeWhile (!isListed names ·)) = some [] :=
    texts?_of_elements fun n hn =>
      let ⟨tag, inner, heq, _⟩ := h.elements n ((List.takeWhile_prefix _).subset hn)
      ⟨tag, inner, heq⟩
  have hnames : (names.all fun name => haveOneName (Junit.elements name content)) = true :=
    List.all_eq_true.2 fun name hname => haveOneName_of_forall (h.named name hname)
  have hkept : ∀ n ∈ content.dropWhile (!isListed names ·), ∃ tag inner, n = .element tag inner
      ∧ Node.areResolvable inner = true := fun n hn => h.elements n ((List.dropWhile_suffix _).subset hn)
  rw [Junit.isPassable, hbefore, hnames, Bool.and_true, Option.isSome_some, Bool.true_and]
  split
  · rfl
  · rename_i first rest hdrop
    rw [hdrop] at hkept
    obtain ⟨listed, _, rfl, -⟩ := hkept first List.mem_cons_self
    refine List.all_eq_true.2 fun n hn => ?_
    obtain ⟨tag, inner, rfl, hinner⟩ := hkept n (List.mem_cons_of_mem _ hn)
    rw [isPassableBehind, hinner, Bool.or_true]

/-- **The suite of such a content** is `s`, when the tag states what `s` says of itself. -/
theorem suite?_eq {s : Suite} {tag : Tag} (h : ReadsAs suiteNames s.cases s.children content)
    (hstated : s.IsStatedBy tag) : Junit.suite? (.element tag content) = some s := by
  obtain ⟨fields, hfields, hname, htests, hskipped, hfailures, hduration⟩ := hstated
  have hcases := h.cases (by decide)
  have hchildren := h.suites (by decide)
  rw [Junit.suite?, hfields]
  simp only [Option.bind_eq_bind, Option.bind_some, hname, htests, hskipped, hfailures, hduration, hcases,
    hchildren, h.isPassable, if_true]
  cases s
  rfl

/-- **The list of such a content** are its `suites`; it has no cases. -/
theorem suiteList?_eq {tag : Tag} (h : ReadsAs listNames cases suites content)
    (hattributes : tag.attributes?.isSome = true) : Junit.suiteList? (.element tag content) = some suites := by
  obtain ⟨attributes, hattributes⟩ := Option.isSome_iff_exists.1 hattributes
  have hfields : Fields.ofTag? [] tag = some (attributes.map fun a => (Markup.attributeName a.1, a.2)) := by
    rw [Fields.ofTag?, hattributes]
    rfl
  rw [Junit.suiteList?, hfields]
  simp only [Option.bind_eq_bind, Option.bind_some, h.suites (by decide), h.isPassable, if_true]

end ReadsAs

open ReadsAs (elements_cons) in
/-- **What a layout is read as**: the nodes of its items are `ReadsAs` its cases and suites. The induction is on the
layout. -/
theorem IsLayout.readsAs {names : List String} {cases : List TestCase} {suites : List Suite} {items : List Item}
    (h : IsLayout names cases suites items) : ReadsAs names cases suites (items.flatMap nodes) := by
  -- by induction on the items: blanks and comments leave no nodes, and a tag that is not among `names` is passed over
  induction h with
  | nil => exact ⟨fun n hn => absurd hn List.not_mem_nil, fun _ _ e he => absurd he List.not_mem_nil,
      fun _ => rfl, fun _ => rfl⟩
  | blank h next ih => exact ih
  | comment h next ih => exact ih
  | @other names cases suites is tag short content sound unknown next ih =>
    have hlisted : ∀ name ∈ names, localName tag.name ≠ name := fun name hname heq => unknown (heq ▸ hname)
    refine ih.cons (Markup.areResolvable_inner sound) (fun name hname heq => absurd heq (hlisted name hname))
      (fun hcase => ?_) fun hsuite => ?_
    · rw [elements_cons, if_neg (hlisted _ hcase)]
      exact ih.cases hcase
    · rw [suites?, if_neg (hlisted _ hsuite)]
      exact ih.suites hsuite
  | @case names cases suites is tag short content c sound listed named reads next ih =>
    have hlocal : localName tag.name = "testcase" := by rw [named]; decide
    refine ih.cons (Markup.areResolvable_inner sound) (fun name _ heq => ?_) (fun hcase => ?_) fun hsuite => ?_
    · rw [← heq, hlocal, named]
    · rw [elements_cons, if_pos hlocal, List.singleton_append, List.mapM_cons, reads, ih.cases hcase]
      rfl
    · rw [suites?, if_neg (by rw [hlocal]; decide)]
      exact ih.suites hsuite
  | @suite names cases suites is tag short content s sound empty named stated inner next ihInner ih =>
    have hlocal : localName tag.name = "testsuite" := by rw [named]; decide
    have hnodes : nodesFrom [] [] content = content.flatMap nodes := Markup.nodesOf_of_isNoText inner.isNoText
    refine ih.cons (Markup.areResolvable_nodesOf inner.areSound) (fun name _ heq => ?_) (fun hcase => ?_)
      fun hsuite => ?_
    · rw [← heq, hlocal, named]
    · rw [elements_cons, if_neg (by rw [hlocal]; decide)]
      exact ih.cases hcase
    · rw [suites?, if_pos hlocal, hnodes, ihInner.suite?_eq stated, ih.suites hsuite]
      rfl

/-! ## Files -/

/-- The bytes of a document with the element `root`, and with whatever stands `behind` it. -/
def bytesOf (preliminary : List Item) (root : Item) (behind : List Char) : List UInt8 :=
  (String.ofList (document preliminary root behind)).toUTF8.toList

section File

variable {preliminary : List Item} {tag : Tag} {short : Bool} {content : List Item} (behind : List Char)

/-- A file that holds a list of suites is read as the list. -/
theorem forestOfBytes_list (hpreliminary : ArePreliminary preliminary) (h : AreSound [.element tag short content])
    (hlocal : localName tag.name = "testsuites") {suites : List Suite}
    (hread : suiteList? (.element tag (nodesOf content)) = some suites) :
    forestOfBytes (bytesOf preliminary (.element tag short content) behind) = .ok suites := by
  obtain ⟨hname, hdocument⟩ := Markup.document?_written hpreliminary h behind
  rw [hlocal] at hname
  rw [forestOfBytes, bytesOf, Text.Utf8.decode?_toUTF8, String.toList_ofList]
  simp only [hname, hdocument, Option.bind_eq_bind, Option.bind_some, hread]

/-- A file that holds one suite is read as a list of this suite. -/
theorem forestOfBytes_suite (hpreliminary : ArePreliminary preliminary) (h : AreSound [.element tag short content])
    (hlocal : localName tag.name = "testsuite") {s : Suite}
    (hread : suite? (.element tag (nodesOf content)) = some s) :
    forestOfBytes (bytesOf preliminary (.element tag short content) behind) = .ok [s] := by
  obtain ⟨hname, hdocument⟩ := Markup.document?_written hpreliminary h behind
  rw [hlocal] at hname
  rw [forestOfBytes, bytesOf, Text.Utf8.decode?_toUTF8, String.toList_ofList]
  simp only [hname, hdocument, Option.bind_eq_bind, Option.bind_some, hread]

end File

/-- **A layout of one suite as the file itself** is read as a list of this suite. -/
theorem IsLayout.forestOfBytes_single {s : Suite} {root : Item} (h : IsLayout listNames [] [s] [root])
    {preliminary : List Item} (hpreliminary : ArePreliminary preliminary) (behind : List Char) :
    forestOfBytes (bytesOf preliminary root behind) = .ok [s] := by
  have hsound := h.areSound
  cases h with
  | blank _ next => cases next
  | comment _ next => cases next
  | other _ _ next => cases next
  | suite sound empty named stated inner next =>
    refine forestOfBytes_suite behind hpreliminary hsound (by rw [named]; decide) ?_
    rw [Markup.nodesOf_of_isNoText inner.isNoText]
    exact inner.readsAs.suite?_eq stated

/-- **A tag that opens a list of suites**; what attributes it has does not matter. -/
structure OpensList (tag : Tag) : Prop where
  /-- It can be written. -/
  sound : tag.IsSound
  /-- It has the name of a list. -/
  named : tag.name = "testsuites".toList
  /-- Its attributes can be read. -/
  readable : tag.attributes?.isSome = true

/-- **A layout of suites within a list** is read as the `forest`, also from a single tag when there are none. -/
theorem IsLayout.forestOfBytes_within {forest : List Suite} {items : List Item}
    (h : IsLayout listNames [] forest items) {preliminary : List Item} (hpreliminary : ArePreliminary preliminary)
    {tag : Tag} (htag : OpensList tag) {short : Bool} (hempty : short = true → items = []) (behind : List Char) :
    forestOfBytes (bytesOf preliminary (.element tag short items) behind) = .ok forest := by
  refine forestOfBytes_list behind hpreliminary (.element htag.sound hempty h.areSound .nil)
    (by rw [htag.named]; decide) ?_
  rw [Markup.nodesOf_of_isNoText h.isNoText]
  exact h.readsAs.suiteList?_eq htag.readable

/-- **The layout of a result file does not matter.** However the cases and the suites of every suite of a forest are
mixed, and whatever blanks, comments and unknown elements stand between them, the file is read as the forest; and a
single suite is read in the same way from a file that holds it alone. -/
theorem forestOfBytes_layout {preliminary : List Item} (hpreliminary : ArePreliminary preliminary) {tag : Tag}
    (htag : OpensList tag) (behind : List Char) :
    (∀ forest items short, IsLayout listNames [] forest items → (short = true → items = []) →
      forestOfBytes (bytesOf preliminary (.element tag short items) behind) = .ok forest)
    ∧ ∀ s root, IsLayout listNames [] [s] [root] →
      forestOfBytes (bytesOf preliminary root behind)
        = forestOfBytes (bytesOf preliminary (.element tag false [root]) behind) := by
  constructor
  · exact fun forest items short h hempty => h.forestOfBytes_within hpreliminary htag hempty behind
  · intro s root h
    rw [h.forestOfBytes_single hpreliminary behind,
      h.forestOfBytes_within hpreliminary htag (fun hshort => absurd hshort Bool.false_ne_true) behind]

/-! ## A mixed file -/

/-- An element that is a single tag when there is no `content`. -/
def plainElement (name attributes : String) (content : List Item) : Item :=
  .element ⟨name.toList, attributes.toList⟩ content.isEmpty content

/-- The duration `3021.5`. -/
def mixedDuration : Decimal.Binary64 :=
  .finite false ⟨6644348766650368, 1033, by decide, by decide, by decide⟩

/-- A suite with a suite between its cases, which has a duration of `3021.5` seconds. -/
def mixedSuite : Suite where
  name := "cluster install"
  tests := 2
  skipped := 0
  failures := 1
  duration := .zero
  cases := [⟨"install should succeed: overall", mixedDuration, none, none, ""⟩,
    ⟨"install should succeed: configuration", .zero, some ⟨"timed out", "waited 40m"⟩, none, ""⟩]
  children := [⟨"infrastructure", 0, 0, 0, .zero, [⟨"bootstrap", .zero, none, some "not applicable", ""⟩], []⟩]

/-- The element of `mixedSuite`, with properties of the suite before the cases. -/
def mixedRoot : Item :=
  plainElement "testsuite" " name=\"cluster install\" tests=\"2\" failures=\"1\""
    [.data "\n  ".toList,
      plainElement "properties" "" [plainElement "property" " name=\"TestVersion\" value=\"4.11\"" []],
      plainElement "testcase" " name=\"install should succeed: overall\" time=\"3021.5\"" [],
      plainElement "testsuite" " name=\"infrastructure\""
        [plainElement "testcase" " name=\"bootstrap\""
          [plainElement "skipped" " message=\"not applicable\"" []]],
      .comment " the last case ".toList,
      plainElement "testcase" " name=\"install should succeed: configuration\""
        [.data "\n    ".toList,
          plainElement "failure" " message=\"timed out\"" [.data "waited 40m".toList],
          .data "\n  ".toList],
      .data "\n".toList]

/-- The declaration of a document, and the end of its line. -/
def declaration : List Item := [.instruction "xml version=\"1.0\" encoding=\"UTF-8\"".toList, .data ['\n']]

/-- A declaration may stand before the outermost element. -/
theorem arePreliminary_declaration : ArePreliminary declaration :=
  .instruction (by decide +kernel) (.blank (by decide) .nil)

/-- A tag without attributes opens a list. -/
theorem opensList_plain : OpensList ⟨"testsuites".toList, []⟩ := ⟨by decide, rfl, rfl⟩

/-- A list of two suites, the second of which is empty. -/
def mixedItems : List Item :=
  [.data "\n  ".toList, mixedRoot, .data "\n  ".toList, plainElement "testsuite" " name=\"openshift-tests\"" [],
    .data "\n".toList]

/-- `mixedRoot` is a layout of `mixedSuite`, whatever `suites` follow. -/
theorem isLayout_mixedRoot {suites : List Suite} {is : List Item} (next : IsLayout listNames [] suites is) :
    IsLayout listNames [] (mixedSuite :: suites) (mixedRoot :: is) := by
  have hproperties : AreSound
      [plainElement "properties" "" [plainElement "property" " name=\"TestVersion\" value=\"4.11\"" []]] :=
    .element (by decide) (by decide) (.element (by decide) (by decide) .nil .nil) .nil
  have hskipped : AreSound
      [plainElement "testcase" " name=\"bootstrap\"" [plainElement "skipped" " message=\"not applicable\"" []]] :=
    .element (by decide) (by decide) (.element (by decide) (by decide) .nil .nil) .nil
  have hfailed : AreSound [plainElement "testcase" " name=\"install should succeed: configuration\""
      [.data "\n    ".toList, plainElement "failure" " message=\"timed out\"" [.data "waited 40m".toList],
        .data "\n  ".toList]] :=
    .element (by decide) (by decide)
      (.data (by decide) (by decide)
        (.element (by decide) (by decide) (.data (by decide) (by decide) .nil) (.data (by decide) (by decide) .nil)))
      .nil
  refine .suite (by decide) (by decide) rfl ⟨_, rfl, rfl, rfl, rfl, rfl, rfl⟩ ?_ next
  refine .blank (by decide) (.other hproperties (by decide) ?_)
  refine .case (.element (by decide) (by decide) .nil .nil) (by decide) rfl (by decide +kernel) ?_
  refine .suite (by decide) (by decide) rfl ⟨_, rfl, rfl, rfl, rfl, rfl, rfl⟩ ?_ ?_
  · exact .case hskipped (by decide) rfl (by decide +kernel) .nil
  · exact .comment (by decide +kernel) (.case hfailed (by decide) rfl (by decide +kernel) (.blank (by decide) .nil))

/-- Two suites are read from a list, and the first of them is read from its own file as from a list. -/
theorem forestOfBytes_layout_mixed :
    forestOfBytes (bytesOf declaration (.element ⟨"testsuites".toList, []⟩ false mixedItems) [])
        = .ok [mixedSuite, .named "openshift-tests"]
      ∧ forestOfBytes (bytesOf declaration mixedRoot [])
        = forestOfBytes (bytesOf declaration (.element ⟨"testsuites".toList, []⟩ false [mixedRoot]) []) := by
  have h := forestOfBytes_layout arePreliminary_declaration opensList_plain []
  have hsecond : IsLayout listNames [] [.named "openshift-tests"]
      [.data "\n  ".toList, plainElement "testsuite" " name=\"openshift-tests\"" [], .data "\n".toList] :=
    .blank (by decide) (.suite (by decide) (by decide) rfl ⟨_, rfl, rfl, rfl, rfl, rfl, rfl⟩ .nil
      (.blank (by decide) .nil))
  exact ⟨h.1 _ mixedItems _ (.blank (by decide) (isLayout_mixedRoot hsecond)) (by decide),
    h.2 _ _ (isLayout_mixedRoot .nil)⟩

end PayloadGate.Junit
