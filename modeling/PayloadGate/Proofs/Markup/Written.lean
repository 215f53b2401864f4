import PayloadGate.Proofs.Markup.Reference

/-! # Markup as it is written

A content is written item after item: data, literal data, comments, instructions and elements. Data that stands
between two tags is one run, whatever comments and instructions stand in it.

* **`Item`** — an item of a content; **`Item.charsOf`** gives the characters of a content and
  **`Item.nodesOf`** what it means.
* **`Item.AreSound`** — what can be written: nothing in an item ends it early.
* **`Lexer.run_literal`**, **`Lexer.run_comment`**, **`Lexer.run_instruction`**, **`Tag.IsSound.run_opening`**,
  **`Tag.IsSound.run_empty`**, **`Tag.IsSound.run_closing`** — each item is read as it was written.
* **`build_content`** — a content that was written is read up to the end of its element. -/

namespace PayloadGate.Markup

/-! ## Items -/

/-- **An item of the content of an element**, as it is written. -/
inductive Item where
  /-- Character data, with its references. -/
  | data (raw : List Char)
  /-- Literal character data. -/
  | literal (content : List Char)
  /-- A comment. -/
  | comment (content : List Char)
  /-- An instruction. -/
  | instruction (content : List Char)
  /-- An element; a short one is a single tag. -/
  | element (tag : Tag) (short : Bool) (content : List Item)

namespace Item

mutual
/-- The characters of an item, with the marks around its content. -/
def chars : Item → List Char
  | data raw => raw
  | literal content => '<' :: '!' :: (Lexer.literalMark ++ content ++ [']', ']', '>'])
  | comment content => '<' :: '!' :: (Lexer.commentMark ++ content ++ ['-', '-', '>'])
  | instruction content => '<' :: '?' :: (content ++ ['?', '>'])
  | element tag short content =>
    if short then '<' :: (tag.name ++ tag.rest ++ ['/', '>'])
    else '<' :: (tag.name ++ tag.rest ++ '>' :: (charsOf content ++ '<' :: '/' :: (tag.name ++ ['>'])))

/-- **The characters of a content**, item by item. -/
def charsOf : List Item → List Char
  | [] => []
  | i :: is => chars i ++ charsOf is
end

/-- The character data since the last tag: `pieces`, and what has been `seen` behind the last of them. -/
def flush (pieces : List Piece) (seen : List Char) : List Piece :=
  if seen = [] then pieces else pieces ++ [.text seen]

mutual
/-- The node of an item that is an element; the other items have none of their own. -/
def nodes : Item → List Node
  | element tag _ content => [.element tag (nodesFrom [] [] content)]
  | _ => []

/-- The nodes of a content behind character data: data that no tag divides belongs to one run, whatever comments stand
in it. -/
def nodesFrom (pieces : List Piece) (seen : List Char) : List Item → List Node
  | [] => Node.ofRun (flush pieces seen)
  | data raw :: is => nodesFrom pieces (seen ++ raw) is
  | literal content :: is => nodesFrom (flush pieces seen ++ [.literal content]) [] is
  | comment _ :: is | instruction _ :: is => nodesFrom (flush pieces seen) [] is
  | element tag short content :: is =>
    Node.ofRun (flush pieces seen) ++ nodes (element tag short content) ++ nodesFrom [] [] is
end

/-- **The nodes of a content**, at the beginning of an element. -/
abbrev nodesOf (content : List Item) : List Node := nodesFrom [] [] content

end Item

/-! ## What can be written -/

namespace Lexer

/-- Whether a part of a tag, read within quotes or outside of them, has its quotes closed at its end and no
`>` outside of them. -/
def closes : Option Char → List Char → Bool
  | quote, [] => quote.isNone
  | none, c :: cs => c != '>' && closes (quote? c) cs
  | some q, c :: cs => closes (if c = q then none else some q) cs

end Lexer

/-- **A tag that can be written.** -/
structure Tag.IsSound (tag : Tag) : Prop where
  /-- It has a name. -/
  name_ne : tag.name ≠ []
  /-- There are no blanks and no marks in the name. -/
  name_plain : ∀ c ∈ tag.name, isSpace c = false ∧ c ∉ ['<', '>', '/', '!', '?', '\x22', '\x27']
  /-- The name ends at a blank. -/
  rest_blank : tag.rest.head?.all isSpace = true
  /-- The quotes are closed. -/
  rest_closes : Lexer.closes none tag.rest = true
  /-- The mark of a short element is not at its end. -/
  rest_end : tag.rest.getLast? ≠ some '/'

/-- Whether a tag can be written is decided by its characters. -/
instance (tag : Tag) : Decidable tag.IsSound :=
  decidable_of_iff
    (tag.name ≠ [] ∧ (∀ c ∈ tag.name, isSpace c = false ∧ c ∉ ['<', '>', '/', '!', '?', '\x22', '\x27'])
      ∧ tag.rest.head?.all isSpace = true ∧ Lexer.closes none tag.rest = true ∧ tag.rest.getLast? ≠ some '/')
    ⟨fun ⟨hne, hplain, hblank, hcloses, hend⟩ => ⟨hne, hplain, hblank, hcloses, hend⟩,
      fun ⟨hne, hplain, hblank, hcloses, hend⟩ => ⟨hne, hplain, hblank, hcloses, hend⟩⟩

/-- **A content that can be written**: nothing in an item ends it early, and its data can be read. -/
inductive Item.AreSound : List Item → Prop where
  /-- No items. -/
  | nil : AreSound []
  /-- Character data opens no tag. -/
  | data {raw : List Char} {is : List Item} (h : '<' ∉ raw) (readable : (resolve? raw).isSome = true)
    (next : AreSound is) : AreSound (.data raw :: is)
  /-- Literal data does not hold the mark at its end. -/
  | literal {content : List Char} {is : List Item} (h : ¬[']', ']', '>'] <:+: content) (next : AreSound is) :
    AreSound (.literal content :: is)
  /-- Neither does a comment. -/
  | comment {content : List Char} {is : List Item} (h : ¬['-', '-', '>'] <:+: content) (next : AreSound is) :
    AreSound (.comment content :: is)
  /-- Neither does an instruction. -/
  | instruction {content : List Char} {is : List Item} (h : ¬['?', '>'] <:+: '?' :: content)
    (next : AreSound is) : AreSound (.instruction content :: is)
  /-- An element. -/
  | element {tag : Tag} {short : Bool} {content is : List Item} (sound : tag.IsSound)
    (empty : short = true → content = []) (inner : AreSound content) (next : AreSound is) :
    AreSound (.element tag short content :: is)

/-! ## Tokens -/

namespace Lexer

variable {seen cs more : List Char} {c : Char} {l l' : Lexer} {t : Token}

/-- A character that completes no token leads to the next state. -/
theorem run_cons_of_none (h : l.step c = (none, some l')) (cs : List Char) : l.run (c :: cs) = l'.run cs := by
  rw [run, h]
  rfl

/-- A character that completes the token `t` leads to the next state behind it. -/
theorem run_cons_of_some (h : l.step c = (some t, some l')) (cs : List Char) :
    l.run (c :: cs) = t :: l'.run cs := by
  rw [run, h]
  rfl

/-- Character data without a `<`, which opens no tag, is taken as a whole. -/
theorem run_data (h : '<' ∉ cs) (seen more : List Char) :
    (text seen).run (cs ++ more) = (text (cs.reverse ++ seen)).run more := by
  induction cs generalizing seen with
  | nil => rfl
  | cons c cs ih =>
    have hc : c ≠ '<' := fun heq => h (heq ▸ List.mem_cons_self)
    have hstep : (text seen).step c = (none, some (text (c :: seen))) := if_neg hc
    rw [List.cons_append, run_cons_of_none hstep, List.reverse_cons, List.append_assoc]
    exact ih (fun hmem => h (List.mem_cons_of_mem c hmem)) _

/-- The token of the character data that has been `seen`, none when there is no data. -/
def pending (seen : List Char) : List Token := if seen = [] then [] else [.text seen]

/-- A `<` ends character data, and opens a tag. -/
theorem run_text_lt (seen more : List Char) :
    (text seen.reverse).run ('<' :: more) = pending seen ++ opened.run more := by
  by_cases hseen : seen = []
  · rw [hseen]
    rfl
  · have hne : seen.reverse ≠ [] := mt List.reverse_eq_nil_iff.1 hseen
    have hstep : (text seen.reverse).step '<' = (some (.text seen), some opened) := by
      rw [step, if_pos rfl, if_neg hne, List.reverse_reverse]
    rw [run_cons_of_some hstep, pending, if_neg hseen]
    rfl

/-- A part of a tag in which the quotes are closed is taken as a whole, from within a quote or outside. -/
theorem run_tag {quote : Option Char} (h : closes quote cs = true) (seen more : List Char) :
    (tag quote seen).run (cs ++ more) = (tag none (cs.reverse ++ seen)).run more := by
  induction cs generalizing quote seen with
  | nil =>
    obtain rfl := Option.isNone_iff_eq_none.1 h
    rfl
  | cons c cs ih =>
    rw [List.cons_append, List.reverse_cons, List.append_assoc]
    cases quote with
    | none =>
      rw [closes, Bool.and_eq_true, bne_iff_ne] at h
      have hstep : (tag none seen).step c = (none, some (tag (quote? c) (c :: seen))) := if_neg h.1
      rw [run_cons_of_none hstep]
      exact ih h.2 _
    | some q =>
      rw [closes] at h
      exact ih h _

/-- A tag ends at the first `>` outside of its quotes. -/
theorem run_tag_gt (seen more : List Char) :
    (tag none seen).run ('>' :: more) = Token.ofInside seen.reverse :: start.run more := rfl

/-- A mark of two equal characters and `>` ends what it belongs to, unless it stands in it. The comment and the literal
data are the two cases. -/
theorem run_until_mark {state : List Char → Lexer} {mark : Char} {f : List Char → Token}
    (hstep : ∀ seen c, (state seen).step c = if c = '>' ∧ seen.take 2 = [mark, mark]
      then (some (f (seen.drop 2).reverse), some start) else (none, some (state (c :: seen))))
    (hmark : mark ≠ '>') (seen : List Char) (h : ¬[mark, mark, '>'] <:+: seen.reverse ++ cs) (more : List Char) :
    (state seen).run (cs ++ [mark, mark, '>'] ++ more) = f (seen.reverse ++ cs) :: start.run more := by
  -- by induction on the text: before its end, `>` never comes behind two marks, so the lexer stays in the state
  induction cs generalizing seen with
  | nil =>
    have hfirst : ∀ seen, (state seen).step mark = (none, some (state (mark :: seen))) := fun seen => by
      rw [hstep, if_neg fun hc => hmark hc.1]
    have hlast : (state (mark :: mark :: seen)).step '>' = (some (f seen.reverse), some start) := by
      rw [hstep]
      exact if_pos ⟨rfl, rfl⟩
    rw [List.append_nil]
    exact (run_cons_of_none (hfirst _) _).trans
      ((run_cons_of_none (hfirst _) _).trans (run_cons_of_some hlast more))
  | cons c cs ih =>
    have hgo : ¬(c = '>' ∧ seen.take 2 = [mark, mark]) := by
      rintro ⟨rfl, hseen⟩
      refine h ⟨(seen.drop 2).reverse, cs, ?_⟩
      rw [← List.take_append_drop 2 seen, hseen]
      simp
    have hrest : ¬[mark, mark, '>'] <:+: (c :: seen).reverse ++ cs := by
      rwa [List.reverse_cons, List.append_assoc]
    rw [List.cons_append, List.cons_append, run_cons_of_none ((hstep seen c).trans (if_neg hgo)), ih _ hrest,
      List.reverse_cons, List.append_assoc]
    rfl

/-- Literal data without `]]>` in it is read as it was written. -/
theorem run_literal (h : ¬[']', ']', '>'] <:+: cs) (seen more : List Char) :
    (text seen.reverse).run ((Item.literal cs).chars ++ more) = pending seen ++ .literal cs :: start.run more := by
  have hstep : ∀ seen c, (literal seen).step c = if c = '>' ∧ seen.take 2 = [']', ']']
      then (some (.literal (seen.drop 2).reverse), some start) else (none, some (literal (c :: seen))) :=
    fun _ _ => rfl
  rw [Item.chars, List.cons_append, run_text_lt]
  exact congrArg (pending seen ++ ·) (run_until_mark hstep (by decide) [] h more)

/-- A comment without its end in it is passed over. -/
theorem run_comment (h : ¬['-', '-', '>'] <:+: cs) (seen more : List Char) :
    (text seen.reverse).run ((Item.comment cs).chars ++ more) = pending seen ++ .aside :: start.run more := by
  have hstep : ∀ seen c, (comment seen).step c = if c = '>' ∧ seen.take 2 = ['-', '-']
      then (some .aside, some start) else (none, some (comment (c :: seen))) := fun _ _ => rfl
  rw [Item.chars, List.cons_append, run_text_lt]
  exact congrArg (pending seen ++ ·) (run_until_mark (f := fun _ => .aside) hstep (by decide) [] h more)

/-- The rest of an instruction is taken as a whole, when its end is not in it. -/
theorem run_instruction_from (seen : List Char) (h : ¬['?', '>'] <:+: seen.headD '?' :: cs) (more : List Char) :
    (instruction seen).run (cs ++ ['?', '>'] ++ more) = .aside :: start.run more := by
  induction cs generalizing seen with
  | nil => rfl
  | cons c cs ih =>
    have hstep : (instruction seen).step c = (none, some (instruction (c :: seen))) := by
      by_cases hc : c = '>'
      · -- the mark at the end needs a question mark before it
        have hlast : seen.headD '?' ≠ '?' := fun hlast => h ⟨[], cs, by rw [hlast, hc]; rfl⟩
        rcases seen with _ | ⟨last, seen⟩
        · exact absurd rfl hlast
        · rw [hc]
          exact if_neg hlast
      · exact if_neg hc
    rw [List.cons_append, List.cons_append, run_cons_of_none hstep]
    exact ih (c :: seen) fun hmem => h (hmem.trans (List.suffix_cons _ _).isInfix)

/-- An instruction without its end in it is passed over. -/
theorem run_instruction (h : ¬['?', '>'] <:+: '?' :: cs) (seen more : List Char) :
    (text seen.reverse).run ((Item.instruction cs).chars ++ more) = pending seen ++ .aside :: start.run more := by
  rw [Item.chars, List.cons_append, run_text_lt]
  exact congrArg (pending seen ++ ·) (run_instruction_from [] h more)

/-- Quotes that are closed in two parts are closed in both together. -/
theorem closes_append {quote : Option Char} {ds : List Char} (h : closes quote cs = true)
    (hds : closes none ds = true) : closes quote (cs ++ ds) = true := by
  induction cs generalizing quote with
  | nil =>
    obtain rfl := Option.isNone_iff_eq_none.1 h
    exact hds
  | cons c cs ih =>
    rw [List.cons_append]
    cases quote with
    | none =>
      rw [closes, Bool.and_eq_true] at h ⊢
      exact ⟨h.1, ih h.2⟩
    | some q =>
      rw [closes] at h ⊢
      exact ih h

/-- Outside of quotes, characters that are neither quotation marks nor `>` leave nothing to close. -/
theorem closes_of_plain (h : ∀ c ∈ cs, c ∉ ['>', '\x22', '\x27']) : closes none cs = true := by
  induction cs with
  | nil => rfl
  | cons c cs ih =>
    have hc := h c List.mem_cons_self
    simp only [List.mem_cons, List.not_mem_nil, or_false, not_or] at hc
    have hquote : quote? c = none := if_neg (not_or.2 hc.2)
    rw [closes, hquote, Bool.and_eq_true]
    exact ⟨bne_iff_ne.2 hc.1, ih fun d hd => h d (List.mem_cons_of_mem c hd)⟩

/-- A value between double quotes closes them, when it has none in it. -/
theorem closes_quoted (h : '\x22' ∉ cs) : closes none ('\x22' :: (cs ++ ['\x22'])) = true := by
  have hwithin : closes (some '\x22') (cs ++ ['\x22']) = true := by
    induction cs with
    | nil => rfl
    | cons c cs ih =>
      have hc : c ≠ '\x22' := fun heq => h (heq ▸ List.mem_cons_self)
      rw [List.cons_append, closes, if_neg hc]
      exact ih fun hmem => h (List.mem_cons_of_mem c hmem)
  exact hwithin

/-- **A tag is read as it was written** when its quotes are closed and it starts neither an instruction nor what
stands behind `<!`. -/
theorem run_inside (h : closes none (c :: cs) = true) (hbang : c ≠ '!') (hmark : c ≠ '?') (more : List Char) :
    opened.run (c :: cs ++ '>' :: more) = .ofInside (c :: cs) :: start.run more := by
  rw [closes, Bool.and_eq_true, bne_iff_ne] at h
  have hstep : opened.step c = (none, some (tag (quote? c) [c])) := by
    rw [step, if_neg hbang, if_neg hmark, if_neg h.1]
  rw [List.cons_append, run_cons_of_none hstep, run_tag h.2, run_tag_gt, List.reverse_append,
    List.reverse_reverse]
  rfl

end Lexer

namespace Token

/-- What begins with the mark of a closing tag, and has no blank, is the token `closing name`. -/
theorem ofInside_closing {name : List Char} (h : ∀ c ∈ name, isSpace c = false) :
    ofInside ('/' :: name) = closing name := by
  have htrim : trimEnd name = name := by
    have hkeep : ∀ cs : List Char, (∀ c ∈ cs, isSpace c = false) → cs.dropWhile isSpace = cs := by
      rintro (_ | ⟨c, cs⟩) hcs
      · rfl
      · exact List.dropWhile_cons_of_neg (by rw [hcs c List.mem_cons_self]; exact Bool.false_ne_true)
    rw [trimEnd, hkeep _ fun c hc => h c (List.mem_reverse.1 hc), List.reverse_reverse]
  rw [ofInside, htrim]

/-- What neither begins nor ends with a slash is the token `opening`. -/
theorem ofInside_opening {inside : List Char} (hfirst : inside.head? ≠ some '/')
    (hlast : inside.getLast? ≠ some '/') : ofInside inside = opening (tag inside) := by
  rw [ofInside.eq_def]
  split
  · exact absurd rfl hfirst
  · split
    · rename_i most hreverse
      rw [List.getLast?_eq_head?_reverse, hreverse] at hlast
      exact absurd rfl hlast
    · rfl

/-- What ends with a slash, and does not begin with one, is the token `empty`. -/
theorem ofInside_empty {inside : List Char} (hne : inside ≠ []) (hfirst : inside.head? ≠ some '/') :
    ofInside (inside ++ ['/']) = empty (tag inside) := by
  obtain ⟨c, cs, rfl⟩ := List.exists_cons_of_ne_nil hne
  rw [ofInside.eq_def]
  split
  · rename_i name heq
    rw [(List.cons.inj heq).1] at hfirst
    exact absurd rfl hfirst
  · rw [List.reverse_append, List.reverse_singleton, List.singleton_append]
    exact congrArg (fun cs => empty (tag cs)) (List.reverse_reverse _)

end Token

namespace Tag.IsSound

open Lexer (opened start closes closes_append)

variable {tag : Tag}

/-- There are no quotes in a name, and none to close. -/
theorem closes_name (h : tag.IsSound) : closes none tag.name = true := by
  refine Lexer.closes_of_plain fun c hc hmark => (h.name_plain c hc).2 ?_
  have hsubset : ['>', '\x22', '\x27'] ⊆ ['<', '>', '/', '!', '?', '\x22', '\x27'] := by decide
  exact hsubset hmark

/-- A name ends at the first blank, with which the rest of the tag begins. -/
theorem tag_inside (h : tag.IsSound) : Token.tag (tag.name ++ tag.rest) = tag := by
  have hname : ∀ c ∈ tag.name, (!isSpace c) = true := fun c hc => by rw [(h.name_plain c hc).1]; rfl
  have hrest : tag.rest.takeWhile (!isSpace ·) = [] ∧ tag.rest.dropWhile (!isSpace ·) = tag.rest := by
    have hblank := h.rest_blank
    revert hblank
    cases tag.rest with
    | nil => exact fun _ => ⟨rfl, rfl⟩
    | cons c rest =>
      intro hblank
      have hc : isSpace c = true := hblank
      simp [hc]
  rw [Token.tag, List.takeWhile_append_of_pos hname, List.dropWhile_append_of_pos hname, hrest.1, hrest.2,
    List.append_nil]

/-- The first character of a name is no mark. -/
theorem exists_name (h : tag.IsSound) : ∃ c cs, tag.name = c :: cs ∧ c ≠ '!' ∧ c ≠ '?' ∧ c ≠ '/' := by
  obtain ⟨c, cs, hname⟩ := List.exists_cons_of_ne_nil h.name_ne
  have hc := (h.name_plain c (hname ▸ List.mem_cons_self)).2
  simp only [List.mem_cons, List.not_mem_nil, or_false, not_or] at hc
  exact ⟨c, cs, hname, hc.2.2.2.1, hc.2.2.2.2.1, hc.2.2.1⟩

/-- **A tag that opens an element** is read as it was written, as the token `opening tag`. -/
theorem run_opening (h : tag.IsSound) (more : List Char) :
    opened.run (tag.name ++ tag.rest ++ '>' :: more) = .opening tag :: start.run more := by
  obtain ⟨c, cs, hname, hbang, hmark, hslash⟩ := h.exists_name
  have hcloses := closes_append h.closes_name h.rest_closes
  have hinside : Token.ofInside (tag.name ++ tag.rest) = .opening tag := by
    rw [Token.ofInside_opening, h.tag_inside]
    · rw [hname]
      exact fun heq => hslash (Option.some.inj heq)
    · rw [List.getLast?_append]
      cases hrest : tag.rest.getLast? with
      | none =>
        intro hlast
        have hmem := (h.name_plain '/' (List.mem_of_getLast? hlast)).2
        exact hmem (by decide)
      | some c => exact fun hlast => h.rest_end (hrest.trans hlast)
  rw [hname, List.cons_append] at hcloses hinside ⊢
  rw [Lexer.run_inside hcloses hbang hmark, hinside]

/-- **A tag that is a whole element** is read as it was written, as the token `empty tag`. -/
theorem run_empty (h : tag.IsSound) (more : List Char) :
    opened.run (tag.name ++ tag.rest ++ ['/', '>'] ++ more) = .empty tag :: start.run more := by
  obtain ⟨c, cs, hname, hbang, hmark, hslash⟩ := h.exists_name
  have hmark' : closes none ['/'] = true := rfl
  have hcloses := closes_append (closes_append h.closes_name h.rest_closes) hmark'
  have hinside : Token.ofInside (tag.name ++ tag.rest ++ ['/']) = .empty tag := by
    rw [Token.ofInside_empty, h.tag_inside]
    · rw [hname]
      exact List.cons_ne_nil _ _
    · rw [hname]
      exact fun heq => hslash (Option.some.inj heq)
  have hsplit : tag.name ++ tag.rest ++ ['/', '>'] ++ more = tag.name ++ tag.rest ++ ['/'] ++ '>' :: more := by
    simp
  rw [hsplit]
  rw [hname, List.cons_append, List.cons_append] at hcloses hinside ⊢
  rw [Lexer.run_inside hcloses hbang hmark, hinside]

/-- **A tag that closes an element** is read as it was written, as the token `closing tag.name`. -/
theorem run_closing (h : tag.IsSound) (more : List Char) :
    opened.run ('/' :: (tag.name ++ '>' :: more)) = .closing tag.name :: start.run more := by
  have hcloses : closes none ('/' :: tag.name) = true := h.closes_name
  have hrun := Lexer.run_inside hcloses (by decide) (by decide) more
  rwa [Token.ofInside_closing fun c hc => (h.name_plain c hc).1] at hrun

end Tag.IsSound

/-! ## Contents -/

namespace OpenElement

/-- Content that is added in two parts, `a` and then `b`, is added as `a ++ b`. -/
theorem add_add (a b : List Node) (e : OpenElement) : (e.add a).add b = e.add (a ++ b) := by
  rw [add, add, add, List.reverse_append, List.append_assoc]

/-- An element that is closed has the content that was added. -/
theorem close_add (tag : Tag) (nodes : List Node) : (add nodes ⟨tag, []⟩).close = .element tag nodes := by
  rw [add, close, List.append_nil, List.reverse_reverse]

end OpenElement

/-- What is read behind the end of the element `e`, given the elements around it. -/
def buildBehind (e : OpenElement) (stack : List OpenElement) (ts : List Token) : Option Node :=
  match stack with
  | [] => some e.close
  | outer :: stack => build (outer.add [e.close] :: stack) [] ts

open Item

/-- The character data since the last tag is one piece more. -/
theorem build_pending (stack : List OpenElement) (pieces : List Piece) (seen : List Char) (ts : List Token) :
    build stack pieces (Lexer.pending seen ++ ts) = build stack (flush pieces seen) ts := by
  rw [Lexer.pending, flush]
  split_ifs
  · rfl
  · cases stack <;> rfl

/-- **A content that was written is read up to the end of its element**, whatever follows as `more`. The induction is on
`AreSound`, with the elements around it generalised. -/
theorem build_content {items : List Item} (h : AreSound items) {e : OpenElement} (he : e.tag.IsSound)
    (stack : List OpenElement) (pieces : List Piece) (seen more : List Char) :
    build (e :: stack) pieces
        ((Lexer.text seen.reverse).run (charsOf items ++ '<' :: '/' :: (e.tag.name ++ '>' :: more)))
      = buildBehind (e.add (nodesFrom pieces seen items)) stack (Lexer.start.run more) := by
  induction h generalizing e stack pieces seen more with
  | nil =>
    rw [charsOf, List.nil_append, Lexer.run_text_lt, he.run_closing, build_pending, nodesFrom, build, if_pos rfl]
    cases stack <;> rfl
  | @data raw is hdata readable next ih =>
    rw [charsOf, chars, List.append_assoc, Lexer.run_data hdata, ← List.reverse_append, nodesFrom]
    exact ih he stack pieces (seen ++ raw) more
  | @literal content is hmark next ih =>
    rw [charsOf, List.append_assoc, Lexer.run_literal hmark, build_pending, build, nodesFrom]
    exact ih he stack _ [] more
  | @comment content is hmark next ih =>
    rw [charsOf, List.append_assoc, Lexer.run_comment hmark, build_pending, build, nodesFrom]
    exact ih he stack _ [] more
  | @instruction content is hmark next ih =>
    rw [charsOf, List.append_assoc, Lexer.run_instruction hmark, build_pending, build, nodesFrom]
    exact ih he stack _ [] more
  | @element tag short content is sound empty inner next ihInner ihNext =>
    -- behind the element its node has been added, whichever way it is written
    have hnext := ihNext (e := (e.add (Node.ofRun (flush pieces seen))).add [.element tag (nodesOf content)]) he
      stack [] [] more
    rw [OpenElement.add_add, OpenElement.add_add] at hnext
    rw [charsOf, chars, nodesFrom, nodes]
    refine Eq.trans ?_ hnext
    cases short with
    | true =>
      have hrun := sound.run_empty (charsOf is ++ '<' :: '/' :: (e.tag.name ++ '>' :: more))
      rw [if_pos rfl, List.append_assoc, List.cons_append, Lexer.run_text_lt, hrun, build_pending, build, empty rfl]
      rfl
    | false =>
      have hrun := sound.run_opening (charsOf content ++ '<' :: '/' :: (tag.name ++ '>' ::
        (charsOf is ++ '<' :: '/' :: (e.tag.name ++ '>' :: more))))
      have hinner := ihInner (e := ⟨tag, []⟩) sound (e.add (Node.ofRun (flush pieces seen)) :: stack) [] []
        (charsOf is ++ '<' :: '/' :: (e.tag.name ++ '>' :: more))
      rw [buildBehind, OpenElement.close_add, OpenElement.add_add] at hinner
      simp only [if_neg Bool.false_ne_true, List.append_assoc, List.cons_append, List.nil_append] at hrun ⊢
      rw [Lexer.run_text_lt, hrun, build_pending, build]
      exact hinner

end PayloadGate.Markup
