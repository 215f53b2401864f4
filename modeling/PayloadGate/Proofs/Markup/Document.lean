import PayloadGate.Proofs.Markup.Written

/-! # Documents as they are written

* **`areResolvable_nodesFrom`** — all data in a content that can be written can be read.
* **`run_preliminary`** — blanks, comments and instructions before the outermost element say nothing.
* **`document?_written`** — the outermost element of a document is read as it was written, whatever such items
  stand before it and whatever stands behind it. -/

namespace PayloadGate.Markup

open Item

/-! ## Runs -/

namespace Piece

variable {pieces : List Piece}

/-- Blank pieces leave no run: `trimRun pieces = []`. -/
theorem trimRun_of_blank (h : ∀ p ∈ pieces, p.isBlank = true) : trimRun pieces = [] := by
  rw [trimRun, List.dropWhile_eq_nil_iff.2 h]

/-- One piece of data is trimmed as data is, and left out when it is blank. -/
theorem trimRun_text (raw : List Char) :
    trimRun [.text raw] = if raw.all isSpace then [] else [.text (trim raw)] := by
  rw [trimRun, List.dropWhile_cons]
  cases hblank : raw.all isSpace with
  | true =>
    have hpiece : (text raw).isBlank = true := hblank
    rw [if_pos hpiece]
    rfl
  | false =>
    have hpiece : ¬(text raw).isBlank = true := by
      rw [isBlank, hblank]
      exact Bool.false_ne_true
    rw [if_neg hpiece]
    rfl

/-- A piece that can be read can be read without the blanks at its start. -/
theorem isSome_resolve?_trimStart {p : Piece} (h : p.resolve?.isSome = true) :
    p.trimStart.resolve?.isSome = true := by
  cases p with
  | text raw => exact isSome_resolve?_dropWhile h
  | literal content => exact h

/-- A piece that can be read can be read without the blanks at its end. -/
theorem isSome_resolve?_trimEnd {p : Piece} (h : p.resolve?.isSome = true) :
    p.trimEnd.resolve?.isSome = true := by
  cases p with
  | text raw => exact Markup.isSome_resolve?_trimEnd h
  | literal content => exact h

/-- Pieces that can be read can still be read without the blanks at the ends of their run. -/
theorem isSome_resolve?_of_mem_trimRun (h : ∀ p ∈ pieces, p.resolve?.isSome = true) :
    ∀ p ∈ trimRun pieces, p.resolve?.isSome = true := by
  -- trimming drops pieces at both ends and cuts characters off the outermost ones; nothing new has to be resolved
  have hkept : ∀ p ∈ pieces.dropWhile isBlank, p.resolve?.isSome = true := fun p hp =>
    h p ((List.dropWhile_suffix _).subset hp)
  rw [trimRun]
  split
  · exact fun p hp => absurd hp List.not_mem_nil
  · rename_i first rest hfirst
    rw [hfirst] at hkept
    have hstart : ∀ p ∈ (first.trimStart :: rest).reverse, p.resolve?.isSome = true := by
      intro p hp
      rcases List.mem_cons.1 (List.mem_reverse.1 hp) with rfl | hp
      · exact isSome_resolve?_trimStart (hkept first List.mem_cons_self)
      · exact hkept p (List.mem_cons_of_mem first hp)
    split
    · exact fun p hp => absurd hp List.not_mem_nil
    · rename_i last most hlast
      rw [hlast] at hstart
      intro p hp
      rcases List.mem_cons.1 (List.mem_reverse.1 hp) with rfl | hp
      · exact isSome_resolve?_trimEnd (hstart last List.mem_cons_self)
      · exact hstart p (List.mem_cons_of_mem last hp)

end Piece

namespace Node

/-- Pieces that can be read have a text as a run. -/
theorem isSome_text? {pieces : List Piece} (h : ∀ p ∈ pieces, p.resolve?.isSome = true) :
    (text? pieces).isSome = true := by
  rw [text?, Option.isSome_map]
  induction pieces with
  | nil => rfl
  | cons p pieces ih =>
    obtain ⟨cs, hcs⟩ := Option.isSome_iff_exists.1 (h p List.mem_cons_self)
    obtain ⟨parts, hparts⟩ := Option.isSome_iff_exists.1 (ih fun q hq => h q (List.mem_cons_of_mem p hq))
    rw [List.mapM_cons, hcs, hparts]
    rfl

/-- All runs in `a ++ b` have a text when those in each of the two have. -/
theorem areResolvable_append (a b : List Node) : areResolvable (a ++ b) = (areResolvable a && areResolvable b) := by
  induction a with
  | nil => rfl
  | cons n a ih => rw [List.cons_append, areResolvable, areResolvable, ih, Bool.and_assoc]

/-- A run of pieces that can be read has a text, if it is there at all. -/
theorem areResolvable_ofRun {pieces : List Piece} (h : ∀ p ∈ pieces, p.resolve?.isSome = true) :
    areResolvable (ofRun pieces) = true := by
  have htrim := Piece.isSome_resolve?_of_mem_trimRun h
  rw [ofRun]
  split
  · rfl
  · rw [areResolvable, isResolvable, isSome_text? htrim]
    rfl

end Node

/-! ## Contents that can be read -/

/-- What the pieces up to the next tag are: those of before, and the data `seen` behind them. -/
theorem mem_flush {pieces : List Piece} {seen : List Char} {p : Piece} (h : p ∈ flush pieces seen) :
    p ∈ pieces ∨ p = .text seen := by
  rw [flush] at h
  split_ifs at h
  · exact .inl h
  · exact (List.mem_append.1 h).imp_right List.mem_singleton.1

/-- The pieces up to the next tag can be read, when those of before and `seen` can. -/
theorem isSome_resolve?_of_mem_flush {pieces : List Piece} {seen : List Char}
    (hpieces : ∀ p ∈ pieces, p.resolve?.isSome = true) (hseen : (resolve? seen).isSome = true) :
    ∀ p ∈ flush pieces seen, p.resolve?.isSome = true := by
  intro p hp
  rcases mem_flush hp with hp | rfl
  · exact hpieces p hp
  · exact hseen

/-- **All data in a content that can be written can be read**, behind any data that can. The induction is on
`AreSound`. -/
theorem areResolvable_nodesFrom {items : List Item} (h : AreSound items) {pieces : List Piece} {seen : List Char}
    (hpieces : ∀ p ∈ pieces, p.resolve?.isSome = true) (hseen : (resolve? seen).isSome = true) :
    Node.areResolvable (nodesFrom pieces seen items) = true := by
  have hnone : ∀ p ∈ ([] : List Piece), p.resolve?.isSome = true := fun p hp => absurd hp List.not_mem_nil
  -- by induction on the items, with the run of text before them: what was resolved in it and the raw text seen last
  induction h generalizing pieces seen with
  | nil =>
    rw [nodesFrom]
    exact Node.areResolvable_ofRun (isSome_resolve?_of_mem_flush hpieces hseen)
  | data hdata readable next ih =>
    rw [nodesFrom]
    obtain ⟨cs, hcs⟩ := Option.isSome_iff_exists.1 hseen
    refine ih hpieces ?_
    rw [resolve?_append hcs, Option.isSome_map]
    exact readable
  | literal hmark next ih =>
    rw [nodesFrom]
    refine ih (fun p hp => ?_) rfl
    rcases List.mem_append.1 hp with hp | hp
    · exact isSome_resolve?_of_mem_flush hpieces hseen p hp
    · rw [List.mem_singleton.1 hp]
      rfl
  | comment hmark next ih | instruction hmark next ih =>
    rw [nodesFrom]
    exact ih (isSome_resolve?_of_mem_flush hpieces hseen) rfl
  | element sound empty inner next ihInner ihNext =>
    rw [nodesFrom, nodes, Node.areResolvable_append, Node.areResolvable_append,
      Node.areResolvable_ofRun (isSome_resolve?_of_mem_flush hpieces hseen), ihNext hnone rfl, Node.areResolvable,
      Node.isResolvable, ihInner hnone rfl]
    rfl

/-- The data in a content that can be written can be read. -/
theorem areResolvable_nodesOf {content : List Item} (h : AreSound content) :
    Node.areResolvable (nodesOf content) = true :=
  areResolvable_nodesFrom h (fun _ hp => absurd hp List.not_mem_nil) rfl

/-- The data in an element that can be written can be read. -/
theorem areResolvable_inner {tag : Tag} {short : Bool} {content : List Item}
    (h : AreSound [.element tag short content]) : Node.areResolvable (nodesOf content) = true := by
  cases h with
  | element sound empty inner next => exact areResolvable_nodesOf inner

/-- An element that can be written can be written before other items `is`. -/
theorem Item.AreSound.cons {tag : Tag} {short : Bool} {content is : List Item}
    (h : AreSound [.element tag short content]) (next : AreSound is) :
    AreSound (.element tag short content :: is) := by
  cases h with
  | element sound empty inner _ => exact .element sound empty inner next

/-! ## Contents without text -/

/-- An item that is no text: an element, blanks or a comment. -/
def Item.IsNoText : Item → Prop
  | .element _ _ _ => True
  | .data raw => ∀ c ∈ raw, isSpace c = true
  | .comment _ => True
  | _ => False

/-- The pieces up to the next tag are blank, when those of before and `seen` are. -/
theorem isBlank_of_mem_flush {pieces : List Piece} {seen : List Char} (hpieces : ∀ p ∈ pieces, p.isBlank = true)
    (hseen : ∀ c ∈ seen, isSpace c = true) : ∀ p ∈ flush pieces seen, p.isBlank = true := by
  intro p hp
  rcases mem_flush hp with hp | rfl
  · exact hpieces p hp
  · exact List.all_eq_true.2 hseen

/-- Blanks up to the next tag leave no run. -/
theorem ofRun_flush_of_blank {pieces : List Piece} {seen : List Char} (hpieces : ∀ p ∈ pieces, p.isBlank = true)
    (hseen : ∀ c ∈ seen, isSpace c = true) : Node.ofRun (flush pieces seen) = [] := by
  rw [Node.ofRun, Piece.trimRun_of_blank (isBlank_of_mem_flush hpieces hseen)]

/-- The nodes of a content without text behind blanks are its elements. -/
theorem nodesFrom_of_isNoText {items : List Item} (h : ∀ i ∈ items, i.IsNoText) {pieces : List Piece}
    {seen : List Char} (hpieces : ∀ p ∈ pieces, p.isBlank = true) (hseen : ∀ c ∈ seen, isSpace c = true) :
    nodesFrom pieces seen items = items.flatMap nodes := by
  have hunseen : ∀ c ∈ ([] : List Char), isSpace c = true := fun c hc => absurd hc List.not_mem_nil
  have hunread : ∀ p ∈ ([] : List Piece), p.isBlank = true := fun p hp => absurd hp List.not_mem_nil
  -- by induction on the items: what has been seen of text so far is blank, and so is flushed as nothing
  induction items generalizing pieces seen with
  | nil => rw [nodesFrom, ofRun_flush_of_blank hpieces hseen]; rfl
  | cons i is ih =>
    have hi := h i List.mem_cons_self
    have his : ∀ j ∈ is, j.IsNoText := fun j hj => h j (List.mem_cons_of_mem i hj)
    cases i with
    | data raw =>
      rw [nodesFrom, ih his hpieces fun c hc => (List.mem_append.1 hc).elim (hseen c) (hi c)]
      rfl
    | comment content =>
      rw [nodesFrom, ih his (isBlank_of_mem_flush hpieces hseen) hunseen]
      rfl
    | element tag short content =>
      rw [nodesFrom, ofRun_flush_of_blank hpieces hseen, ih his hunread hunseen]
      rfl
    | _ => exact hi.elim

/-- **The nodes of a content without text are its elements**: `items.flatMap nodes`. -/
theorem nodesOf_of_isNoText {items : List Item} (h : ∀ i ∈ items, i.IsNoText) :
    nodesOf items = items.flatMap nodes :=
  nodesFrom_of_isNoText h (fun _ hp => absurd hp List.not_mem_nil) fun _ hc => absurd hc List.not_mem_nil

/-! ## Before the outermost element -/

/-- **What may stand before the outermost element**: blanks, comments and instructions. -/
inductive Item.ArePreliminary : List Item → Prop where
  /-- No items. -/
  | nil : ArePreliminary []
  /-- Blanks. -/
  | blank {raw : List Char} {is : List Item} (h : ∀ c ∈ raw, isSpace c = true) (next : ArePreliminary is) :
    ArePreliminary (.data raw :: is)
  /-- A comment. -/
  | comment {content : List Char} {is : List Item} (h : ¬['-', '-', '>'] <:+: content)
    (next : ArePreliminary is) : ArePreliminary (.comment content :: is)
  /-- An instruction, or the declaration of the document. -/
  | instruction {content : List Char} {is : List Item} (h : ¬['?', '>'] <:+: '?' :: content)
    (next : ArePreliminary is) : ArePreliminary (.instruction content :: is)

/-- A token that says nothing: blanks, a comment or an instruction. -/
def Token.IsPreliminary : Token → Prop
  | .aside => True
  | .text raw => ∀ c ∈ raw, isSpace c = true
  | _ => False

/-- A blank opens no tag: `<` is none. -/
theorem lt_notMem_of_blank {raw : List Char} (h : ∀ c ∈ raw, isSpace c = true) : '<' ∉ raw :=
  fun hmem => absurd (h '<' hmem) (by decide)

/-- Blanks that have been seen say nothing, as the token that they make. -/
theorem isPreliminary_pending {seen : List Char} (h : ∀ c ∈ seen, isSpace c = true) :
    ∀ t ∈ Lexer.pending seen, t.IsPreliminary := by
  rw [Lexer.pending]
  split_ifs
  · exact fun t ht => absurd ht List.not_mem_nil
  · intro t ht
    rw [List.mem_singleton.1 ht]
    exact h

/-- A comment or an instruction behind blanks says nothing, before tokens `ts` that say nothing. -/
theorem isPreliminary_aside {seen : List Char} (h : ∀ c ∈ seen, isSpace c = true) {ts : List Token}
    (hts : ∀ t ∈ ts, t.IsPreliminary) : ∀ t ∈ Lexer.pending seen ++ .aside :: ts, t.IsPreliminary := by
  intro t ht
  rcases List.mem_append.1 ht with ht | ht
  · exact isPreliminary_pending h t ht
  · rcases List.mem_cons.1 ht with rfl | ht
    · trivial
    · exact hts t ht

/-- **The tokens before the outermost element say nothing**: up to the `<` of this element, all are `IsPreliminary`. -/
theorem run_preliminary {items : List Item} (h : ArePreliminary items) {seen : List Char}
    (hseen : ∀ c ∈ seen, isSpace c = true) (more : List Char) :
    ∃ ts, (∀ t ∈ ts, t.IsPreliminary)
      ∧ (Lexer.text seen.reverse).run (charsOf items ++ '<' :: more) = ts ++ Lexer.opened.run more := by
  have hnone : ∀ c ∈ ([] : List Char), isSpace c = true := fun c hc => absurd hc List.not_mem_nil
  -- by induction on the items: blanks are kept as `seen` until a comment, an instruction or the root ends them
  induction h generalizing seen with
  | nil => exact ⟨_, isPreliminary_pending hseen, Lexer.run_text_lt ..⟩
  | @blank raw is hblank next ih =>
    rw [charsOf, chars, List.append_assoc, Lexer.run_data (lt_notMem_of_blank hblank), ← List.reverse_append]
    exact ih fun c hc => (List.mem_append.1 hc).elim (hseen c) (hblank c)
  | @comment content is hmark next ih =>
    obtain ⟨ts, hts, hrun⟩ := ih hnone
    refine ⟨Lexer.pending seen ++ .aside :: ts, isPreliminary_aside hseen hts, ?_⟩
    rw [charsOf, List.append_assoc, Lexer.run_comment hmark, List.append_assoc, List.cons_append, ← hrun]
    rfl
  | @instruction content is hmark next ih =>
    obtain ⟨ts, hts, hrun⟩ := ih hnone
    refine ⟨Lexer.pending seen ++ .aside :: ts, isPreliminary_aside hseen hts, ?_⟩
    rw [charsOf, List.append_assoc, Lexer.run_instruction hmark, List.append_assoc, List.cons_append, ← hrun]
    rfl

/-- Tokens that say nothing leave blank pieces, and open no element. -/
theorem build_preliminary {ts : List Token} (h : ∀ t ∈ ts, t.IsPreliminary) {pieces : List Piece}
    (hpieces : ∀ p ∈ pieces, p.isBlank = true) (more : List Token) :
    ∃ pieces', (∀ p ∈ pieces', p.isBlank = true) ∧ build [] pieces (ts ++ more) = build [] pieces' more := by
  induction ts generalizing pieces with
  | nil => exact ⟨pieces, hpieces, rfl⟩
  | cons t ts ih =>
    have ht := h t List.mem_cons_self
    have hts : ∀ t ∈ ts, t.IsPreliminary := fun u hu => h u (List.mem_cons_of_mem t hu)
    cases t with
    | aside => exact ih hts hpieces
    | text raw =>
      refine ih hts fun p hp => ?_
      rcases List.mem_append.1 hp with hp | hp
      · exact hpieces p hp
      · rw [List.mem_singleton.1 hp]
        exact List.all_eq_true.2 ht
    | _ => exact ht.elim

/-- Tokens that say nothing do not name the outermost element. -/
theorem rootName_preliminary {ts : List Token} (h : ∀ t ∈ ts, t.IsPreliminary) (more : List Token) :
    rootName (ts ++ more) = rootName more := by
  induction ts with
  | nil => rfl
  | cons t ts ih =>
    have ht := h t List.mem_cons_self
    have hts := ih fun u hu => h u (List.mem_cons_of_mem t hu)
    cases t with
    | aside => exact hts
    | text raw => exact hts
    | _ => exact ht.elim

/-- There is no byte order mark before the outermost element: what may stand there begins with no other character than a
blank or `<`. -/
theorem tokens_preliminary {items : List Item} (h : ArePreliminary items) (more : List Char) :
    tokens (charsOf items ++ '<' :: more) = Lexer.start.run (charsOf items ++ '<' :: more) := by
  have hfirst : ∃ c cs, charsOf items ++ '<' :: more = c :: cs ∧ c ≠ '\uFEFF' := by
    induction h with
    | nil => exact ⟨'<', more, rfl, by decide⟩
    | @blank raw is hblank next ih =>
      rcases raw with _ | ⟨c, raw⟩
      · exact ih
      · refine ⟨c, raw ++ charsOf is ++ '<' :: more, rfl, fun heq => ?_⟩
        exact absurd (hblank c List.mem_cons_self) (by rw [heq]; decide)
    | comment hmark next => exact ⟨'<', _, rfl, by decide⟩
    | instruction hmark next => exact ⟨'<', _, rfl, by decide⟩
  obtain ⟨c, cs, hchars, hc⟩ := hfirst
  rw [hchars, tokens]
  exact congrArg Lexer.start.run (if_neg hc)

/-! ## Documents -/

/-- **A document**: what may stand before the outermost element, the element `root`, and anything `behind` it. -/
def Item.document (preliminary : List Item) (root : Item) (behind : List Char) : List Char :=
  charsOf preliminary ++ (chars root ++ behind)

/-- The tokens of an outermost element up to its end make the element, whatever is `behind`. -/
theorem build_root {tag : Tag} {short : Bool} {content : List Item} (h : AreSound [.element tag short content])
    (behind : List Char) :
    ∃ inside t ts, chars (.element tag short content) = '<' :: inside
      ∧ Lexer.opened.run (inside ++ behind) = t :: ts ∧ rootName (t :: ts) = .ok (localName tag.name)
      ∧ ∀ pieces, Node.ofRun pieces = [] → build [] pieces (t :: ts) = some (.element tag (nodesOf content)) := by
  cases h with
  | element sound empty inner next =>
    -- an empty tag is the whole element; a tag with content is closed behind it, by `build_content`
    cases short with
    | true =>
      refine ⟨tag.name ++ tag.rest ++ ['/', '>'], _, _, rfl, sound.run_empty behind, rfl, fun pieces hpieces => ?_⟩
      rw [build, if_pos hpieces, empty rfl]
      rfl
    | false =>
      have hcontent := build_content inner (e := ⟨tag, []⟩) sound [] [] [] behind
      rw [buildBehind, OpenElement.close_add] at hcontent
      refine ⟨tag.name ++ tag.rest ++ '>' :: (charsOf content ++ '<' :: '/' :: (tag.name ++ ['>'])), .opening tag,
        Lexer.start.run (charsOf content ++ '<' :: '/' :: (tag.name ++ '>' :: behind)), rfl, ?_, rfl,
        fun pieces hpieces => ?_⟩
      · rw [← sound.run_opening]
        simp only [List.append_assoc, List.cons_append, List.nil_append]
      · rw [build, if_pos hpieces]
        exact hcontent

/-- **The outermost element of a document** is read as it was written, whatever blanks, comments and
instructions stand before it and whatever stands behind it. -/
theorem document?_written {preliminary : List Item} (hpreliminary : ArePreliminary preliminary) {tag : Tag}
    {short : Bool} {content : List Item} (h : AreSound [.element tag short content]) (behind : List Char) :
    rootName (tokens (document preliminary (.element tag short content) behind)) = .ok (localName tag.name)
      ∧ document? (tokens (document preliminary (.element tag short content) behind))
        = some (.element tag (nodesOf content)) := by
  obtain ⟨inside, t, ts, hchars, hroot, hname, hbuild⟩ := build_root h behind
  have hunseen : ∀ c ∈ ([] : List Char), isSpace c = true := fun c hc => absurd hc List.not_mem_nil
  have hunread : ∀ p ∈ ([] : List Piece), p.isBlank = true := fun p hp => absurd hp List.not_mem_nil
  obtain ⟨before, hbefore, hrun⟩ := run_preliminary hpreliminary hunseen (inside ++ behind)
  obtain ⟨pieces, hpieces, hpassed⟩ := build_preliminary hbefore hunread (t :: ts)
  have htokens : tokens (document preliminary (.element tag short content) behind) = before ++ t :: ts := by
    rw [document, hchars, List.cons_append, tokens_preliminary hpreliminary, ← hroot]
    exact hrun
  have hblank : Node.ofRun pieces = [] := by
    rw [Node.ofRun, Piece.trimRun_of_blank hpieces]
  rw [htokens, rootName_preliminary hbefore, hname, document?, hpassed]
  exact ⟨rfl, hbuild pieces hblank⟩

end PayloadGate.Markup
