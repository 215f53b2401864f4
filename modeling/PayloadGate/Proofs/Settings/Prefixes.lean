import PayloadGate.Job
import PayloadGate.Proofs.Settings.Selection
import PayloadGate.Proofs.Text.Trim

/-! # Lists of directories, read and written again

The reader of a list of pairs drops the blanks around a directory, and then the slashes at its end. It asks for a
directory that is not blank, but before the slashes are cut: nothing may be left of it then, or a text that ends in a
blank.

* **`JobPrefix.Canonical`** — a pair as it should be.
* **`JobPrefix.Hollow`** — a pair of whose directory too little is left.
* **`JobPrefix.parse_render_iff`**, **`JobPrefix.canonical_iff`** — a pair that was read is read again as it is exactly
  when it is as it should be, which is when it was not hollow as it was written.
* **`JobPrefix.ReadsBack`**, **`JobPrefix.readsBack_of_parseList`** — the same for lists of pairs.
* **`JobPrefix.exists_hollow`** — an accepted list with an empty directory. -/

namespace PayloadGate

/-! ## Texts -/

namespace Text

variable {s piece : String} {mark : Char}

/-- **Between two marks there is none**: no `piece` of `splitOn` has one. -/
theorem notMem_of_mem_splitOn {cs piece : List Char} (h : piece ∈ cs.splitOn mark) : mark ∉ piece := by
  -- by induction on the text: a mark begins a new piece, any other character goes to the first one
  induction cs generalizing piece with
  | nil =>
    rw [List.splitOn_nil, List.mem_singleton] at h
    simp [h]
  | cons c cs ih =>
    rw [List.splitOn_cons_eq_if_modifyHead] at h
    obtain ⟨first, rest, hsplit⟩ := List.exists_cons_of_ne_nil (List.splitOn_ne_nil mark cs)
    rw [hsplit] at ih h
    by_cases hc : c = mark
    · rw [if_pos (by simpa using hc), List.mem_cons] at h
      rcases h with rfl | h
      · exact List.not_mem_nil
      · exact ih h
    · rw [if_neg (by simpa using hc), List.modifyHead_cons, List.mem_cons] at h
      rcases h with rfl | h
      · rw [List.mem_cons, not_or]
        exact ⟨Ne.symm hc, ih List.mem_cons_self⟩
      · exact ih (List.mem_cons_of_mem _ h)

/-- A piece of a text has no mark. -/
theorem notMem_of_mem_pieces (h : piece ∈ pieces mark s) : mark ∉ piece.toList := by
  obtain ⟨cs, hcs, rfl⟩ := List.mem_map.1 h
  rw [String.toList_ofList]
  exact notMem_of_mem_splitOn hcs

/-- What is joined is part of the whole: each character of each of the lists. -/
theorem mem_intercalate {ls : List (List Char)} {l : List Char} {c : Char} (hl : l ∈ ls) (hc : c ∈ l)
    (sep : List Char) : c ∈ sep.intercalate ls := by
  induction ls with
  | nil => exact absurd hl List.not_mem_nil
  | cons first rest ih =>
    by_cases hrest : rest = []
    · rw [hrest, List.mem_singleton] at hl
      rw [hrest, List.intercalate_singleton, ← hl]
      exact hc
    · rw [List.intercalate_cons_of_ne_nil hrest, List.mem_append, List.mem_append]
      rcases List.mem_cons.1 hl with rfl | hl
      · exact .inl (.inl hc)
      · exact .inr (ih hl)

/-- A piece is part of the text: each of its characters is one of the text. -/
theorem mem_of_mem_pieces {c : Char} (h : piece ∈ pieces mark s) (hc : c ∈ piece.toList) : c ∈ s.toList := by
  obtain ⟨cs, hcs, rfl⟩ := List.mem_map.1 h
  rw [String.toList_ofList] at hc
  have hjoined : [mark].intercalate (s.toList.splitOn mark) = s.toList := List.intercalate_splitOn mark
  exact hjoined ▸ mem_intercalate hcs hc [mark]

/-- A text without a mark is one piece, itself. -/
theorem pieces_of_notMem (h : mark ∉ s.toList) : pieces mark s = [s] := by
  rw [pieces, List.splitOn_eq_singleton h, List.map_singleton, String.ofList_toList]

/-- The pieces of two texts with a mark between them are those of `s`, and then those of `t`. -/
theorem pieces_append (mark : Char) (s t : String) :
    pieces mark (s ++ String.singleton mark ++ t) = pieces mark s ++ pieces mark t := by
  rw [pieces, pieces, pieces, String.toList_append, String.toList_append, String.toList_singleton, List.append_assoc,
    List.singleton_append, List.splitOn_append_cons_self, List.map_append]

/-- **Texts joined by a mark are read apart again**, when none of them has the mark and there are some. -/
theorem pieces_intercalate {ss : List String} (h : ∀ s ∈ ss, mark ∉ s.toList) (hne : ss ≠ []) :
    pieces mark ((String.singleton mark).intercalate ss) = ss := by
  have hmarks : ∀ cs ∈ ss.map String.toList, mark ∉ cs := by
    intro cs hcs
    obtain ⟨s, hs, rfl⟩ := List.mem_map.1 hcs
    exact h s hs
  rw [pieces, String.toList_intercalate, String.toList_singleton,
    List.splitOn_intercalate mark hmarks (by simpa using hne), List.map_map]
  simp

end Text

namespace JobPrefix

variable {p : JobPrefix} {ps : List JobPrefix} {pair value name directory : String}

/-! ## A pair -/

/-- **A pair as it should be**: a job and a directory, neither empty, both without blanks around them, and no slash at
the end. -/
structure Canonical (p : JobPrefix) : Prop where
  /-- There is a job. -/
  jobName_ne : p.jobName ≠ ""
  /-- It has no blanks around it. -/
  jobName_trimmed : Text.Trimmed p.jobName
  /-- There is a directory. -/
  directory_ne : p.directory ≠ ""
  /-- It has no blanks around it. -/
  directory_trimmed : Text.Trimmed p.directory
  /-- It does not end with a slash. -/
  directory_noSlash : p.directory.toList.getLast? ≠ some '/'

/-- **A directory of which too little is left**: before the slashes at its end there is nothing, or a blank. The blanks
are trimmed before the slashes are, so this blank stays. -/
def HollowAt (directory : String) : Prop :=
  ∃ front slashes, (Text.trim directory).toList = front ++ '/' :: slashes ∧ (∀ c ∈ slashes, c = '/')
    ∧ ∀ c, front.getLast? = some c → Text.isBlank c = true

/-- A pair with such a directory, as it is written: of two pieces, the second is `HollowAt`. -/
def Hollow (pair : String) : Prop := ∃ name directory, Text.pieces '=' pair = [name, directory] ∧ HollowAt directory

/-- The directory that is read from a text: without its blanks, and then without the slashes at its end. -/
def directoryOf (directory : String) : String := Text.trimEndOf (· == '/') (Text.trim directory)

/-- **What a pair is read as**: it has two pieces, neither of them blank, of which `p` is the trimmed name and the
`directoryOf`. -/
theorem parse_eq_ok_iff :
    parse pair = .ok p ↔ ∃ name directory, Text.pieces '=' pair = [name, directory] ∧ Text.isAllBlank name = false
      ∧ Text.isAllBlank directory = false ∧ p = ⟨Text.trim name, directoryOf directory⟩ := by
  constructor
  · intro h
    rw [parse] at h
    split at h
    · rename_i name directory hpieces
      rw [ite_eq_iff] at h
      rcases h with ⟨-, h⟩ | ⟨hblank, h⟩
      · exact absurd h (by simp)
      · rw [Bool.or_eq_true, not_or, Bool.not_eq_true, Bool.not_eq_true] at hblank
        exact ⟨name, directory, hpieces, hblank.1, hblank.2, (Except.ok.inj h).symm⟩
    · exact absurd h (by simp)
  · rintro ⟨name, directory, hpieces, hname, hdirectory, rfl⟩
    rw [parse, hpieces]
    simp only [hname, hdirectory, Bool.or_self, Bool.false_eq_true, if_false]
    rfl

/-- The directory that is read does not end with a slash. -/
theorem getLast?_directoryOf (directory : String) : (directoryOf directory).toList.getLast? ≠ some '/' := by
  intro h
  rw [directoryOf, Text.trimEndOf, String.toList_ofList] at h
  simpa using Text.getLast?_dropTail h

/-- The directory that is read is a beginning of what is written, without the blanks. -/
theorem prefix_toList_directoryOf (directory : String) :
    (directoryOf directory).toList <+: (Text.trim directory).toList := by
  rw [directoryOf, Text.trimEndOf, String.toList_ofList]
  exact Text.prefix_dropTail _ _

/-- Nothing is added to what is written: `directoryOf directory` is a part of it. -/
theorem toList_directoryOf_sublist (directory : String) : (directoryOf directory).toList.Sublist directory.toList :=
  (prefix_toList_directoryOf directory).sublist.trans (Text.toList_trim_sublist directory)

/-- The directory that is read does not begin with a blank. -/
theorem isBlank_head?_directoryOf {c : Char} (h : (directoryOf directory).toList.head? = some c) :
    Text.isBlank c = false := by
  obtain ⟨rest, hrest⟩ := prefix_toList_directoryOf directory
  refine (Text.trimmed_trim directory).first c ?_
  rw [← hrest, List.head?_append, h, Option.some_or]

/-- Before the `slashes` at its end, a directory is what is read, when `front` ends with a blank or is empty. -/
theorem toList_directoryOf_of_hollowAt {front slashes : List Char}
    (h : (Text.trim directory).toList = front ++ '/' :: slashes) (hslashes : ∀ c ∈ slashes, c = '/')
    (hfront : ∀ c, front.getLast? = some c → Text.isBlank c = true) : (directoryOf directory).toList = front := by
  have hcut : ∀ c ∈ '/' :: slashes, (c == '/') = true := by
    simpa using hslashes
  rw [directoryOf, Text.trimEndOf, String.toList_ofList, h, Text.dropTail_append hcut, Text.dropTail_eq_self]
  intro c hc
  -- a blank is no slash
  rw [beq_eq_false_iff_ne]
  rintro rfl
  exact absurd (hfront '/' hc) (by decide)

/-- **The directory that is read is not empty and has no blank at its end** exactly when enough is left of it,
`¬ HollowAt directory`. -/
theorem directoryOf_iff (h : Text.isAllBlank directory = false) :
    directoryOf directory ≠ "" ∧ Text.Trimmed (directoryOf directory) ↔ ¬ HollowAt directory := by
  constructor
  · rintro ⟨hne, htrimmed⟩ ⟨front, slashes, hwritten, hslashes, hfront⟩
    have hfrontOf := toList_directoryOf_of_hollowAt hwritten hslashes hfront
    cases hlast : front.getLast? with
    | none =>
      rw [List.getLast?_eq_none_iff.1 hlast, String.toList_eq_nil_iff] at hfrontOf
      exact hne hfrontOf
    | some c =>
      have hblank := htrimmed.last c (by rw [hfrontOf, hlast])
      exact absurd (hfront c hlast) (by simp [hblank])
  · intro hfull
    obtain ⟨tail, hcut, htail⟩ := Text.exists_dropTail_append (· == '/') (Text.trim directory).toList
    have hread : (directoryOf directory).toList = Text.dropTail (· == '/') (Text.trim directory).toList := by
      rw [directoryOf, Text.trimEndOf, String.toList_ofList]
    rw [← hread] at hcut
    cases tail with
    | nil =>
      -- there is no slash to cut off
      rw [List.append_nil, String.toList_inj] at hcut
      rw [← hcut]
      exact ⟨Text.trim_ne_empty h, Text.trimmed_trim directory⟩
    | cons c slashes =>
      obtain ⟨hc, hslashes⟩ := List.forall_mem_cons.1 htail
      obtain rfl : c = '/' := by simpa using hc
      have hall : ∀ d ∈ slashes, d = '/' := fun d hd => by simpa using hslashes d hd
      have hlast : ∃ d, (directoryOf directory).toList.getLast? = some d ∧ Text.isBlank d = false := by
        by_contra hnone
        refine hfull ⟨_, slashes, hcut, hall, fun d hd => ?_⟩
        by_contra hblank
        exact hnone ⟨d, hd, by simpa using hblank⟩
      obtain ⟨d, hd, hblank⟩ := hlast
      refine ⟨?_, fun e he => isBlank_head?_directoryOf he, fun e he => ?_⟩
      · intro hempty
        rw [hempty] at hd
        exact absurd hd (by simp)
      · rw [hd] at he
        obtain rfl := Option.some.inj he
        exact hblank

/-- **A pair is read as one that is as it should be**, `Canonical`, exactly when it is not `Hollow`. -/
theorem canonical_iff (h : parse pair = .ok p) : p.Canonical ↔ ¬ Hollow pair := by
  obtain ⟨name, directory, hpieces, hname, hdirectory, rfl⟩ := parse_eq_ok_iff.1 h
  have hhollow : Hollow pair ↔ HollowAt directory := by
    constructor
    · rintro ⟨name', directory', hpieces', h⟩
      obtain ⟨-, ⟨rfl, -⟩⟩ := by simpa [hpieces] using hpieces'
      exact h
    · exact fun h => ⟨name, directory, hpieces, h⟩
  rw [hhollow, ← directoryOf_iff hdirectory]
  constructor
  · exact fun hc => ⟨hc.directory_ne, hc.directory_trimmed⟩
  · rintro ⟨hne, htrimmed⟩
    exact ⟨Text.trim_ne_empty hname, Text.trimmed_trim name, hne, htrimmed, getLast?_directoryOf directory⟩

/-- A directory that is read as it is has no blanks around it. -/
theorem trimmed_of_directoryOf_eq (h : directoryOf directory = directory) : Text.Trimmed directory := by
  -- all of it is left when it is trimmed
  have hall : directory.toList.Sublist (Text.trim directory).toList := by
    conv_lhs => rw [← h]
    exact (prefix_toList_directoryOf directory).sublist
  rw [← String.toList_inj.1 ((Text.toList_trim_sublist directory).antisymm hall)]
  exact Text.trimmed_trim directory

/-- A directory that is as it should be is read as it is. -/
theorem Canonical.directoryOf_eq (h : p.Canonical) : directoryOf p.directory = p.directory := by
  rw [directoryOf, Text.trim_of_trimmed h.directory_trimmed, Text.trimEndOf, Text.dropTail_eq_self,
    String.ofList_toList]
  intro c hc
  rw [beq_eq_false_iff_ne]
  rintro rfl
  exact h.directory_noSlash hc

/-- **Texts without an equals sign** are read apart when they have been written as a pair. -/
theorem pieces_render (hname : '=' ∉ p.jobName.toList) (hdirectory : '=' ∉ p.directory.toList) :
    Text.pieces '=' p.render = [p.jobName, p.directory] := by
  have hmark : String.singleton '=' = "=" := rfl
  rw [render, ← hmark, Text.pieces_append, Text.pieces_of_notMem hname, Text.pieces_of_notMem hdirectory,
    List.singleton_append]

/-- **A pair that was read is read again as it is**, from `p.render`, exactly when it is `Canonical`. -/
theorem parse_render_iff (h : parse pair = .ok p) : parse p.render = .ok p ↔ p.Canonical := by
  obtain ⟨name, directory, hpieces, hname, hdirectory, rfl⟩ := parse_eq_ok_iff.1 h
  have hmark : ∀ piece ∈ [name, directory], '=' ∉ piece.toList := fun piece hpiece =>
    Text.notMem_of_mem_pieces (hpieces ▸ hpiece)
  have hread : Text.pieces '=' (render ⟨Text.trim name, directoryOf directory⟩)
      = [Text.trim name, directoryOf directory] := by
    apply pieces_render
    · exact fun hmem => hmark name (by simp) ((Text.toList_trim_sublist name).mem hmem)
    · exact fun hmem => hmark directory (by simp) ((toList_directoryOf_sublist directory).mem hmem)
  have hname' : Text.isAllBlank (Text.trim name) = false :=
    Text.isAllBlank_of_trimmed (Text.trimmed_trim name) (Text.trim_ne_empty hname)
  constructor
  · intro hagain
    obtain ⟨name', directory', hpieces', -, hdirectory', hp⟩ := parse_eq_ok_iff.1 hagain
    obtain ⟨rfl, rfl⟩ : Text.trim name = name' ∧ directoryOf directory = directory' := by simpa [hread] using hpieces'
    obtain ⟨-, hsame⟩ := JobPrefix.mk.inj hp
    refine ⟨Text.trim_ne_empty hname, Text.trimmed_trim name, ?_, trimmed_of_directoryOf_eq hsame.symm,
      getLast?_directoryOf directory⟩
    rintro (hempty : directoryOf directory = "")
    rw [hempty] at hdirectory'
    exact absurd hdirectory' (by decide)
  · intro hc
    exact parse_eq_ok_iff.2 ⟨_, _, hread, hname', Text.isAllBlank_of_trimmed hc.directory_trimmed hc.directory_ne, by
      rw [hc.directoryOf_eq, Text.trim_of_trimmed hc.jobName_trimmed]⟩

/-! ## A list -/

/-- **All items of a list have results** exactly when the list has, item by item. -/
theorem mapM_eq_ok_iff {ε α β : Type} {f : α → Except ε β} {xs : List α} {ys : List β} :
    xs.mapM f = .ok ys ↔ List.Forall₂ (fun x y => f x = .ok y) xs ys := by
  induction xs generalizing ys with
  | nil =>
    rw [List.mapM_nil, List.forall₂_nil_left_iff]
    exact ⟨fun h => (Except.ok.inj h).symm, fun h => h ▸ rfl⟩
  | cons x xs ih =>
    rw [List.mapM_cons, List.forall₂_cons_left_iff]
    constructor
    · intro h
      obtain ⟨y, hy, h⟩ := exists_of_bind_eq_ok h
      obtain ⟨rest, hrest, h⟩ := exists_of_bind_eq_ok h
      exact ⟨y, rest, hy, ih.1 hrest, (Except.ok.inj h).symm⟩
    · rintro ⟨y, rest, hy, hrest, rfl⟩
      rw [hy, ih.2 hrest]
      rfl

/-- Whatever `y` is in the second of two lists that go together has its partner `x` in the first. -/
theorem exists_of_forall₂ {α β : Type} {r : α → β → Prop} {xs : List α} {ys : List β} (h : List.Forall₂ r xs ys)
    {y : β} (hy : y ∈ ys) : ∃ x ∈ xs, r x y := by
  induction h with
  | nil => exact absurd hy List.not_mem_nil
  | cons hr _ ih =>
    rcases List.mem_cons.1 hy with rfl | hy
    · exact ⟨_, List.mem_cons_self, hr⟩
    · obtain ⟨x, hx, hr⟩ := ih hy
      exact ⟨x, List.mem_cons_of_mem _ hx, hr⟩

/-- When what holds of the items of `ys` is what holds of their partners in `xs`, it holds of all of one list exactly
when it does of all of the other. -/
theorem forall_iff_of_forall₂ {α β : Type} {p : α → Prop} {q : β → Prop} {xs : List α} {ys : List β}
    (h : List.Forall₂ (fun x y => q y ↔ p x) xs ys) : (∀ y ∈ ys, q y) ↔ ∀ x ∈ xs, p x := by
  induction h with
  | nil => simp
  | cons hpq _ ih => rw [List.forall_mem_cons, List.forall_mem_cons, hpq, ih]

/-- **What a list is read as**: nothing when it is blank, and else one pair for each piece. -/
theorem parseList_eq_ok_iff :
    parseList value = .ok ps ↔ if Text.isAllBlank value = true then ps = []
      else List.Forall₂ (fun pair p => parse pair = .ok p) (Text.pieces ',' value) ps := by
  rw [parseList]
  split_ifs with hblank
  · exact ⟨fun h => (Except.ok.inj h).symm, fun h => h ▸ rfl⟩
  · exact mapM_eq_ok_iff

/-- A blank text holds no pair that is `Hollow`. -/
theorem not_hollow_of_isAllBlank (h : Text.isAllBlank value = true) (hpair : pair ∈ Text.pieces ',' value) :
    ¬ Hollow pair := by
  rintro ⟨name, directory, hpieces, -⟩
  -- there is no equals sign in it
  have hmark : '=' ∉ pair.toList := fun hmem =>
    absurd (List.all_eq_true.1 h '=' (Text.mem_of_mem_pieces hpair hmem)) (by decide)
  rw [Text.pieces_of_notMem hmark] at hpieces
  exact absurd (congrArg List.length hpieces) (by simp)

/-- What is read of a pair is part of it, so that it has no comma when the pair has none. -/
theorem comma_notMem_render (hpair : ',' ∉ pair.toList) (h : parse pair = .ok p) : ',' ∉ p.render.toList := by
  obtain ⟨name, directory, hpieces, -, -, rfl⟩ := parse_eq_ok_iff.1 h
  have hpart : ∀ piece ∈ [name, directory], ',' ∉ piece.toList := fun piece hpiece hmem =>
    hpair (Text.mem_of_mem_pieces (hpieces ▸ hpiece) hmem)
  rw [render, String.toList_append, String.toList_append, List.mem_append, List.mem_append]
  rintro ((hmem | hmem) | hmem)
  · exact hpart name (by simp) ((Text.toList_trim_sublist name).mem hmem)
  · exact absurd hmem (by decide)
  · exact hpart directory (by simp) ((toList_directoryOf_sublist directory).mem hmem)

/-- **A list that is written is read apart** into its pairs `ps`, when there is one and no pair has a comma. -/
theorem parseList_renderList_iff (hne : ps ≠ []) (hcomma : ∀ p ∈ ps, ',' ∉ p.render.toList) :
    parseList (renderList ps) = .ok ps ↔ ∀ p ∈ ps, parse p.render = .ok p := by
  have hmark : String.singleton ',' = "," := rfl
  have hpieces : Text.pieces ',' (renderList ps) = ps.map render := by
    rw [renderList, ← hmark]
    refine Text.pieces_intercalate (fun s hs => ?_) (by simpa using hne)
    obtain ⟨p, hp, rfl⟩ := List.mem_map.1 hs
    exact hcomma p hp
  have hblank : Text.isAllBlank (renderList ps) = false := by
    obtain ⟨p, hp⟩ := List.exists_mem_of_ne_nil ps hne
    have hequals : '=' ∈ (renderList ps).toList :=
      Text.mem_of_mem_pieces (hpieces ▸ List.mem_map_of_mem hp) (by simp [render])
    rw [Text.isAllBlank, List.all_eq_false]
    exact ⟨'=', hequals, by decide⟩
  rw [parseList_eq_ok_iff, if_neg (by simp [hblank]), hpieces, List.forall₂_map_left_iff, List.forall₂_same]

/-- **What becomes of a list that is accepted**: when its pairs are as they should be, and when it is read again. -/
structure ReadsBack (value : String) (ps : List JobPrefix) : Prop where
  /-- Each pair has a job without blanks around it. -/
  jobNames : ∀ p ∈ ps, p.jobName ≠ "" ∧ Text.Trimmed p.jobName
  /-- No directory begins with a blank or ends with a slash. -/
  directories : ∀ p ∈ ps, (∀ c, p.directory.toList.head? = some c → Text.isBlank c = false)
    ∧ p.directory.toList.getLast? ≠ some '/'
  /-- All pairs are as they should be exactly when none is hollow as it is written. -/
  canonical_iff : (∀ p ∈ ps, p.Canonical) ↔ ∀ pair ∈ Text.pieces ',' value, ¬ Hollow pair
  /-- In the same case the list is read again as it is when it is written. -/
  again_iff : parseList (renderList ps) = .ok ps ↔ ∀ pair ∈ Text.pieces ',' value, ¬ Hollow pair

/-- **An accepted list is one of pairs that are `Canonical`, and is read again when it is written**, unless the
directory of a pair is hollow as it is written: this is the exact condition for both. -/
theorem readsBack_of_parseList (h : parseList value = .ok ps) : ReadsBack value ps := by
  rw [parseList_eq_ok_iff] at h
  split_ifs at h with hblank
  · -- a blank text has no pairs, and no piece of it is hollow
    subst h
    have hfull : ∀ pair ∈ Text.pieces ',' value, ¬ Hollow pair := fun pair => not_hollow_of_isAllBlank hblank
    exact ⟨by simp, by simp, iff_of_true (by simp) hfull, iff_of_true rfl hfull⟩
  · have hread : ∀ p ∈ ps, ∃ pair ∈ Text.pieces ',' value, parse pair = .ok p := fun p => exists_of_forall₂ h
    have hcanonical : (∀ p ∈ ps, p.Canonical) ↔ ∀ pair ∈ Text.pieces ',' value, ¬ Hollow pair :=
      forall_iff_of_forall₂ (h.imp fun pair p hparse => canonical_iff hparse)
    have hne : ps ≠ [] := by
      rintro rfl
      rw [List.forall₂_nil_right_iff, Text.pieces, List.map_eq_nil_iff] at h
      exact List.splitOn_ne_nil ',' value.toList h
    refine ⟨fun p hp => ?_, fun p hp => ?_, hcanonical, ?_⟩
    · obtain ⟨pair, -, hparse⟩ := hread p hp
      obtain ⟨name, directory, -, hname, -, rfl⟩ := parse_eq_ok_iff.1 hparse
      exact ⟨Text.trim_ne_empty hname, Text.trimmed_trim name⟩
    · obtain ⟨pair, -, hparse⟩ := hread p hp
      obtain ⟨name, directory, -, -, -, rfl⟩ := parse_eq_ok_iff.1 hparse
      exact ⟨fun c hc => isBlank_head?_directoryOf hc, getLast?_directoryOf directory⟩
    · -- the pairs are parted by commas again, as no name and no directory holds one
      rw [parseList_renderList_iff hne, ← hcanonical]
      · refine forall₂_congr fun p hp => ?_
        obtain ⟨pair, -, hparse⟩ := hread p hp
        exact parse_render_iff hparse
      · intro p hp
        obtain ⟨pair, hpair, hparse⟩ := hread p hp
        exact comma_notMem_render (Text.notMem_of_mem_pieces hpair) hparse

/-- A list with blanks and slashes in all places where they are dropped reads back. -/
theorem readsBack_of_parseList_spaced :
    parseList " job-a = logs/pr 1//,job-b=\t/\u3000b" = .ok [⟨"job-a", "logs/pr 1"⟩, ⟨"job-b", "/\u3000b"⟩]
      ∧ ReadsBack " job-a = logs/pr 1//,job-b=\t/\u3000b" [⟨"job-a", "logs/pr 1"⟩, ⟨"job-b", "/\u3000b"⟩] := by
  have h : parseList " job-a = logs/pr 1//,job-b=\t/\u3000b" = .ok [⟨"job-a", "logs/pr 1"⟩, ⟨"job-b", "/\u3000b"⟩] := by
    decide +kernel
  exact ⟨h, readsBack_of_parseList h⟩

/-- **A directory that is only a slash is accepted**, and nothing is left of it; of one with a blank before its slash
the blank is left. Written again, the one is refused, and the other is read as another one. -/
theorem exists_hollow :
    parseList "job-a=/" = .ok [⟨"job-a", ""⟩] ∧ ¬ Canonical ⟨"job-a", ""⟩
      ∧ parseList (renderList [⟨"job-a", ""⟩]) = .error (parse.malformed "job-a=")
      ∧ parseList "job-b=logs /" = .ok [⟨"job-b", "logs "⟩] ∧ ¬ Canonical ⟨"job-b", "logs "⟩
      ∧ parseList (renderList [⟨"job-b", "logs "⟩]) = .ok [⟨"job-b", "logs"⟩] := by
  refine ⟨by decide +kernel, fun h => h.directory_ne rfl, by decide +kernel, by decide +kernel, fun h => ?_,
    by decide +kernel⟩
  exact absurd (h.directory_trimmed.last ' ' (by decide +kernel)) (by decide)

end JobPrefix

end PayloadGate
