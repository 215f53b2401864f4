import PayloadGate.Markup.Node
import Mathlib.Data.List.TakeWhile

/-! # Character data that was escaped

* **`resolve?_append`** — data that can be read is read apart from what follows it.
* **`resolve?_escape`**, **`resolve?_escapeQuoted`** — data that was escaped is read back.
* **`trim_escape`** — blanks are escaped as themselves, so that trimming and escaping commute.
* **`isSome_resolve?_trimEnd`** — without the blanks at its end, data can be read all the same. -/

namespace PayloadGate.Markup

variable {raw cs : List Char} {c : Char}

/-! ## Reading one part after the other -/

/-- Data that can be read from a place on, within a reference or outside, is read apart from the `rest` that follows
it. -/
theorem resolveFrom?_append {body : Option (List Char)} (h : resolveFrom? body raw = some cs) (rest : List Char) :
    resolveFrom? body (raw ++ rest) = (resolve? rest).map (cs ++ ·) := by
  -- by induction on the raw text, outside of references and, with what was `seen` of one, inside
  induction raw generalizing body cs with
  | nil =>
    cases body with
    | none =>
      obtain rfl := Option.some.inj h
      simp [resolve?]
    | some seen => cases h
  | cons c raw ih =>
    cases body with
    | none =>
      rw [List.cons_append, resolveFrom?]
      rw [resolveFrom?] at h
      split_ifs at h ⊢ with hc
      · exact ih h
      · obtain ⟨tail, htail, rfl⟩ := Option.map_eq_some_iff.1 h
        rw [ih htail, Option.map_map]
        rfl
    | some seen =>
      rw [List.cons_append, resolveFrom?]
      rw [resolveFrom?] at h
      split_ifs at h ⊢ with hend hstart
      · obtain ⟨d, hd, h⟩ := Option.bind_eq_some_iff.1 h
        obtain ⟨tail, htail, h⟩ := Option.bind_eq_some_iff.1 h
        obtain rfl := Option.some.inj h
        rw [hd, ih htail]
        cases resolve? rest <;> rfl
      · exact ih h

/-- **Data that can be read** as `cs` is read apart from the `rest` that follows it. -/
theorem resolve?_append (h : resolve? raw = some cs) (rest : List Char) :
    resolve? (raw ++ rest) = (resolve? rest).map (cs ++ ·) := resolveFrom?_append h rest

/-- A character other than `&` starts no reference and stands for itself. -/
theorem resolve?_cons (hc : c ≠ '&') (raw : List Char) : resolve? (c :: raw) = (resolve? raw).map (c :: ·) :=
  if_neg hc

/-- When `write` writes each character so that it is read back, texts that are written by it are read back. -/
theorem resolve?_flatMap {write : Char → List Char} (h : ∀ c, resolve? (write c) = some [c]) (cs : List Char) :
    resolve? (cs.flatMap write) = some cs := by
  induction cs with
  | nil => rfl
  | cons c cs ih => rw [List.flatMap_cons, resolve?_append (h c), ih]; rfl

/-- A character that was escaped is read back. -/
theorem resolve?_escapeChar (c : Char) : resolve? (escapeChar c) = some [c] := by
  rw [escapeChar]
  split_ifs with hlt hgt hamp
  · rw [hlt]; decide
  · rw [hgt]; decide
  · rw [hamp]; decide
  · rw [resolve?_cons hamp]; rfl

/-- **Data that was escaped is read back**: `resolve? (escape cs) = some cs`. -/
theorem resolve?_escape (cs : List Char) : resolve? (escape cs) = some cs :=
  resolve?_flatMap resolve?_escapeChar cs

/-- **The value of an attribute that was escaped is read back**: `resolve? (escapeQuoted cs) = some cs`. -/
theorem resolve?_escapeQuoted (cs : List Char) : resolve? (escapeQuoted cs) = some cs := by
  refine resolve?_flatMap (fun c => ?_) cs
  rw [escapeQuotedChar]
  split_ifs with hquote
  · rw [hquote]; decide
  · exact resolve?_escapeChar c

/-! ## Characters that do not occur -/

/-- What holds of all characters of a text is decided by going through the text, and not through all characters that
there are. -/
instance (priority := 2000) decidableForallMem {p : Char → Prop} [DecidablePred p] (cs : List Char) :
    Decidable (∀ c ∈ cs, p c) := List.decidableBAll p cs

/-- Data that was escaped opens no tag: there is no `<` in it. -/
theorem lt_notMem_escape : '<' ∉ escape cs := by
  intro h
  obtain ⟨d, -, hd⟩ := List.mem_flatMap.1 h
  rw [escapeChar] at hd
  split_ifs at hd with hlt hgt hamp
  · exact absurd hd (by decide)
  · exact absurd hd (by decide)
  · exact absurd hd (by decide)
  · exact hlt (List.mem_singleton.1 hd).symm

/-- Nothing that is escaped vanishes: `escape cs` is empty only for `[]`. -/
theorem escape_eq_nil_iff : escape cs = [] ↔ cs = [] := by
  refine ⟨fun h => ?_, fun h => by rw [h]; rfl⟩
  have hread := resolve?_escape cs
  rw [h] at hread
  exact (Option.some.inj hread).symm

/-- The value of an attribute that was escaped does not end before its quotation mark, for there is none in it. -/
theorem quote_notMem_escapeQuoted : '\x22' ∉ escapeQuoted cs := by
  intro h
  obtain ⟨d, -, hd⟩ := List.mem_flatMap.1 h
  rw [escapeQuotedChar, escapeChar] at hd
  split_ifs at hd with hquote hlt hgt hamp
  · exact absurd hd (by decide)
  · exact absurd hd (by decide)
  · exact absurd hd (by decide)
  · exact absurd hd (by decide)
  · exact hquote (List.mem_singleton.1 hd).symm

/-- A value without `"`, `<`, `>` and `&`, in which nothing has to be escaped, is written as it is. -/
theorem escapeQuoted_eq_self (h : ∀ c ∈ cs, c ≠ '\x22' ∧ c ≠ '<' ∧ c ≠ '>' ∧ c ≠ '&') : escapeQuoted cs = cs := by
  induction cs with
  | nil => rfl
  | cons c cs ih =>
    obtain ⟨hquote, hlt, hgt, hamp⟩ := h c List.mem_cons_self
    have hself : escapeQuotedChar c = [c] := by
      rw [escapeQuotedChar, escapeChar, if_neg hquote, if_neg hlt, if_neg hgt, if_neg hamp]
    have hrest : escapeQuoted cs = cs := ih fun d hd => h d (List.mem_cons_of_mem c hd)
    rw [escapeQuoted, List.flatMap_cons, hself]
    exact congrArg (c :: ·) hrest

/-! ## Blanks at the ends -/

/-- **Character data without the blanks at its two ends.** -/
def trim (cs : List Char) : List Char := Token.trimEnd (cs.dropWhile isSpace)

/-- Data is what is left without the blanks at its end, and `blanks`. -/
theorem exists_trimEnd_append (cs : List Char) :
    ∃ blanks, cs = Token.trimEnd cs ++ blanks ∧ ∀ c ∈ blanks, isSpace c = true := by
  refine ⟨(cs.reverse.takeWhile isSpace).reverse, ?_, fun c hc => ?_⟩
  · rw [Token.trimEnd, ← List.reverse_append, List.takeWhile_append_dropWhile, List.reverse_reverse]
  · simpa using List.mem_takeWhile_imp (List.mem_reverse.1 hc)

/-- Blanks alone leave nothing: `trim cs = []`. -/
theorem trim_of_blank (h : cs.all isSpace = true) : trim cs = [] := by
  rw [trim, List.dropWhile_eq_nil_iff.2 (List.all_eq_true.1 h)]
  rfl

/-- A blank neither starts a reference nor ends one. -/
theorem ne_of_isSpace (h : isSpace c = true) : c ≠ '&' ∧ c ≠ ';' := by
  constructor <;> rintro rfl <;> exact absurd h (by decide)

/-- Blanks can be read, as themselves. -/
theorem isSome_resolve?_of_blank (h : ∀ c ∈ raw, isSpace c = true) : (resolve? raw).isSome = true := by
  induction raw with
  | nil => rfl
  | cons c raw ih =>
    rw [resolve?_cons (ne_of_isSpace (h c List.mem_cons_self)).1, Option.isSome_map]
    exact ih fun d hd => h d (List.mem_cons_of_mem c hd)

/-- Data that can be read can be read without the blanks before it, since these start no reference. -/
theorem isSome_resolve?_dropWhile (h : (resolve? raw).isSome = true) :
    (resolve? (raw.dropWhile isSpace)).isSome = true := by
  induction raw with
  | nil => exact h
  | cons c raw ih =>
    rw [List.dropWhile_cons]
    split_ifs with hc
    · rw [resolve?_cons (ne_of_isSpace hc).1, Option.isSome_map] at h
      exact ih h
    · exact h

/-- Within a reference there is no blank at the end of the data: it would not be closed. -/
theorem resolveFrom?_some_blank {blanks : List Char} (h : ∀ c ∈ blanks, isSpace c = true) (seen : List Char) :
    resolveFrom? (some seen) blanks = none := by
  induction blanks generalizing seen with
  | nil => rfl
  | cons c blanks ih =>
    have hc := ne_of_isSpace (h c List.mem_cons_self)
    rw [resolveFrom?, if_neg hc.2, if_neg hc.1]
    exact ih (fun d hd => h d (List.mem_cons_of_mem c hd)) _

/-- Data that can be read from a place on can be read without the `blanks` behind it. The induction is on the data, with
the place generalised. -/
theorem isSome_resolveFrom?_of_append {body : Option (List Char)} {blanks : List Char}
    (hblanks : ∀ c ∈ blanks, isSpace c = true) (h : (resolveFrom? body (raw ++ blanks)).isSome = true) :
    (resolveFrom? body raw).isSome = true := by
  -- blanks end no reference, so that one left open before them would be open behind them
  induction raw generalizing body with
  | nil =>
    cases body with
    | none => rfl
    | some seen =>
      rw [List.nil_append, resolveFrom?_some_blank hblanks] at h
      cases h
  | cons c raw ih =>
    cases body with
    | none =>
      rw [List.cons_append, resolveFrom?] at h
      rw [resolveFrom?]
      split_ifs at h ⊢ with hc
      · exact ih h
      · rw [Option.isSome_map] at h ⊢
        exact ih h
    | some seen =>
      rw [List.cons_append, resolveFrom?] at h
      rw [resolveFrom?]
      split_ifs at h ⊢ with hend hstart
      · obtain ⟨cs, h⟩ := Option.isSome_iff_exists.1 h
        obtain ⟨d, hd, h⟩ := Option.bind_eq_some_iff.1 h
        obtain ⟨ds, hds, -⟩ := Option.bind_eq_some_iff.1 h
        obtain ⟨ds', hds'⟩ := Option.isSome_iff_exists.1 (ih (Option.isSome_of_eq_some hds))
        rw [hd, hds']
        rfl
      · cases h
      · exact ih h

/-- Data that can be read can be read without the blanks behind it. -/
theorem isSome_resolve?_trimEnd (h : (resolve? raw).isSome = true) :
    (resolve? (Token.trimEnd raw)).isSome = true := by
  obtain ⟨blanks, hraw, hblanks⟩ := exists_trimEnd_append raw
  rw [hraw] at h
  exact isSome_resolveFrom?_of_append hblanks h

/-! ## Blanks that are escaped -/

/-- When `write` writes blanks as themselves, and other characters with a first one that is not blank, texts are trimmed
before they are written or after it. -/
theorem dropWhile_flatMap {write : Char → List Char} (hblank : ∀ c, isSpace c = true → write c = [c])
    (hmark : ∀ c, isSpace c = false → ∃ d ds, write c = d :: ds ∧ isSpace d = false) (cs : List Char) :
    (cs.flatMap write).dropWhile isSpace = (cs.dropWhile isSpace).flatMap write := by
  induction cs with
  | nil => rfl
  | cons c cs ih =>
    rw [List.flatMap_cons, List.dropWhile_cons]
    cases hc : isSpace c with
    | true => rw [hblank c hc, List.singleton_append, List.dropWhile_cons_of_pos hc, ih, if_pos rfl]
    | false =>
      obtain ⟨d, ds, hwrite, hd⟩ := hmark c hc
      rw [if_neg Bool.false_ne_true, List.flatMap_cons, hwrite, List.cons_append,
        List.dropWhile_cons_of_neg (by rw [hd]; exact Bool.false_ne_true)]

/-- A blank is escaped as itself. -/
theorem escapeChar_of_isSpace (h : isSpace c = true) : escapeChar c = [c] := by
  have hc : c ≠ '<' ∧ c ≠ '>' ∧ c ≠ '&' := by
    refine ⟨?_, ?_, ?_⟩ <;> rintro rfl <;> exact absurd h (by decide)
  rw [escapeChar, if_neg hc.1, if_neg hc.2.1, if_neg hc.2.2]

/-- A character that is not blank is escaped with characters at both ends that are not. -/
theorem escapeChar_ends (h : isSpace c = false) :
    (∃ d ds, escapeChar c = d :: ds ∧ isSpace d = false)
      ∧ ∃ d ds, (escapeChar c).reverse = d :: ds ∧ isSpace d = false := by
  rw [escapeChar]
  split_ifs
  · exact ⟨⟨'&', _, rfl, rfl⟩, ⟨';', _, rfl, rfl⟩⟩
  · exact ⟨⟨'&', _, rfl, rfl⟩, ⟨';', _, rfl, rfl⟩⟩
  · exact ⟨⟨'&', _, rfl, rfl⟩, ⟨';', _, rfl, rfl⟩⟩
  · exact ⟨⟨c, [], rfl, h⟩, ⟨c, [], rfl, h⟩⟩

/-- **Trimming and escaping commute**: `trim (escape cs) = escape (trim cs)`. -/
theorem trim_escape (cs : List Char) : trim (escape cs) = escape (trim cs) := by
  have hstart : ∀ cs, (escape cs).dropWhile isSpace = escape (cs.dropWhile isSpace) :=
    dropWhile_flatMap (fun _ => escapeChar_of_isSpace) fun _ h => (escapeChar_ends h).1
  have hend : ∀ cs, Token.trimEnd (escape cs) = escape (Token.trimEnd cs) := by
    intro cs
    have hreverse : (cs.reverse.flatMap (List.reverse ∘ escapeChar)).dropWhile isSpace
        = (cs.reverse.dropWhile isSpace).flatMap (List.reverse ∘ escapeChar) :=
      dropWhile_flatMap
        (fun c h => by simp [escapeChar_of_isSpace h])
        (fun _ h => (escapeChar_ends h).2) cs.reverse
    rw [Token.trimEnd, Token.trimEnd, escape, List.reverse_flatMap, hreverse, List.reverse_eq_iff, escape,
      List.reverse_flatMap, List.reverse_reverse]
  rw [trim, hstart, hend]
  rfl

end PayloadGate.Markup
