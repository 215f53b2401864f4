import PayloadGate.Json.Parser
import PayloadGate.Json.Printer
import PayloadGate.Proofs.Decimal.Order
import PayloadGate.Proofs.Text.Encoding
import Mathlib.Data.List.TakeDrop

/-! # Reading JSON that was written

* **`IsNumber`** — the grammar of numbers.
* **`Value.IsSpelled`** — the values that have a spelling: all texts are texts, and all numbers are numbers.
* **`stringBody_quoted`**, **`number?_lexeme`** — a string and a number are read as they were written.
* **`value_render`** — a value is read as it was written, whatever follows that is no part of it;
  **`parse_render`** — so is a whole document. -/

namespace PayloadGate.Json

variable {c e : Char} {n : Nat} {cs ds : List Char} {rest : List Symbol} {fuel : Nat} {v : Value}

/-! ## Strings -/

/-- **The ways a character is written**: `\e` where `escape? e = some c`, `\u00` and two digits below U+0020, or as it
is. -/
theorem escaped_cases (c : Char) :
    (∃ e, escaped c = ['\\', e] ∧ escape? e = some c)
      ∨ (escaped c = ['\\', 'u', '0', '0', hexDigit (c.toNat / 16), hexDigit (c.toNat % 16)] ∧ c.toNat < 0x20)
      ∨ (escaped c = [c] ∧ c ≠ '"' ∧ c ≠ '\\' ∧ ¬ c.toNat < 0x20) := by
  unfold escaped
  split_ifs with hquote hslash hback hfeed hline hreturn htab hcontrol
  · exact .inl ⟨'"', rfl, by rw [hquote]; rfl⟩
  · exact .inl ⟨'\\', rfl, by rw [hslash]; rfl⟩
  · exact .inl ⟨'b', rfl, by rw [hback]; rfl⟩
  · exact .inl ⟨'f', rfl, by rw [hfeed]; rfl⟩
  · exact .inl ⟨'n', rfl, by rw [hline]; rfl⟩
  · exact .inl ⟨'r', rfl, by rw [hreturn]; rfl⟩
  · exact .inl ⟨'t', rfl, by rw [htab]; rfl⟩
  · exact .inr (.inl ⟨rfl, hcontrol⟩)
  · exact .inr (.inr ⟨rfl, hquote, hslash, hcontrol⟩)

/-- An escape of one letter is one unit. -/
theorem pieces_letter (h : escape? e = some c) (rest : List Symbol) :
    pieces (some '\\' :: some e :: rest) = (pieces rest).map fun r => (.char c :: r.1, r.2) := by
  have hu : e ≠ 'u' := by
    rintro rfl
    exact absurd h (by simp [escape?])
  rw [pieces.eq_4 _ _ fun _ _ _ _ _ _ heq => hu heq, h]
  cases pieces rest <;> rfl

/-- A hexadecimal digit is read as its value. -/
theorem hexDigit?_hexDigit : ∀ n < 16, hexDigit? (some (hexDigit n)) = some n := by decide

/-- An escape by a number is one unit. -/
theorem pieces_codeUnit (h : n < 0x100) (rest : List Symbol) :
    pieces (some '\\' :: some 'u' :: some '0' :: some '0' :: some (hexDigit (n / 16))
        :: some (hexDigit (n % 16)) :: rest) = (pieces rest).map fun r => (.codeUnit n :: r.1, r.2) := by
  have hhex : hex4? (some '0') (some '0') (some (hexDigit (n / 16))) (some (hexDigit (n % 16))) = some n := by
    rw [hex4?, hexDigit?_hexDigit _ (by omega), hexDigit?_hexDigit _ (by omega)]
    exact congrArg some (by omega)
  rw [pieces.eq_3, hhex]
  cases pieces rest <;> rfl

/-- A character that needs no escape is one unit. -/
theorem pieces_plain (hquote : c ≠ '"') (hslash : c ≠ '\\') (hcontrol : ¬ c.toNat < 0x20) (rest : List Symbol) :
    pieces (some c :: rest) = (pieces rest).map fun r => (.char c :: r.1, r.2) := by
  rw [pieces.eq_5 _ _ hquote (fun _ _ _ _ _ _ heq => hslash heq) (fun _ _ _ heq => hslash heq),
    if_neg (not_or.2 ⟨hslash, hcontrol⟩)]
  cases pieces rest <;> rfl

/-- A code unit that is no surrogate stands for its character, whatever follows. -/
theorem textOf_codeUnit (h : n < 0xD800) (ps : List Piece) :
    textOf (.codeUnit n :: ps) = (textOf ps).map (Char.ofNat n :: ·) := by
  have hsurrogate : ¬ 0xD800 ≤ n := Nat.not_le.2 h
  have hlow : ¬ 0xDC00 ≤ n := by omega
  cases ps with
  | nil => simp [textOf, hsurrogate]
  | cons p ps => cases p <;> simp [textOf, hsurrogate, hlow]

/-- **A character is read as it was written**, whatever follows: `escaped c` is one unit `p`, and `textOf (p :: ps)`
puts `c` in front. -/
theorem exists_piece_escaped (c : Char) :
    ∃ p, (∀ rest, pieces ((escaped c).map some ++ rest) = (pieces rest).map fun r => (p :: r.1, r.2))
      ∧ ∀ ps, textOf (p :: ps) = (textOf ps).map (c :: ·) := by
  rcases escaped_cases c with ⟨e, he, hletter⟩ | ⟨hunit, hcontrol⟩ | ⟨hplain, hquote, hslash, hcontrol⟩
  · exact ⟨.char c, fun rest => he ▸ pieces_letter hletter rest, fun ps => rfl⟩
  · refine ⟨.codeUnit c.toNat, fun rest => hunit ▸ pieces_codeUnit (by omega) rest, fun ps => ?_⟩
    rw [textOf_codeUnit (by omega), Char.ofNat_toNat]
  · exact ⟨.char c, fun rest => hplain ▸ pieces_plain hquote hslash hcontrol rest, fun ps => rfl⟩

/-- **A string is read as it was written**, up to its closing quote: `stringBody` gives `some s` and leaves `rest`. -/
theorem stringBody_quoted (s : String) (rest : List Symbol) :
    stringBody ((s.toList.flatMap escaped ++ ['"']).map some ++ rest) = some (some s, rest) := by
  have hbody : ∀ cs : List Char, ∃ ps, pieces ((cs.flatMap escaped ++ ['"']).map some ++ rest) = some (ps, rest)
      ∧ textOf ps = some cs := by
    intro cs
    induction cs with
    | nil => exact ⟨[], rfl, rfl⟩
    | cons c cs ih =>
      obtain ⟨ps, hps, htext⟩ := ih
      obtain ⟨p, hp, hchar⟩ := exists_piece_escaped c
      refine ⟨p :: ps, ?_, by rw [hchar, htext, Option.map_some]⟩
      rw [List.flatMap_cons, List.append_assoc, List.map_append, List.append_assoc, hp, hps, Option.map_some]
  obtain ⟨ps, hps, htext⟩ := hbody s.toList
  rw [stringBody, hps]
  exact congrArg (fun text => some (text, rest)) (by rw [htext, Option.map_some, String.ofList_toList])

/-! ## Numbers -/

/-- One or more digits. -/
def IsDigits (ds : List Char) : Prop := ds ≠ [] ∧ Decimal.AllDigits ds

instance (ds : List Char) : Decidable (IsDigits ds) :=
  inferInstanceAs (Decidable (ds ≠ [] ∧ ∀ c ∈ ds, c.isDigit = true))

/-- The digits before the point, `IsWhole ds`: a zero alone, or digits that do not start with one. -/
def IsWhole (ds : List Char) : Prop := ds = ['0'] ∨ IsDigits ds ∧ ds.head? ≠ some '0'

/-- The point with digits behind it, or nothing. -/
def IsFraction (cs : List Char) : Prop := cs = [] ∨ ∃ ds, IsDigits ds ∧ cs = '.' :: ds

/-- The mark of the exponent with digits behind it, which may have a sign, or nothing. -/
def IsExponent (cs : List Char) : Prop :=
  cs = [] ∨ ∃ mark sign ds, (mark = 'e' ∨ mark = 'E') ∧ (sign = [] ∨ sign = ['+'] ∨ sign = ['-']) ∧ IsDigits ds
    ∧ cs = mark :: (sign ++ ds)

/-- **The grammar of numbers**: an optional minus sign, then `IsWhole`, `IsFraction` and `IsExponent`. -/
def IsNumber (cs : List Char) : Prop :=
  ∃ sign whole fraction exponent, (sign = [] ∨ sign = ['-']) ∧ IsWhole whole ∧ IsFraction fraction
    ∧ IsExponent exponent ∧ cs = sign ++ (whole ++ (fraction ++ exponent))

/-- No digit follows. -/
def NoDigit (rest : List Symbol) : Prop := ∀ c ∈ rest.head?, isDigit c = false

/-- **Nothing follows that belongs to a number**: no digit, no point and no mark of an exponent. -/
def Ends (rest : List Symbol) : Prop :=
  NoDigit rest ∧ rest.head? ≠ some (some '.') ∧ rest.head? ≠ some (some 'e') ∧ rest.head? ≠ some (some 'E')

/-- A comma and what closes a list or an object are no parts of a number. -/
theorem ends_cons (h : c ∈ [',', ']', '\x7d']) (rest : List Symbol) : Ends (some c :: rest) := by
  have hdigit : ∀ d ∈ [',', ']', '\x7d'], d.isDigit = false := by decide
  have hother : ∀ d ∈ [',', ']', '\x7d'], d ≠ '.' ∧ d ≠ 'e' ∧ d ≠ 'E' := by decide
  obtain ⟨hpoint, hsmall, hlarge⟩ := hother c h
  refine ⟨?_, by simpa using hpoint, by simpa using hsmall, by simpa using hlarge⟩
  rintro d ⟨⟩
  exact hdigit c h

/-- Digits are read up to what is none: `someDigits?` gives `ds` and leaves `rest`. -/
theorem someDigits?_append (h : IsDigits ds) (hrest : NoDigit rest) :
    someDigits? (ds.map some ++ rest) = some (ds.map some, rest) := by
  have hall : ∀ c ∈ ds.map some, isDigit c = true := by
    intro c hc
    obtain ⟨d, hd, rfl⟩ := List.mem_map.1 hc
    exact h.2 d hd
  have hdigits : digits (ds.map some ++ rest) = (ds.map some, rest) := by
    rw [digits, List.span_eq_takeWhile_dropWhile, Text.takeWhile_run hall hrest, Text.dropWhile_run hall hrest]
  rw [someDigits?, hdigits]
  obtain ⟨d, ds, rfl⟩ := List.exists_cons_of_ne_nil h.1
  rfl

/-- The digits before the point are read up to what is none. -/
theorem wholePart?_append (h : IsWhole ds) (hrest : NoDigit rest) :
    wholePart? (ds.map some ++ rest) = some (ds.map some, rest) := by
  rcases h with rfl | ⟨hdigits, hzero⟩
  · have hnone : (rest.head?.map isDigit).getD false = false := by
      cases rest with
      | nil => rfl
      | cons c rest => exact hrest c rfl
    change (if (rest.head?.map isDigit).getD false then none else _) = _
    rw [hnone]
    rfl
  · rw [← someDigits?_append hdigits hrest]
    obtain ⟨d, ds, rfl⟩ := List.exists_cons_of_ne_nil hdigits.1
    refine wholePart?.eq_2 _ fun cs heq => hzero ?_
    rw [List.map_cons, List.cons_append] at heq
    rw [List.head?_cons, Option.some.inj (List.cons.inj heq).1]

/-- The fraction is read up to what is no part of it. -/
theorem fractionPart?_append (h : IsFraction cs) (hrest : NoDigit rest) (hpoint : rest.head? ≠ some (some '.')) :
    fractionPart? (cs.map some ++ rest) = some (cs.map some, rest) := by
  rcases h with rfl | ⟨ds, hds, rfl⟩
  · refine fractionPart?.eq_2 _ fun cs heq => hpoint ?_
    rw [← List.nil_append rest, ← List.map_nil, heq, List.head?_cons]
  · change (someDigits? (ds.map some ++ rest)).map _ = _
    rw [someDigits?_append hds hrest]
    rfl

/-- Digits that may have a sign are read up to what is none. -/
theorem signed_append {sign : List Char} (hsign : sign = [] ∨ sign = ['+'] ∨ sign = ['-']) (h : IsDigits ds)
    (hrest : NoDigit rest) (mark : Symbol) :
    exponentPart?.signed mark ((sign ++ ds).map some ++ rest) = some (mark :: (sign ++ ds).map some, rest) := by
  have hdigits := someDigits?_append h hrest
  rcases hsign with rfl | rfl | rfl
  · -- the first digit is no sign
    obtain ⟨d, ds, rfl⟩ := List.exists_cons_of_ne_nil h.1
    have hd : d.isDigit = true := h.2 d List.mem_cons_self
    have hmark : ∀ c, c.isDigit = false → some d ≠ some c := by
      rintro c hc heq
      rw [Option.some.inj heq, hc] at hd
      exact absurd hd (by decide)
    rw [List.nil_append, List.map_cons, List.cons_append, exponentPart?.signed.eq_3 _ _
      (fun _ heq => hmark '+' rfl (List.cons.inj heq).1) (fun _ heq => hmark '-' rfl (List.cons.inj heq).1)]
    rw [← List.cons_append, ← List.map_cons, hdigits]
    rfl
  · change (someDigits? (ds.map some ++ rest)).map _ = _
    rw [hdigits]
    rfl
  · change (someDigits? (ds.map some ++ rest)).map _ = _
    rw [hdigits]
    rfl

/-- The exponent is read up to what is no part of it. -/
theorem exponentPart?_append (h : IsExponent cs) (hrest : Ends rest) :
    exponentPart? (cs.map some ++ rest) = some (cs.map some, rest) := by
  obtain ⟨hdigit, -, hsmall, hlarge⟩ := hrest
  rcases h with rfl | ⟨mark, sign, ds, rfl | rfl, hsign, hds, rfl⟩
  · rw [List.map_nil, List.nil_append]
    refine exponentPart?.eq_3 _ (fun cs heq => hsmall ?_) fun cs heq => hlarge ?_ <;> rw [heq, List.head?_cons]
  · exact signed_append hsign hds hdigit _
  · exact signed_append hsign hds hdigit _

/-- Before an exponent there is no digit and no point. -/
theorem IsExponent.noDigit (h : IsExponent cs) (hrest : Ends rest) :
    NoDigit (cs.map some ++ rest) ∧ (cs.map some ++ rest).head? ≠ some (some '.') := by
  rcases h with rfl | ⟨mark, sign, ds, rfl | rfl, -, -, rfl⟩
  · exact ⟨hrest.1, hrest.2.1⟩
  · exact ⟨by rintro c ⟨⟩; rfl, by simp⟩
  · exact ⟨by rintro c ⟨⟩; rfl, by simp⟩

/-- Before a fraction there is no digit. -/
theorem IsFraction.noDigit (h : IsFraction cs) (hrest : NoDigit rest) : NoDigit (cs.map some ++ rest) := by
  rcases h with rfl | ⟨ds, -, rfl⟩
  · exact hrest
  · rintro c ⟨⟩
    rfl

/-- The digits before the point start with a digit. -/
theorem IsWhole.exists_cons (h : IsWhole ds) : ∃ d ds', ds = d :: ds' ∧ d.isDigit = true := by
  rcases h with rfl | ⟨⟨hne, hdigits⟩, -⟩
  · exact ⟨'0', [], rfl, rfl⟩
  · obtain ⟨d, ds', rfl⟩ := List.exists_cons_of_ne_nil hne
    exact ⟨d, ds', rfl, hdigits d List.mem_cons_self⟩

/-- What is read of a number behind its sign. -/
def behindSign (sign : List Symbol) (cs : List Symbol) : Option (Value × List Symbol) := do
  let (whole, cs) ← wholePart? cs
  let (fraction, cs) ← fractionPart? cs
  let (exponent, cs) ← exponentPart? cs
  some (.number (String.ofList ((sign ++ whole ++ fraction ++ exponent).filterMap id)), cs)

/-- Without a minus sign there is no sign. -/
theorem number?_of_head?_ne {cs : List Symbol} (h : cs.head? ≠ some (some '-')) : number? cs = behindSign [] cs := by
  refine number?.eq_2 cs fun rest heq => h ?_
  rw [heq, List.head?_cons]

/-- What follows a sign is read up to what is no part of it, as the number spelled `sign`, `whole`, `fraction`,
`exponent`. -/
theorem behindSign_append {whole fraction exponent : List Char} (sign : List Char) (hwhole : IsWhole whole)
    (hfraction : IsFraction fraction) (hexponent : IsExponent exponent) (hrest : Ends rest) :
    behindSign (sign.map some) ((whole ++ (fraction ++ exponent)).map some ++ rest)
      = some (.number (String.ofList (sign ++ (whole ++ (fraction ++ exponent)))), rest) := by
  obtain ⟨hdigit, hpoint⟩ := hexponent.noDigit hrest
  have htext : (sign.map some ++ (whole.map some ++ (fraction.map some ++ exponent.map some))).filterMap id
      = sign ++ (whole ++ (fraction ++ exponent)) := by
    simp only [← List.map_append]
    rw [List.filterMap_map]
    exact List.filterMap_some
  simp only [List.map_append, List.append_assoc, behindSign, wholePart?_append hwhole (hfraction.noDigit hdigit),
    fractionPart?_append hfraction hdigit hpoint, exponentPart?_append hexponent hrest, Option.bind_eq_bind,
    Option.bind_some]
  exact congrArg (fun text => some (Value.number (String.ofList text), rest)) htext

/-- **A number is read as it was written**, up to what is no part of it: `number?` keeps the spelling `cs`. -/
theorem number?_lexeme (h : IsNumber cs) (hrest : Ends rest) :
    number? (cs.map some ++ rest) = some (.number (String.ofList cs), rest) := by
  obtain ⟨sign, whole, fraction, exponent, rfl | rfl, hwhole, hfraction, hexponent, rfl⟩ := h
  · -- a digit comes first, so that no sign is read
    have hhead : ((whole ++ (fraction ++ exponent)).map some ++ rest).head? ≠ some (some '-') := by
      obtain ⟨d, ds, rfl, hd⟩ := hwhole.exists_cons
      rintro ⟨⟩
      exact absurd hd (by decide)
    rw [List.nil_append, number?_of_head?_ne hhead]
    exact behindSign_append [] hwhole hfraction hexponent hrest
  · have hread := behindSign_append ['-'] hwhole hfraction hexponent hrest
    exact hread

/-! ## Values -/

/-- **The values that have a spelling**: all texts in them are texts, `text (some s)`, and all numbers are spelled by
`IsNumber`. -/
inductive Value.IsSpelled : Value → Prop where
  /-- The word `null`. -/
  | null : IsSpelled .null
  /-- A truth value. -/
  | bool (value : Bool) : IsSpelled (.bool value)
  /-- A number of the grammar. -/
  | number {lexeme : String} (h : IsNumber lexeme.toList) : IsSpelled (.number lexeme)
  /-- A text. -/
  | text (s : String) : IsSpelled (.text (some s))
  /-- A list of such values. -/
  | list {items : List Value} (h : ∀ v ∈ items, IsSpelled v) : IsSpelled (.list items)
  /-- An object with such values, under names that are texts. -/
  | object {members : List (Option String × Value)} (hnames : ∀ m ∈ members, m.1.isSome)
    (h : ∀ m ∈ members, IsSpelled m.2) : IsSpelled (.object members)

/-- An object without members has a spelling. -/
theorem Value.isSpelled_empty : (Value.object []).IsSpelled := .object (List.forall_mem_nil _) (List.forall_mem_nil _)

/-- With one more member that has a spelling it has one, too. -/
theorem Value.IsSpelled.member {members : List (Option String × Value)} (name : String) (hv : v.IsSpelled)
    (h : (Value.object members).IsSpelled) : (Value.object ((some name, v) :: members)).IsSpelled := by
  cases h with
  | object hnames hvalues =>
    exact .object (List.forall_mem_cons.2 ⟨rfl, hnames⟩) (List.forall_mem_cons.2 ⟨hv, hvalues⟩)

/-- `ReadsBack v`: a value is read as it was written, with any fuel of twice the length at least, whatever follows that
is no part of it. -/
def ReadsBack (v : Value) : Prop :=
  ∀ fuel rest, 2 * (render v).length ≤ fuel + 1 → Ends rest
    → value (fuel + 1) ((render v).map some ++ rest) = some (v, rest)

/-- A number starts with a digit or a minus sign. -/
theorem IsNumber.exists_cons (h : IsNumber cs) : ∃ c cs', cs = c :: cs' ∧ (c.isDigit = true ∨ c = '-') := by
  obtain ⟨sign, whole, fraction, exponent, rfl | rfl, hwhole, -, -, rfl⟩ := h
  · obtain ⟨d, ds, rfl, hd⟩ := hwhole.exists_cons
    exact ⟨d, _, rfl, .inl hd⟩
  · exact ⟨'-', _, rfl, .inr rfl⟩

/-- A blank does not start a number. -/
theorem isBlank_eq_false (h : c.isDigit = true ∨ c = '-') : isBlank (some c) = false := by
  have hmem : isBlank (some c) = true → c ∈ [' ', '\t', '\n', '\r'] := by
    unfold isBlank
    split <;> simp_all
  refine Bool.eq_false_iff.2 fun hblank => ?_
  have hnone : ∀ d ∈ [' ', '\t', '\n', '\r'], ¬ (d.isDigit = true ∨ d = '-') := by decide
  exact hnone c (hmem hblank) h

/-- **A value starts with a character** that is no blank and does not close a list, so that `value` takes it for an
item. -/
theorem Value.IsSpelled.exists_render (h : v.IsSpelled) :
    ∃ c cs, render v = c :: cs ∧ isBlank (some c) = false ∧ c ≠ ']' := by
  cases h with
  | null => exact ⟨'n', _, rfl, rfl, by decide⟩
  | bool b => cases b <;> exact ⟨_, _, rfl, rfl, by decide⟩
  | number h =>
    obtain ⟨c, cs, hcs, hc⟩ := h.exists_cons
    refine ⟨c, cs, hcs, isBlank_eq_false hc, ?_⟩
    rintro rfl
    exact absurd hc (by decide)
  | text s => exact ⟨'"', _, rfl, rfl, by decide⟩
  | @list items h => cases items <;> exact ⟨'[', _, rfl, rfl, by decide⟩
  | @object members hnames h => cases members <;> exact ⟨'\x7b', _, rfl, rfl, by decide⟩

/-- What is no blank is not passed over. -/
theorem skipBlanks_cons {c : Symbol} (h : isBlank c = false) (cs : List Symbol) : skipBlanks (c :: cs) = c :: cs := by
  rw [skipBlanks, List.dropWhile_cons, if_neg (by simp [h])]

/-- A text is read as it was written. -/
theorem readsBack_text (s : String) : ReadsBack (.text (some s)) := by
  intro fuel rest _ _
  change (stringBody ((s.toList.flatMap escaped ++ ['"']).map some ++ rest)).map _ = _
  rw [stringBody_quoted]
  rfl

/-- A number is read as it was written. -/
theorem readsBack_number {lexeme : String} (h : IsNumber lexeme.toList) : ReadsBack (.number lexeme) := by
  intro fuel rest _ hrest
  have hread := number?_lexeme h hrest
  rw [String.ofList_toList] at hread
  rw [render, ← hread]
  obtain ⟨c, cs, hcs, hc⟩ := h.exists_cons
  rw [hcs]
  have hother : ∀ d ∈ ['"', '[', '\x7b', 'n', 't', 'f'], c ≠ d := by
    rintro d hd rfl
    have hnone : ∀ d ∈ ['"', '[', '\x7b', 'n', 't', 'f'], ¬ (d.isDigit = true ∨ d = '-') := by decide
    exact hnone c hd hc
  rw [value, List.map_cons, List.cons_append, skipBlanks_cons (isBlank_eq_false hc)]
  split
  case h_7 => rfl
  all_goals
    next heq => exact absurd (Option.some.inj (List.cons.inj heq).1) (hother _ (by decide))

/-- A list is read item by item. -/
theorem value_list (h : isBlank (some c) = false) (hc : c ≠ ']') (fuel : Nat) (cs : List Symbol) :
    value (fuel + 1) (some '[' :: some c :: cs) = (items fuel (some c :: cs)).map fun r => (.list r.1, r.2) := by
  rw [value, skipBlanks_cons rfl]
  simp only [skipBlanks_cons h]
  split
  · next heq => exact absurd (Option.some.inj (List.cons.inj heq).1) hc
  · rfl

/-- The last item stands before the bracket. -/
theorem items_last {cs : List Symbol} (h : value fuel cs = some (v, some ']' :: rest)) :
    items (fuel + 1) cs = some ([v], rest) := by
  rw [items, h]
  rfl

/-- Behind a comma there are further items. -/
theorem items_more {cs : List Symbol} (h : value fuel cs = some (v, some ',' :: rest)) :
    items (fuel + 1) cs = (items fuel rest).map fun r => (v :: r.1, r.2) := by
  rw [items, h]
  rfl

/-- **The items of a list are read as they were written**, by induction on the items: each one `ReadsBack`, up to a
comma or the closing bracket. -/
theorem items_render {vs : List Value} (h : ∀ w ∈ v :: vs, ReadsBack w)
    (hfuel : 2 * (render v ++ renderItems vs).length < fuel) (rest : List Symbol) :
    items fuel ((render v ++ renderItems vs).map some ++ rest) = some (v :: vs, rest) := by
  -- an item costs one step, and is written with two characters at least, the comma or the bracket included
  obtain ⟨fuel, rfl⟩ := Nat.exists_eq_add_one_of_ne_zero (Nat.ne_of_gt (Nat.zero_lt_of_lt hfuel))
  rw [List.length_append] at hfuel
  rw [List.map_append, List.append_assoc]
  induction vs generalizing v fuel with
  | nil =>
    rw [renderItems, List.length_singleton] at hfuel
    obtain ⟨fuel, rfl⟩ := Nat.exists_eq_add_one_of_ne_zero (show fuel ≠ 0 by omega)
    exact items_last (h v List.mem_cons_self fuel _ (by omega) (ends_cons (by decide) rest))
  | cons w vs ih =>
    rw [renderItems, List.length_cons, List.length_append] at hfuel
    simp only [renderItems, List.map_cons, List.map_append, List.cons_append, List.append_assoc]
    obtain ⟨fuel, rfl⟩ := Nat.exists_eq_add_one_of_ne_zero (show fuel ≠ 0 by omega)
    rw [items_more (h v List.mem_cons_self fuel _ (by omega) (ends_cons (by decide) _)),
      ih (fun x hx => h x (List.mem_cons_of_mem v hx)) fuel (by omega)]
    rfl

/-- The last member stands before the brace. -/
theorem members_last {name : String} {cs : List Symbol} (h : value fuel cs = some (v, some '\x7d' :: rest)) :
    members (fuel + 1) ((quoted name).map some ++ some ':' :: cs) = some ([(some name, v)], rest) := by
  rw [quoted, List.map_cons, List.cons_append, members, skipBlanks_cons rfl]
  have hcolon : isBlank (some ':') = false := rfl
  simp only [stringBody_quoted, Option.bind_eq_bind, Option.bind_some, skipBlanks_cons hcolon, h]
  rfl

/-- Behind a comma there are further members. -/
theorem members_more {name : String} {cs : List Symbol} (h : value fuel cs = some (v, some ',' :: rest)) :
    members (fuel + 1) ((quoted name).map some ++ some ':' :: cs)
      = (members fuel rest).map fun r => ((some name, v) :: r.1, r.2) := by
  rw [quoted, List.map_cons, List.cons_append, members, skipBlanks_cons rfl]
  have hcolon : isBlank (some ':') = false := rfl
  simp only [stringBody_quoted, Option.bind_eq_bind, Option.bind_some, skipBlanks_cons hcolon, h]
  rfl

/-- **The members of an object are read as they were written**, by induction on the members: each name as a string, and
each value `ReadsBack`. -/
theorem members_render {name : String} {ms : List (Option String × Value)} (hnames : ∀ m ∈ ms, m.1.isSome)
    (h : ∀ m ∈ (some name, v) :: ms, ReadsBack m.2)
    (hfuel : 2 * (quoted name ++ ':' :: (render v ++ renderMembers ms)).length < fuel) (rest : List Symbol) :
    members fuel ((quoted name ++ ':' :: (render v ++ renderMembers ms)).map some ++ rest)
      = some ((some name, v) :: ms, rest) := by
  obtain ⟨fuel, rfl⟩ := Nat.exists_eq_add_one_of_ne_zero (Nat.ne_of_gt (Nat.zero_lt_of_lt hfuel))
  simp only [List.length_append, List.length_cons] at hfuel
  simp only [List.map_cons, List.map_append, List.cons_append, List.append_assoc]
  -- the induction takes a name and a value from the list at each step, and `fuel` with them
  induction ms generalizing v name fuel with
  | nil =>
    have hv : ReadsBack v := h _ List.mem_cons_self
    obtain ⟨fuel, rfl⟩ := Nat.exists_eq_add_one_of_ne_zero (show fuel ≠ 0 by omega)
    exact members_last (hv fuel _ (by omega) (ends_cons (by decide) rest))
  | cons m ms ih =>
    have hv : ReadsBack v := h _ List.mem_cons_self
    obtain ⟨hnext, hothers⟩ := List.forall_mem_cons.1 hnames
    obtain ⟨next, w⟩ := m
    obtain ⟨next, rfl⟩ := Option.isSome_iff_exists.1 hnext
    simp only [renderMembers, Option.getD_some, List.length_append, List.length_cons] at hfuel
    simp only [renderMembers, Option.getD_some, List.map_cons, List.map_append, List.cons_append, List.append_assoc]
    obtain ⟨fuel, rfl⟩ := Nat.exists_eq_add_one_of_ne_zero (show fuel ≠ 0 by omega)
    rw [members_more (hv fuel _ (by omega) (ends_cons (by decide) _)),
      ih hothers (fun x hx => h x (List.mem_cons_of_mem _ hx)) fuel (by omega)]
    rfl

/-- An object is read member by member. -/
theorem value_object (fuel : Nat) (cs : List Symbol) :
    value (fuel + 1) (some '\x7b' :: some '"' :: cs)
      = (members fuel (some '"' :: cs)).map fun r => (.object r.1, r.2) := rfl

/-- A list is read as it was written when its items are. -/
theorem readsBack_list {vs : List Value} (hspelled : ∀ v ∈ vs, v.IsSpelled) (h : ∀ v ∈ vs, ReadsBack v) :
    ReadsBack (.list vs) := by
  intro fuel rest hfuel _
  cases vs with
  | nil => rfl
  | cons v vs =>
    rw [render, List.length_cons] at hfuel
    obtain ⟨c, cs, hcs, hc, hclose⟩ := (hspelled v List.mem_cons_self).exists_render
    have hread := items_render h (show 2 * (render v ++ renderItems vs).length < fuel by omega) rest
    rw [hcs, List.cons_append, List.map_cons, List.cons_append] at hread
    rw [render, hcs, List.map_cons, List.cons_append, List.cons_append, List.map_cons, List.cons_append,
      value_list hc hclose, hread]
    rfl

/-- An object is read as it was written when its members are. -/
theorem readsBack_object {ms : List (Option String × Value)} (hnames : ∀ m ∈ ms, m.1.isSome)
    (h : ∀ m ∈ ms, ReadsBack m.2) : ReadsBack (.object ms) := by
  intro fuel rest hfuel _
  cases ms with
  | nil => rfl
  | cons m ms =>
    obtain ⟨hname, hothers⟩ := List.forall_mem_cons.1 hnames
    obtain ⟨name, v⟩ := m
    obtain ⟨name, rfl⟩ := Option.isSome_iff_exists.1 hname
    rw [render, Option.getD_some, List.length_cons] at hfuel
    have hread := members_render hothers h
      (show 2 * (quoted name ++ ':' :: (render v ++ renderMembers ms)).length < fuel by omega) rest
    rw [quoted, List.cons_append, List.map_cons, List.cons_append] at hread
    rw [render, Option.getD_some, quoted, List.cons_append, List.map_cons, List.map_cons, List.cons_append,
      List.cons_append, value_object, hread]
    rfl

/-- **A value is read as it was written**, whatever follows that is no part of it: `ReadsBack v` by induction on
`v.IsSpelled`. -/
theorem value_render (h : v.IsSpelled) : ReadsBack v := by
  induction h with
  | null => exact fun _ _ _ _ => rfl
  | bool b => cases b <;> exact fun _ _ _ _ => rfl
  | number h => exact readsBack_number h
  | text s => exact readsBack_text s
  | list hspelled ih => exact readsBack_list hspelled ih
  | object hnames _ ih => exact readsBack_object hnames ih

/-- **A document is read as it was written**: `parse` of the bytes of `render v` is `some v`. -/
theorem parse_render (h : v.IsSpelled) : parse (String.ofList (render v)).toUTF8.toList = some v := by
  have hread := value_render h (2 * ((render v).map some).length + 1) [] (by simp; omega)
    ⟨by rintro c ⟨⟩, by simp, by simp, by simp⟩
  rw [List.append_nil] at hread
  rw [parse, Text.Utf8.scan_toUTF8, String.toList_ofList, ofSymbols?, hread]
  rfl

end PayloadGate.Json
