import PayloadGate.Yaml.Scalar
import PayloadGate.Proofs.Text.Trim
import Mathlib.Data.Nat.Digits.Defs
import Mathlib.Tactic.Ring

/-! # Reading texts off YAML scalars

A scalar says by its first character how it is written, and each way of writing says where the text ends.

* **`SplitsOff write follows`** — what is written can be split off the front of a longer text, whose rest is in
  `follows`; **`SplitsOff.flatMap`** — a list of such items can.
* **`Unindented n r`** — the text `r` starts no line of a block that is indented by `n`.
* **`WritesLines.cons_inj`** — the first character of an indented text can be split off.
* **`unescape?_escaped`** — an escape is read as its character.
* **`splitsOff_scalar`** — a text can be read off its scalar. -/

namespace PayloadGate.Yaml

variable {n k : Nat} {c d : Char} {cs ds r s : List Char} {fresh : Bool}

/-! ## Splitting off -/

section SplitsOff

variable {α : Type} {write : α → List Char} {follows ends : List Char → Prop}

/-- **What is written can be split off the front of a longer text**, given that the rest is in `follows`: both `a` and
`r` are those of `write a ++ r`. -/
def SplitsOff (write : α → List Char) (follows : List Char → Prop) : Prop :=
  ∀ ⦃a b : α⦄ ⦃r s : List Char⦄, follows r → follows s → write a ++ r = write b ++ s → a = b ∧ r = s

/-- **Items can be split off one by one**, when an item is not taken for the end of the list. -/
theorem SplitsOff.flatMap (h : SplitsOff write follows) (hitem : ∀ a r, follows (write a ++ r))
    (hends : ∀ r, ends r → follows r) (hne : ∀ a r, ¬ ends (write a ++ r)) :
    SplitsOff (List.flatMap write) ends := by
  have hrest : ∀ (as : List α) (r : List Char), ends r → follows (as.flatMap write ++ r) := by
    intro as r hr
    cases as with
    | nil => exact hends r hr
    | cons a as =>
      rw [List.flatMap_cons, List.append_assoc]
      exact hitem a _
  -- by induction on the items; an item on one side only would begin what `ends`
  intro as
  induction as with
  | nil =>
    intro bs r s hr _ heq
    cases bs with
    | nil => exact ⟨rfl, heq⟩
    | cons b bs =>
      rw [List.flatMap_cons, List.append_assoc, List.flatMap_nil, List.nil_append] at heq
      exact absurd (heq ▸ hr) (hne b _)
  | cons a as ih =>
    intro bs r s hr hs heq
    rw [List.flatMap_cons, List.append_assoc] at heq
    cases bs with
    | nil =>
      rw [List.flatMap_nil, List.nil_append] at heq
      exact absurd (heq ▸ hs) (hne a _)
    | cons b bs =>
      rw [List.flatMap_cons, List.append_assoc] at heq
      obtain ⟨rfl, htail⟩ := h (hrest as r hr) (hrest bs s hs) heq
      obtain ⟨rfl, hends⟩ := ih hr hs htail
      exact ⟨rfl, hends⟩

end SplitsOff

/-! ## Double quotes -/

/-- The number that hexadecimal digits stand for, behind those for `m`. -/
def hexValue (m : Nat) (ds : List Char) : Nat := ds.foldl (fun m d => m * 16 + (digitValue? d).getD 0) m

/-- The number of digits behind the mark of an escape by number: `2` behind `x`, `4` behind `u` and `8` behind `U`. -/
def hexWidth? (mark : Char) : Option Nat := [('x', 2), ('u', 4), ('U', 8)].lookup mark

/-- **The first character that stands between double quotes**, with what follows it; the inverse of `escaped`. -/
def unescape? : List Char → Option (Char × List Char)
  | '\\' :: mark :: rest =>
    match hexWidth? mark with
    | some width => some (Char.ofNat (hexValue 0 (rest.take width)), rest.drop width)
    | none => (escapeLetters.find? fun l => l.2 == mark).map fun l => (l.1, rest)
  | c :: rest => some (c, rest)
  | [] => none

/-- `(hex k n).length = k`: a number has as many digits as are asked for. -/
theorem length_hex (k n : Nat) : (hex k n).length = k := by
  rw [hex, List.length_map, List.length_reverse, List.length_range]

/-- A digit more stands in front. -/
theorem hex_succ (k n : Nat) : hex (k + 1) n = hexDigit (n / 16 ^ k % 16) :: hex k n := by
  rw [hex, List.range_succ, List.reverse_append, List.reverse_singleton, List.singleton_append, List.map_cons]
  rfl

/-- A hexadecimal digit is read as its value. -/
theorem digitValue?_hexDigit : ∀ m < 16, digitValue? (hexDigit m) = some m := by decide

/-- **The digits of a number are read as its last `k` places**: `hexValue m (hex k n) = m * 16 ^ k + n % 16 ^ k`. -/
theorem hexValue_hex (m k n : Nat) : hexValue m (hex k n) = m * 16 ^ k + n % 16 ^ k := by
  induction k generalizing m with
  | zero => simp [hex, hexValue, Nat.mod_one]
  | succ k ih =>
    have hdigit : digitValue? (hexDigit (n / 16 ^ k % 16)) = some (n / 16 ^ k % 16) :=
      digitValue?_hexDigit _ (Nat.mod_lt _ (by decide))
    have hfirst : hexValue m (hex (k + 1) n) = hexValue (m * 16 + n / 16 ^ k % 16) (hex k n) := by
      rw [hex_succ, hexValue, List.foldl_cons, hdigit]
      rfl
    rw [hfirst, ih, Nat.mod_pow_succ]
    ring

/-- **The ways a character is written**: by a letter `\l`, as it is, or by its number, `\` and a `mark` with
`hexWidth? mark = some width` and `width` digits. -/
theorem escaped_cases (c : Char) :
    (∃ letter, escapeLetters.lookup c = some letter ∧ escaped c = ['\\', letter])
      ∨ (escapeLetters.lookup c = none ∧ escaped c = [c])
      ∨ ∃ mark width, hexWidth? mark = some width ∧ c.toNat < 16 ^ width
        ∧ escaped c = '\\' :: mark :: hex width c.toNat := by
  rw [escaped]
  cases hletter : escapeLetters.lookup c with
  | some letter => exact .inl ⟨letter, rfl, rfl⟩
  | none =>
    -- no character has more than six digits, so eight are enough for all that four are not
    have hmax : c.toNat < 0x110000 := by
      have := c.valid
      simp only [UInt32.isValidChar, Nat.isValidChar] at this
      change c.toNat < _ ∨ _ < c.toNat ∧ c.toNat < _ at this
      omega
    dsimp only
    split_ifs with hprintable hbyte hunit
    · exact .inr (.inl ⟨rfl, rfl⟩)
    · exact .inr (.inr ⟨'x', 2, rfl, by omega, rfl⟩)
    · exact .inr (.inr ⟨'u', 4, rfl, by omega, rfl⟩)
    · exact .inr (.inr ⟨'U', 8, rfl, by omega, rfl⟩)

/-- The letter of an escape is not the mark of a number, and stands for one character. -/
theorem letter_of_lookup (h : escapeLetters.lookup c = some d) :
    hexWidth? d = none ∧ (escapeLetters.find? fun l => l.2 == d) = some (c, d) := by
  have hall : ∀ l ∈ escapeLetters, hexWidth? l.2 = none ∧ (escapeLetters.find? fun m => m.2 == l.2) = some l := by
    decide
  obtain ⟨before, behind, heq, -⟩ := List.lookup_eq_some_iff.1 h
  exact hall (c, d) (by rw [heq]; exact List.mem_append_right _ List.mem_cons_self)

/-- **An escape is read as its character**, whatever follows it: `unescape? (escaped c ++ r) = some (c, r)`. -/
theorem unescape?_escaped (c : Char) (r : List Char) : unescape? (escaped c ++ r) = some (c, r) := by
  rcases escaped_cases c with ⟨letter, hletter, heq⟩ | ⟨hnone, heq⟩ | ⟨mark, width, hwidth, hlt, heq⟩
  · obtain ⟨hmark, hfind⟩ := letter_of_lookup hletter
    rw [heq]
    simp only [List.cons_append, List.nil_append, unescape?, hmark, hfind, Option.map_some]
  · have hslash : c ≠ '\\' := by
      rintro rfl
      exact absurd hnone (by decide)
    rw [heq, List.singleton_append]
    exact unescape?.eq_2 c r fun _ _ hc _ => hslash hc
  · have htake : (hex width c.toNat ++ r).take width = hex width c.toNat :=
      List.take_left' (length_hex _ _)
    have hdrop : (hex width c.toNat ++ r).drop width = r := List.drop_left' (length_hex _ _)
    rw [heq]
    simp only [List.cons_append, unescape?, hwidth, htake, hdrop]
    rw [hexValue_hex, Nat.mod_eq_of_lt hlt, Nat.zero_mul, Nat.zero_add, Char.ofNat_toNat]

/-- No escape starts with a double quote. -/
theorem head?_escaped (c : Char) : (escaped c).head? ≠ some '"' := by
  rcases escaped_cases c with ⟨letter, -, heq⟩ | ⟨hnone, heq⟩ | ⟨mark, width, -, -, heq⟩
  · rw [heq]
    exact fun hc => absurd (Option.some.inj hc) (by decide)
  · rw [heq]
    intro hc
    obtain rfl : c = '"' := Option.some.inj hc
    exact absurd hnone (by decide)
  · rw [heq]
    exact fun hc => absurd (Option.some.inj hc) (by decide)

/-- **A text in double quotes can be split off**, before anything: no `escaped c` starts with the quote that ends it. -/
theorem splitsOff_doubleQuoted : SplitsOff doubleQuoted fun _ => True := by
  have hchar : SplitsOff escaped fun _ => True := by
    intro c d r s _ _ heq
    have hread := congrArg unescape? heq
    rw [unescape?_escaped, unescape?_escaped] at hread
    exact Prod.mk.inj (Option.some.inj hread)
  have hne : ∀ (c : Char) (r : List Char), (escaped c ++ r).head? ≠ some '"' := by
    intro c r
    rw [List.head?_append_of_ne_nil]
    · exact head?_escaped c
    · intro hnil
      have hread := unescape?_escaped c []
      rw [hnil] at hread
      exact absurd hread (by simp [unescape?])
  -- a text ends where a quote stands that is no part of an escape
  have hchars : SplitsOff (List.flatMap escaped) fun r => r.head? = some '"' :=
    hchar.flatMap (fun _ _ => trivial) (fun _ _ => trivial) hne
  intro cs ds r s _ _ heq
  simp only [doubleQuoted, List.cons_append, List.append_assoc, List.nil_append, List.cons.injEq, true_and] at heq
  obtain ⟨rfl, hends⟩ := hchars (r := '"' :: r) (s := '"' :: s) rfl rfl heq
  exact ⟨rfl, List.tail_eq_of_cons_eq hends⟩

/-! ## Lines that are indented -/

/-- **What starts no line of a block**, `Unindented n r`: neither a break nor a line that is indented by `n`. -/
structure Unindented (n : Nat) (r : List Char) : Prop where
  /-- The block has no empty line there. -/
  head : r.head?.any isBreak = false
  /-- It has no other line there. -/
  not_prefix : ¬ spaces n <+: r

/-- The spaces in front of a character that starts a line. -/
def lead (n : Nat) (fresh : Bool) : List Char := if fresh then spaces n else []

/-- A line that starts with a character starts with no break. -/
theorem lead_append_ne (hc : isBreak c = true) (hd : isBreak d = false) : lead n fresh ++ d :: r ≠ c :: s := by
  intro heq
  have hhead : ∀ e ∈ (lead n fresh ++ d :: r).head?, isBreak e = false := by
    cases fresh with
    | false => simpa [lead] using hd
    | true =>
      cases n with
      | zero => simpa [lead, spaces] using hd
      | succ n => simp [lead, spaces, List.replicate_succ, isBreak]
  rw [heq] at hhead
  rw [hhead c rfl] at hc
  exact absurd hc (by decide)

/-- **How an indented text is written**, line by line: a break stands for itself, and any other character `c` for
`piece c`, behind the spaces of its line if it starts one. `body fresh cs` is what stands for `cs`. -/
structure WritesLines (n : Nat) (piece : Char → List Char) (body : Bool → List Char → List Char) : Prop where
  /-- Behind a break, a line starts. -/
  body_break : ∀ {fresh : Bool} {c : Char} {cs : List Char}, isBreak c = true → body fresh (c :: cs) = c :: body true cs
  /-- Behind another character, none does. -/
  body_char : ∀ {fresh : Bool} {c : Char} {cs : List Char}, isBreak c = false →
    body fresh (c :: cs) = lead n fresh ++ (piece c ++ body false cs)
  /-- What stands for another character starts with no break. -/
  exists_piece_eq : ∀ {c : Char}, isBreak c = false → ∃ d ds, piece c = d :: ds ∧ isBreak d = false
  /-- It can be split off. -/
  piece_append_inj : ∀ {c d : Char} {r s : List Char}, piece c ++ r = piece d ++ s → c = d ∧ r = s

/-- **The first character can be split off**: `body` of `c :: cs` and of `d :: ds` agree only when `c = d`, and go on
alike. -/
theorem WritesLines.cons_inj {piece : Char → List Char} {body : Bool → List Char → List Char}
    (hlines : WritesLines n piece body) (h : body fresh (c :: cs) ++ r = body fresh (d :: ds) ++ s) :
    c = d ∧ body (isBreak d) cs ++ r = body (isBreak d) ds ++ s := by
  -- a break starts no line, so that one on one side only would stand against `lead` on the other
  cases hc : isBreak c with
  | true =>
    rw [hlines.body_break hc] at h
    cases hd : isBreak d with
    | true =>
      rw [hlines.body_break hd] at h
      exact List.cons.inj h
    | false =>
      obtain ⟨e, es, hpiece, he⟩ := hlines.exists_piece_eq hd
      rw [hlines.body_char hd, hpiece, List.append_assoc] at h
      exact absurd h.symm (lead_append_ne hc he)
  | false =>
    rw [hlines.body_char hc, List.append_assoc, List.append_assoc] at h
    cases hd : isBreak d with
    | true =>
      obtain ⟨e, es, hpiece, he⟩ := hlines.exists_piece_eq hc
      rw [hlines.body_break hd, hpiece] at h
      exact absurd h (lead_append_ne hd he)
    | false =>
      rw [hlines.body_char hd, List.append_assoc, List.append_assoc] at h
      exact hlines.piece_append_inj (List.append_cancel_left h)

/-! ### Single quotes -/

/-- A character that is no break, within single quotes. -/
def quoted (c : Char) : List Char := if c == '\'' then ['\'', '\''] else [c]

/-- What stands for a character other than a break starts with none: `quoted c = d :: ds` with `isBreak d = false`. -/
theorem exists_quoted_eq (hc : isBreak c = false) : ∃ d ds, quoted c = d :: ds ∧ isBreak d = false := by
  unfold quoted
  split_ifs with hquote
  · exact ⟨_, _, rfl, rfl⟩
  · exact ⟨_, _, rfl, hc⟩

/-- A quote within the text, which is written twice, is not the one at its end, before a line feed. -/
theorem quoted_append_ne : quoted c ++ r ≠ '\'' :: '\n' :: s := by
  unfold quoted
  split_ifs with hquote
  · simp
  · simpa using fun heq _ => hquote (beq_iff_eq.2 heq)

/-- Characters can be split off. -/
theorem quoted_append_inj (h : quoted c ++ r = quoted d ++ s) : c = d ∧ r = s := by
  unfold quoted at h
  simp only [beq_iff_eq] at h
  split_ifs at h with hc hd hd
  · exact ⟨hc.trans hd.symm, by simpa using h⟩
  · exact absurd (List.cons.inj h).1.symm hd
  · exact absurd (List.cons.inj h).1 hc
  · exact List.cons.inj h

/-- Within single quotes, `quoted c` stands for a character. -/
theorem writesLines_singleBody (n : Nat) : WritesLines n quoted (singleBody n) where
  body_break hc := if_pos hc
  body_char hc := by
    rw [singleBody, if_neg (by simp [hc]), List.append_assoc]
    rfl
  exists_piece_eq := exists_quoted_eq
  piece_append_inj := quoted_append_inj

/-- What stands in front of a character is not the end. -/
theorem singleBody_cons_ne : singleBody n fresh (c :: cs) ++ r ≠ lead n fresh ++ '\'' :: '\n' :: s := by
  cases hc : isBreak c with
  | true =>
    rw [(writesLines_singleBody n).body_break hc]
    exact (lead_append_ne hc rfl).symm
  | false =>
    rw [(writesLines_singleBody n).body_char hc, List.append_assoc, List.append_assoc]
    exact fun heq => quoted_append_ne (List.append_cancel_left heq)

/-- **The inside of a text in single quotes can be split off**, before the quote and the line feed at its end: `cs` and
`r` are those of `singleBody n fresh cs ++ '\'' :: '\n' :: r`. -/
theorem singleBody_append_inj
    (h : singleBody n fresh cs ++ '\'' :: '\n' :: r = singleBody n fresh ds ++ '\'' :: '\n' :: s) :
    cs = ds ∧ r = s := by
  induction cs generalizing fresh ds with
  | nil =>
    cases ds with
    | nil => simpa using List.append_cancel_left h
    | cons d ds => exact absurd h.symm singleBody_cons_ne
  | cons c cs ih =>
    cases ds with
    | nil => exact absurd h singleBody_cons_ne
    | cons d ds =>
      obtain ⟨rfl, hrest⟩ := (writesLines_singleBody n).cons_inj h
      obtain ⟨rfl, hends⟩ := ih hrest
      exact ⟨rfl, hends⟩

/-! ### Literal blocks -/

/-- Whether a line ends at the end of the text, given that one does at its start. -/
def endsLine : Bool → List Char → Bool
  | fresh, [] => fresh
  | _, c :: cs => endsLine (isBreak c) cs

/-- In a literal block, a character stands for itself. -/
theorem writesLines_literalBody (n : Nat) : WritesLines n (fun c => [c]) (literalBody n) where
  body_break hc := if_pos hc
  body_char hc := if_neg (by simp [hc])
  exists_piece_eq hc := ⟨_, _, rfl, hc⟩
  piece_append_inj := List.cons.inj

/-- A line of the block is none of what follows it: it starts with a break or with `n` spaces, so it is not
`Unindented n`. -/
theorem not_unindented_literalBody : ¬ Unindented n (literalBody n true (c :: cs) ++ r) := by
  intro h
  cases hc : isBreak c with
  | true =>
    rw [(writesLines_literalBody n).body_break hc] at h
    exact absurd (hc.symm.trans h.head) (by decide)
  | false =>
    rw [(writesLines_literalBody n).body_char hc, List.append_assoc] at h
    exact h.not_prefix (List.prefix_append _ _)

/-- **The lines of a block can be split off**, when their last one is ended and what follows is `Unindented n`. -/
theorem literalBody_append_inj (hr : Unindented n r) (hs : Unindented n s) (hcs : endsLine fresh cs = true)
    (hds : endsLine fresh ds = true) (h : literalBody n fresh cs ++ r = literalBody n fresh ds ++ s) :
    cs = ds ∧ r = s := by
  -- by induction on the lines; a line on one side only would be one of what follows on the other
  induction cs generalizing fresh ds with
  | nil =>
    cases ds with
    | nil => exact ⟨rfl, h⟩
    | cons d ds =>
      obtain rfl : fresh = true := hcs
      rw [show r = literalBody n true (d :: ds) ++ s from h] at hr
      exact absurd hr not_unindented_literalBody
  | cons c cs ih =>
    cases ds with
    | nil =>
      obtain rfl : fresh = true := hds
      rw [← show literalBody n true (c :: cs) ++ r = s from h] at hs
      exact absurd hs not_unindented_literalBody
    | cons d ds =>
      obtain ⟨rfl, hrest⟩ := (writesLines_literalBody n).cons_inj h
      obtain ⟨rfl, hends⟩ := ih hcs hds hrest
      exact ⟨rfl, hends⟩

/-- The line feed behind a block whose last line is not ended by the text itself. -/
def closing (cs : List Char) : List Char := if cs.getLast?.any isBreak then [] else ['\n']

/-- It ends the last line: `endsLine fresh (cs ++ closing cs)`. -/
theorem endsLine_append_closing (cs : List Char) : endsLine fresh (cs ++ closing cs) = true := by
  have hsingle : ∀ (cs : List Char) (c : Char) (fresh : Bool), endsLine fresh (cs ++ [c]) = isBreak c := by
    intro cs c
    induction cs with
    | nil => exact fun _ => rfl
    | cons _ cs ih => exact fun _ => ih _
  unfold closing
  split_ifs with hlast
  · obtain ⟨c, hc, hbreak⟩ := (Option.any_eq_true _ _).1 hlast
    obtain ⟨front, rfl⟩ := List.getLast?_eq_some_iff.1 hc
    rw [List.append_nil, hsingle, hbreak]
  · rw [hsingle]
    rfl

/-- It is a line of the block like those of the text. -/
theorem literalBody_append_closing (cs : List Char) :
    literalBody n fresh (cs ++ closing cs) = literalBody n fresh cs ++ closing cs := by
  have hfeed : ∀ (cs : List Char) (fresh : Bool),
      literalBody n fresh (cs ++ ['\n']) = literalBody n fresh cs ++ ['\n'] := by
    intro cs
    induction cs with
    | nil => exact fun _ => rfl
    | cons c cs ih =>
      intro fresh
      simp only [List.cons_append, literalBody, ih]
      split_ifs <;> simp
  unfold closing
  split_ifs with hlast
  · rw [List.append_nil, List.append_nil]
  · exact hfeed cs fresh

/-- The hints stand on one line, and `-` among them tells whether the text ends its last line itself. -/
theorem literalHints_spec (cs : List Char) :
    '\n' ∉ literalHints cs ∧ ('-' ∈ literalHints cs ↔ cs.getLast?.any isBreak = false) := by
  rw [literalHints, ← List.head?_reverse]
  split_ifs <;> rcases cs.reverse with _ | ⟨c, _ | ⟨d, rest⟩⟩ <;> simp <;> split_ifs <;> simp_all

/-- **A literal block can be split off**, before what is `Unindented n`: the hints tell whether `closing cs` is a part
of the text. -/
theorem literal_append_inj (hr : Unindented n r) (hs : Unindented n s)
    (h : literal n cs ++ closing cs ++ r = literal n ds ++ closing ds ++ s) : cs = ds ∧ r = s := by
  have hline : ∀ cs : List Char, (∀ c ∈ literalHints cs, (c != '\n') = true) := by
    intro cs c hc
    rw [bne_iff_ne]
    rintro rfl
    exact (literalHints_spec cs).1 hc
  have hclosing : ∀ cs : List Char, closing cs = if '-' ∈ literalHints cs then ['\n'] else [] := by
    intro cs
    rw [closing]
    cases hlast : cs.getLast?.any isBreak <;> simp [(literalHints_spec cs).2, hlast]
  simp only [literal, List.cons_append, List.append_assoc, List.cons.injEq, true_and] at h
  obtain ⟨hhints, hlines⟩ := Text.run_append_inj (hline cs) (hline ds) (by simp) (by simp) h
  -- the hints are the same on both sides, and they tell what closes the block
  have hsame : closing cs = closing ds := by rw [hclosing, hclosing, hhints]
  rw [List.cons.injEq, ← List.append_assoc, ← List.append_assoc, ← literalBody_append_closing,
    ← literalBody_append_closing] at hlines
  obtain ⟨htext, hrest⟩ :=
    literalBody_append_inj hr hs (endsLine_append_closing cs) (endsLine_append_closing ds) hlines.2
  rw [hsame] at htext
  exact ⟨List.append_cancel_right htext, hrest⟩

/-! ## Scalars -/

/-- The four ways of writing a scalar. -/
inductive Style
  /-- As it is. -/
  | plain
  /-- In single quotes. -/
  | single
  /-- In double quotes. -/
  | double
  /-- As a literal block. -/
  | literal
  deriving DecidableEq

namespace Style

/-- The style is told by the first character: a quote, a bar, or anything else. -/
def ofFirst (c : Char) : Style :=
  if c = '\'' then .single else if c = '"' then .double else if c = '|' then .literal else .plain

/-- A text in a style, up to and with the line break that ends it. -/
def write (n : Nat) (cs : List Char) : Style → List Char
  | .plain => cs ++ ['\n']
  | .single => singleQuoted n cs ++ ['\n']
  | .double => doubleQuoted cs ++ ['\n']
  | .literal => Yaml.literal n cs ++ closing cs

/-- The texts that are written in a style: as they are only those on one line that start like no other style. -/
def Allows (cs : List Char) : Style → Prop
  | .plain => (∃ c rest, cs = c :: rest ∧ ofFirst c = .plain) ∧ ∀ c ∈ cs, isBreak c = false
  | _ => True

/-- A text in a style starts like it: `ofFirst` of the first character of `style.write n cs` is `style`. -/
theorem exists_write_eq {style : Style} (h : style.Allows cs) (n : Nat) :
    ∃ c rest, style.write n cs = c :: rest ∧ ofFirst c = style := by
  cases style with
  | plain =>
    obtain ⟨⟨c, rest, rfl, hc⟩, -⟩ := h
    exact ⟨c, _, rfl, hc⟩
  | single => exact ⟨_, _, rfl, rfl⟩
  | double => exact ⟨_, _, rfl, rfl⟩
  | literal => exact ⟨_, _, rfl, rfl⟩

/-- **A text is told by its style and what is written in it**: `cs` and `r` are those of `style.write n cs ++ r`. -/
theorem write_append_inj {style : Style} (hcs : style.Allows cs) (hds : style.Allows ds) (hr : Unindented n r)
    (hs : Unindented n s) (h : style.write n cs ++ r = style.write n ds ++ s) : cs = ds ∧ r = s := by
  -- in the same style, what was written can be split off in its own way
  cases style with
  | plain =>
    have hrun : ∀ cs : List Char, (∀ c ∈ cs, isBreak c = false) → ∀ c ∈ cs, (!isBreak c) = true :=
      fun cs hcs c hc => by rw [hcs c hc]; rfl
    rw [write, write, List.append_assoc, List.append_assoc] at h
    obtain ⟨htext, hrest⟩ :=
      Text.run_append_inj (hrun cs hcs.2) (hrun ds hds.2) (by simp [isBreak]) (by simp [isBreak]) h
    exact ⟨htext, List.append_cancel_left hrest⟩
  | single =>
    simp only [write, singleQuoted, List.cons_append, List.append_assoc, List.nil_append, List.cons.injEq,
      true_and] at h
    exact singleBody_append_inj h
  | double =>
    rw [write, write, List.append_assoc, List.append_assoc] at h
    obtain ⟨htext, hrest⟩ := splitsOff_doubleQuoted trivial trivial h
    exact ⟨htext, List.append_cancel_left hrest⟩
  | literal => exact literal_append_inj hr hs h

end Style

/-- A text that may stand as it is starts like no other style. -/
theorem plain_allows (hplain : plainAllowed cs = true) (hne : cs ≠ []) : Style.plain.Allows cs := by
  simp only [plainAllowed, hasIndicators, Bool.and_eq_true, Bool.not_eq_true', Bool.or_eq_false_iff] at hplain
  obtain ⟨⟨-, hbreak⟩, ⟨-, hopens⟩, -⟩ := hplain
  refine ⟨?_, fun c hc => by simpa using List.any_eq_false.1 hbreak c hc⟩
  obtain ⟨c, rest, rfl⟩ := List.exists_cons_of_ne_nil hne
  have hc := (Bool.or_eq_false_iff.1 hopens).1
  refine ⟨c, rest, rfl, ?_⟩
  unfold Style.ofFirst
  split_ifs with hsingle hdouble hliteral
  · exact absurd hc (by rw [hsingle]; decide)
  · exact absurd hc (by rw [hdouble]; decide)
  · exact absurd hc (by rw [hliteral]; decide)
  · rfl

/-- **A scalar is its text in one of the styles** that allow it: `scalar n text = style.write n text.toList`. -/
theorem exists_style (n : Nat) (text : String) :
    ∃ style : Style, style.Allows text.toList ∧ scalar n text = style.write n text.toList := by
  unfold scalar
  dsimp only
  by_cases hfeed : text.toList.contains '\n' = true
  · rw [if_pos hfeed]
    by_cases hliteral : literalAllowed text.toList = true
    · rw [if_pos hliteral]
      exact ⟨.literal, trivial, rfl⟩
    · rw [if_neg hliteral]
      exact ⟨.double, trivial, rfl⟩
  · rw [if_neg hfeed]
    unfold inline
    split_ifs with hplain hsingle
    · obtain ⟨hquote, hplain⟩ := Bool.and_eq_true_iff.1 hplain
      refine ⟨.plain, plain_allows hplain ?_, rfl⟩
      -- the empty text is in quotes, since it would be read as nothing
      intro hempty
      rw [String.toList_eq_nil_iff.1 hempty] at hquote
      exact absurd hquote (by decide)
    · exact ⟨.single, trivial, rfl⟩
    · exact ⟨.double, trivial, rfl⟩

/-- **A text can be read off its scalar**, before what is not indented like its further lines: both `text` and `r` are
those of `scalar n text ++ r`. -/
theorem splitsOff_scalar (n : Nat) : SplitsOff (scalar n) (Unindented n) := by
  intro text text' r s hr hs h
  obtain ⟨style, hallows, heq⟩ := exists_style n text
  obtain ⟨style', hallows', heq'⟩ := exists_style n text'
  rw [heq, heq'] at h
  obtain ⟨c, rest, hc, hstyle⟩ := Style.exists_write_eq hallows n
  obtain ⟨c', rest', hc', hstyle'⟩ := Style.exists_write_eq hallows' n
  -- both texts start with the same character, and so they are written in the same style
  have hsame : c = c' := by
    rw [hc, hc'] at h
    exact (List.cons.inj h).1
  obtain rfl : style = style' := by rw [← hstyle, ← hstyle', hsame]
  obtain ⟨htext, hrest⟩ := Style.write_append_inj hallows hallows' hr hs h
  exact ⟨String.toList_inj.1 htext, hrest⟩

end PayloadGate.Yaml
