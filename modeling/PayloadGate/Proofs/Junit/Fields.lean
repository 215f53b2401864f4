import PayloadGate.Junit.Reader
import PayloadGate.Junit.Writer
import PayloadGate.Proofs.Decimal.Shortest
import PayloadGate.Proofs.Markup.Written
import Mathlib.Data.List.Nodup

/-! # Attributes that were written

* **`fieldsTag`** — a tag with fields, as results are written.
* **`isSound_fieldsTag`** — such a tag can be written.
* **`Fields.ofTag?_fieldsTag`** — its fields are read as they were written.
* **`Fields.text?_of_lookup`**, **`Fields.count?_of_lookup`**, **`Fields.duration?_of_lookup`** — texts, counts and
  durations are read back. -/

namespace PayloadGate.Junit

open Markup (Tag attributesFrom? escapeQuoted isSpace)

variable {name : String} {value : List Char}

/-! ## Attributes one after the other -/

/-- A name that an attribute can have: there are no blanks, marks or prefixes in it. -/
def IsPlain (name : String) : Prop :=
  name ≠ "" ∧ (∀ c ∈ name.toList, isSpace c = false ∧ c ∉ ['=', '>', '\x22', '\x27'])
    ∧ Markup.attributeName name.toList = name

instance (name : String) : Decidable (IsPlain name) := inferInstanceAs (Decidable (_ ∧ _))

/-- A name is read up to its equals sign, when it has no blank and no mark in it. -/
theorem attributesFrom?_name {cs : List Char} (h : ∀ c ∈ cs, isSpace c = false ∧ c ∉ ['=', '>', '\x22', '\x27'])
    (seen more : List Char) :
    attributesFrom? (.name seen) (cs ++ '=' :: more) = attributesFrom? (.equals (seen.reverse ++ cs)) more := by
  induction cs generalizing seen with
  | nil => rw [List.append_nil]; rfl
  | cons c cs ih =>
    obtain ⟨hspace, hmarks⟩ := h c List.mem_cons_self
    have hequals : c ≠ '=' := fun heq => hmarks (heq ▸ List.mem_cons_self)
    rw [List.cons_append, attributesFrom?, if_neg hequals, if_neg (by rw [hspace]; exact Bool.false_ne_true),
      ih (fun d hd => h d (List.mem_cons_of_mem c hd)), List.reverse_cons, List.append_assoc]
    rfl

/-- A value is read up to its quotation mark, when it has none in it. -/
theorem attributesFrom?_value {quote : Char} {cs : List Char} (h : quote ∉ cs) (name seen more : List Char) :
    attributesFrom? (.value name quote seen) (cs ++ quote :: more)
      = (attributesFrom? .gap more).map ((name, seen.reverse ++ cs) :: ·) := by
  induction cs generalizing seen with
  | nil =>
    rw [List.nil_append, attributesFrom?, if_pos rfl, List.append_nil]
  | cons c cs ih =>
    have hc : c ≠ quote := fun heq => h (heq ▸ List.mem_cons_self)
    rw [List.cons_append, attributesFrom?, if_neg hc, ih fun hmem => h (List.mem_cons_of_mem c hmem),
      List.reverse_cons, List.append_assoc]
    rfl

/-- **A field is read before what follows it**, `more`: its name, and its value as it is written. -/
theorem attributesFrom?_field (hname : IsPlain name) (value more : List Char) :
    attributesFrom? .gap (field name value ++ more)
      = (attributesFrom? .gap more).map ((name.toList, escapeQuoted value) :: ·) := by
  obtain ⟨hne, hplain, -⟩ := hname
  -- a name is not empty, and its first character ends the gap before it
  obtain ⟨c, cs, hcs⟩ := List.exists_cons_of_ne_nil (mt String.toList_eq_nil_iff.1 hne)
  have hfield : field name value ++ more
      = ' ' :: c :: (cs ++ '=' :: '\x22' :: (escapeQuoted value ++ '\x22' :: more)) := by
    simp [field, hcs]
  rw [hcs] at hplain ⊢
  have hspace : isSpace c = false := (hplain c List.mem_cons_self).1
  have hquote : '\x22' ∉ escapeQuoted value := Markup.quote_notMem_escapeQuoted
  rw [hfield, attributesFrom?, if_pos (by decide), attributesFrom?, if_neg (by rw [hspace]; exact Bool.false_ne_true),
    attributesFrom?_name fun d hd => hplain d (List.mem_cons_of_mem c hd)]
  exact attributesFrom?_value hquote (c :: cs) [] more

/-! ## Tags -/

/-- The fields of a tag as they are written. -/
def fieldsText (fields : List (String × List Char)) : List Char := fields.flatMap fun f => field f.1 f.2

/-- **A tag with `fields`**, written one after the other behind the `name`. -/
def fieldsTag (name : String) (fields : List (String × List Char)) : Tag := ⟨name.toList, fieldsText fields⟩

variable {fields : List (String × List Char)}

/-- Fields with names that attributes can have, each of its own: all `IsPlain`, and none twice. -/
structure ArePlain (fields : List (String × List Char)) : Prop where
  /-- The names. -/
  plain : ∀ f ∈ fields, IsPlain f.1
  /-- None of them stands twice. -/
  nodup : (fields.map (·.1)).Nodup

/-- Fields are plain by their `names` alone, whatever the values are; for names that are given this can be decided. -/
theorem arePlain_of_names (names : List String) (h : fields.map (·.1) = names) (hplain : ∀ name ∈ names, IsPlain name)
    (hnodup : names.Nodup) : ArePlain fields :=
  ⟨fun f hf => hplain f.1 (h ▸ List.mem_map_of_mem hf), h ▸ hnodup⟩

/-- **Fields are read as they were written**, the values still with their references. -/
theorem attributesFrom?_fieldsText (h : ∀ f ∈ fields, IsPlain f.1) :
    attributesFrom? .gap (fieldsText fields) = some (fields.map fun f => (f.1.toList, escapeQuoted f.2)) := by
  induction fields with
  | nil => rfl
  | cons f fields ih =>
    have hrest := ih fun g hg => h g (List.mem_cons_of_mem f hg)
    rw [fieldsText] at hrest
    rw [fieldsText, List.flatMap_cons, attributesFrom?_field (h f List.mem_cons_self), hrest]
    rfl

/-- The quotes of a field are closed at its end, as there are none in an escaped value. -/
theorem closes_field (hname : IsPlain name) (value : List Char) :
    Markup.Lexer.closes none (field name value) = true := by
  have hname' : Markup.Lexer.closes none name.toList = true := by
    refine Markup.Lexer.closes_of_plain fun c hc hmark => (hname.2.1 c hc).2 ?_
    exact List.mem_cons_of_mem _ hmark
  have hvalue : Markup.Lexer.closes none ('\x22' :: (escapeQuoted value ++ ['\x22'])) = true :=
    Markup.Lexer.closes_quoted Markup.quote_notMem_escapeQuoted
  have hblank : Markup.Lexer.closes none [' '] = true := rfl
  have hequals : Markup.Lexer.closes none ['='] = true := rfl
  have hfield : field name value
      = [' '] ++ (name.toList ++ (['='] ++ '\x22' :: (escapeQuoted value ++ ['\x22']))) := by
    simp [field]
  rw [hfield]
  exact Markup.Lexer.closes_append hblank
    (Markup.Lexer.closes_append hname' (Markup.Lexer.closes_append hequals hvalue))

/-- The quotes of fields are closed at their end, one field after the other. -/
theorem closes_fieldsText (h : ∀ f ∈ fields, IsPlain f.1) : Markup.Lexer.closes none (fieldsText fields) = true := by
  induction fields with
  | nil => rfl
  | cons f fields ih =>
    rw [fieldsText, List.flatMap_cons]
    exact Markup.Lexer.closes_append (closes_field (h f List.mem_cons_self) f.2)
      (ih fun g hg => h g (List.mem_cons_of_mem f hg))

/-- Fields begin with a blank and end with a quotation mark, unless there are none. -/
theorem fieldsText_ends (fields : List (String × List Char)) :
    fieldsText fields = [] ∨ ∃ middle, fieldsText fields = ' ' :: (middle ++ ['\x22']) := by
  induction fields with
  | nil => exact .inl rfl
  | cons f fields ih =>
    have hfield : fieldsText (f :: fields)
        = ' ' :: (f.1.toList ++ '=' :: '\x22' :: escapeQuoted f.2 ++ '\x22' :: fieldsText fields) := by
      simp [fieldsText, field]
    rw [hfield]
    rcases ih with hnil | ⟨middle, hmiddle⟩
    · exact .inr ⟨_, by rw [hnil]⟩
    · refine .inr ⟨f.1.toList ++ '=' :: '\x22' :: escapeQuoted f.2 ++ '\x22' :: ' ' :: middle, ?_⟩
      rw [hmiddle]
      simp

/-- A name that an element can have: there are no blanks and no marks in it. -/
def IsElementName (name : String) : Prop :=
  name ≠ "" ∧ ∀ c ∈ name.toList, isSpace c = false ∧ c ∉ ['<', '>', '/', '!', '?', '\x22', '\x27']

instance (name : String) : Decidable (IsElementName name) := inferInstanceAs (Decidable (_ ∧ _))

/-- **A tag with fields can be written**: it reads as one tag, with this name. -/
theorem isSound_fieldsTag (hname : IsElementName name) (h : ArePlain fields) : (fieldsTag name fields).IsSound := by
  refine ⟨mt String.toList_eq_nil_iff.1 hname.1, hname.2, ?_, closes_fieldsText h.plain, ?_⟩
  · rcases fieldsText_ends fields with hnil | ⟨middle, hmiddle⟩
    · rw [fieldsTag, hnil]
      rfl
    · rw [fieldsTag, hmiddle]
      rfl
  · rcases fieldsText_ends fields with hnil | ⟨middle, hmiddle⟩
    · rw [fieldsTag, hnil]
      exact fun hnone => nomatch hnone
    · rw [fieldsTag, hmiddle, ← List.cons_append, List.getLast?_concat]
      decide

namespace Fields

/-- A name that stands at most once among the fields is found at most once. -/
theorem length_filter_le_one {fields : Fields} (h : (fields.map (·.1)).Nodup) (name : String) :
    (fields.filter (·.1 == name)).length ≤ 1 := by
  have hcount := List.nodup_iff_count_le_one.1 h name
  rwa [List.count, List.countP_map, List.countP_eq_length_filter] at hcount

/-- **The fields of a tag are read as they were written**, whatever names are `known`. -/
theorem ofTag?_fieldsTag (h : ArePlain fields) (known : List String) :
    ofTag? known (fieldsTag name fields) = some (fields.map fun f => (f.1, escapeQuoted f.2)) := by
  have hwhole : ((fields.map fun f => (f.1.toList, escapeQuoted f.2)).map (·.1)).Nodup := by
    have hmap := h.nodup.map fun _ _ heq => String.toList_injective heq
    rwa [List.map_map] at hmap ⊢
  have hattributes : (fieldsTag name fields).attributes?
      = some (fields.map fun f => (f.1.toList, escapeQuoted f.2)) := by
    rw [Tag.attributes?, fieldsTag, attributesFrom?_fieldsText h.plain, Option.filter_some,
      if_pos (decide_eq_true hwhole)]
  have hnames : (fields.map fun f => (f.1.toList, escapeQuoted f.2)).map (fun a => (Markup.attributeName a.1, a.2))
      = fields.map fun f => (f.1, escapeQuoted f.2) := by
    rw [List.map_map]
    exact List.map_congr_left fun f hf => Prod.ext (h.plain f hf).2.2 rfl
  have hkeys : ((fields.map fun f => (f.1, escapeQuoted f.2)).map (·.1)).Nodup := by
    rw [List.map_map]
    exact h.nodup
  rw [ofTag?, hattributes]
  simp only [Option.bind_eq_bind, Option.bind_some, hnames]
  exact if_pos (List.all_eq_true.2 fun name _ => decide_eq_true (length_filter_le_one hkeys name))

variable {read : Fields} {raw : List Char}

/-- **A text is read back** from the field that holds it, references and all. -/
theorem text?_of_lookup {text : String} (h : read.lookup name = some (escapeQuoted text.toList)) :
    text? read name = some text := by
  rw [text?, h]
  simp only [Markup.resolve?_escapeQuoted, Option.map_some, String.ofList_toList]

/-- **A count is read back** from the field that holds its text. -/
theorem count?_of_lookup {n : UInt32} (h : read.lookup name = some (escapeQuoted (countText n))) :
    count? read name = some n := by
  have hdigits : Decimal.AllDigits (countText n) := Decimal.allDigits_text n.toNat
  -- a digit is none of the characters that are escaped
  have hplain : escapeQuoted (countText n) = countText n := by
    refine Markup.escapeQuoted_eq_self fun c hc => ?_
    refine ⟨?_, ?_, ?_, ?_⟩ <;> rintro rfl <;> exact absurd (hdigits _ hc) (by decide)
  rw [count?, h, hplain]
  show (Decimal.unsigned? Decimal.limit32 (countText n)).map Nat.toUInt32 = some n
  have hlimit : n.toNat < Decimal.limit32 := n.toNat_lt
  rw [Decimal.unsigned?_of_allDigits hdigits, countText, Decimal.digits?_text, Option.filter_some,
    if_pos (decide_eq_true hlimit)]
  exact congrArg some (UInt32.ofNat_toNat)

/-- **A duration is read back** from the field that holds its text: the shortest text of a number names no other one. -/
theorem duration?_of_lookup {x : Decimal.Binary64} (h : read.lookup name = some (escapeQuoted x.text)) :
    duration? read name = some x := by
  have hplain : escapeQuoted x.text = x.text := by
    refine Markup.escapeQuoted_eq_self fun c hc => ?_
    have hmem := Decimal.Binary64.mem_text hc
    refine ⟨?_, ?_, ?_, ?_⟩ <;> rintro rfl <;> exact absurd hmem (by decide)
  rw [duration?, h, hplain]
  exact Decimal.Binary64.ofText?_text x

end Fields

end PayloadGate.Junit
