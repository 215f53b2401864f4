import PayloadGate.Decimal.Unsigned
import PayloadGate.Proofs.Text.Trim
import Mathlib.Data.String.Basic
import Mathlib.Tactic.Ring

/-! # Numbers and the order of their texts

Texts of digits are ordered character by character, which is the order of the numbers only among
texts of one length. This file says how far the two orders agree.

* **`digitsValue_lt_iff`** — among texts of one length the orders agree.
* **`digitsValue_le_take`**, **`digitsValue_take_lt`** — in any case the beginnings of one length
  are in order.
* **`length_text_le_iff`**, **`length_text_mono`** — the length of the text of a number.
* **`IsNumeral`**, **`isNumeral_iff`** — a number as it is written, and that there is one way to write it.
* **`text_succ_le_text`** — among texts of one length the next number comes no later than a greater one.
* **`prefix_of_text_lt_text_succ`** — a text between the texts of a number and of the next one
  begins with the former or is the beginning of the latter.
* **`text_lt_text_succ_iff`** — the text of the next number comes later, unless all digits are
  nines. -/

namespace PayloadGate.Decimal

variable {a b cs : List Char}

/-! ## The value of digits -/

/-- `AllDigits cs`: texts of decimal digits, the empty text included. -/
def AllDigits (cs : List Char) : Prop := ∀ c ∈ cs, c.isDigit = true

instance (cs : List Char) : Decidable (AllDigits cs) := inferInstanceAs (Decidable (∀ c ∈ cs, c.isDigit = true))

/-- What stands behind the first digit are digits. -/
theorem AllDigits.tail {c : Char} (h : AllDigits (c :: cs)) : AllDigits cs :=
  fun d hd => h d (List.mem_cons_of_mem c hd)

/-- The first digits are digits. -/
theorem AllDigits.take (h : AllDigits cs) (n : Nat) : AllDigits (cs.take n) :=
  fun d hd => h d (List.mem_of_mem_take hd)

/-- What stands behind the first digits are digits. -/
theorem AllDigits.drop (h : AllDigits cs) (n : Nat) : AllDigits (cs.drop n) :=
  fun d hd => h d (List.mem_of_mem_drop hd)

/-- Digits behind digits are digits. -/
theorem AllDigits.append (ha : AllDigits a) (hb : AllDigits b) : AllDigits (a ++ b) :=
  fun d hd => (List.mem_append.1 hd).elim (ha d) (hb d)

/-- Zeros are digits. -/
theorem allDigits_zeros (n : Nat) : AllDigits (List.replicate n '0') := fun d hd => by
  rw [List.eq_of_mem_replicate hd]
  rfl

/-- Another character does not stand among digits. -/
theorem AllDigits.notMem {c : Char} (h : AllDigits cs) (hc : c.isDigit = false) : c ∉ cs := fun hmem => by
  rw [h c hmem] at hc
  exact absurd hc (by decide)

/-- The code of a digit lies between those of the first digit and of the last one. -/
theorem toNat_of_isDigit {c : Char} (h : c.isDigit = true) :
    '0'.toNat ≤ c.toNat ∧ c.toNat ≤ '9'.toNat := by
  rw [Char.isDigit, Bool.and_eq_true, decide_eq_true_eq, decide_eq_true_eq] at h
  exact ⟨UInt32.le_iff_toNat_le.1 h.1, UInt32.le_iff_toNat_le.1 h.2⟩

/-- The first digit counts for as many tens as digits follow. -/
theorem digitsValue_cons (c : Char) (cs : List Char) :
    digitsValue (c :: cs) = 10 ^ cs.length * (c.toNat - '0'.toNat) + digitsValue cs := by
  rw [digitsValue, Nat.ofDigitChars_cons, Nat.ofDigitChars_eq_ofDigitChars_zero, Nat.mul_zero,
    Nat.zero_add, digitsValue]

/-- Digits in front of `b` count `10 ^ b.length` times their own value. -/
theorem digitsValue_append (a b : List Char) :
    digitsValue (a ++ b) = 10 ^ b.length * digitsValue a + digitsValue b := by
  rw [digitsValue, Nat.ofDigitChars_append, Nat.ofDigitChars_eq_ofDigitChars_zero, digitsValue,
    digitsValue]

/-- Zeros before digits do not count. -/
theorem digitsValue_replicate_append (n : Nat) (cs : List Char) :
    digitsValue (List.replicate n '0' ++ cs) = digitsValue cs := by
  induction n with
  | zero => rfl
  | succ n ih => rw [List.replicate_succ, List.cons_append, digitsValue_cons, ih, Nat.sub_self,
      Nat.mul_zero, Nat.zero_add]

/-- **The value of digits is bounded by their number**: `digitsValue cs < 10 ^ cs.length`. -/
theorem digitsValue_lt_pow (h : AllDigits cs) : digitsValue cs < 10 ^ cs.length := by
  induction cs with
  | nil => rw [digitsValue, Nat.ofDigitChars_nil]; exact Nat.one_pos
  | cons c cs ih =>
    have hrest := ih h.tail
    have hdigit : c.toNat - '0'.toNat ≤ 9 := by
      have hc := (toNat_of_isDigit (h c List.mem_cons_self)).2
      have hnine : '9'.toNat = '0'.toNat + 9 := rfl
      omega
    have hfirst := Nat.mul_le_mul_left (10 ^ cs.length) hdigit
    rw [digitsValue_cons, List.length_cons, Nat.pow_succ]
    omega

/-- A greater first digit makes a greater value, whatever follows: `c < d` decides between `c :: a` and `d :: b` of one
length. -/
theorem digitsValue_cons_lt {c d : Char} (hc : c.isDigit = true) (ha : AllDigits a) (hcd : c < d)
    (hlen : a.length = b.length) : digitsValue (c :: a) < digitsValue (d :: b) := by
  have hrest := digitsValue_lt_pow ha
  have hfirst : c.toNat - '0'.toNat + 1 ≤ d.toNat - '0'.toNat := by
    have hlow := (toNat_of_isDigit hc).1
    have hlt : c.toNat < d.toNat := UInt32.lt_iff_toNat_lt.1 (Char.lt_def.1 hcd)
    omega
  have hmul := Nat.mul_le_mul_left (10 ^ a.length) hfirst
  rw [Nat.mul_succ] at hmul
  rw [digitsValue_cons, digitsValue_cons, ← hlen]
  omega

/-- **The greatest value of its length**, `10 ^ cs.length - 1`, has a text of nines. -/
theorem digitsValue_succ_eq_pow_iff (h : AllDigits cs) :
    digitsValue cs + 1 = 10 ^ cs.length ↔ ∀ c ∈ cs, c = '9' := by
  induction cs with
  | nil => simp [digitsValue]
  | cons c cs ih =>
    have hrest := digitsValue_lt_pow h.tail
    rw [digitsValue_cons, List.length_cons, Nat.pow_succ, List.forall_mem_cons, ← ih h.tail]
    constructor
    · intro hvalue
      have hc := toNat_of_isDigit (h c List.mem_cons_self)
      have hnine : '9'.toNat = '0'.toNat + 9 := rfl
      -- with a smaller digit the value would stay below nine tens
      have hdigit : c.toNat - '0'.toNat = 9 := by
        by_contra hne
        have hmul := Nat.mul_le_mul_left (10 ^ cs.length) (show c.toNat - '0'.toNat ≤ 8 by omega)
        omega
      refine ⟨Char.toNat_inj.1 (by omega), ?_⟩
      rw [hdigit] at hvalue
      omega
    · rintro ⟨rfl, hcs⟩
      have hnine : '9'.toNat - '0'.toNat = 9 := rfl
      rw [hnine]
      omega

/-- **Among texts of one length the orders agree**: `digitsValue a < digitsValue b ↔ a < b` when `a.length =
b.length`. -/
theorem digitsValue_lt_iff (ha : AllDigits a) (hb : AllDigits b) (hlen : a.length = b.length) :
    digitsValue a < digitsValue b ↔ a < b := by
  -- by induction on the digits: the first ones decide, or, when they are the same, those behind them
  induction a generalizing b with
  | nil =>
    obtain rfl : b = [] := List.length_eq_zero_iff.1 hlen.symm
    simp
  | cons c a ih =>
    cases b with
    | nil => exact absurd hlen (by simp)
    | cons d b =>
      have hlen' : a.length = b.length := Nat.succ.inj hlen
      rw [List.cons_lt_cons_iff]
      rcases lt_trichotomy c d with hlt | rfl | hgt
      · simp [digitsValue_cons_lt (ha c List.mem_cons_self) ha.tail hlt hlen', hlt]
      · rw [digitsValue_cons, digitsValue_cons, hlen', ← ih ha.tail hb.tail hlen']
        simp
      · have hvalue := digitsValue_cons_lt (hb d List.mem_cons_self) hb.tail hgt hlen'.symm
        simp [lt_asymm hvalue, lt_asymm hgt, ne_of_gt hgt]

/-- Digits of one length with one value are the same. -/
theorem eq_of_digitsValue_eq (ha : AllDigits a) (hb : AllDigits b) (hlen : a.length = b.length)
    (h : digitsValue a = digitsValue b) : a = b := by
  rcases lt_trichotomy a b with hlt | heq | hgt
  · exact absurd h (ne_of_lt ((digitsValue_lt_iff ha hb hlen).2 hlt))
  · exact heq
  · exact absurd h (ne_of_gt ((digitsValue_lt_iff hb ha hlen.symm).2 hgt))

/-! ## Texts of different lengths -/

/-- Lists whose first `n` members are in order are in order. -/
theorem lt_of_take_lt {n : Nat} (h : a.take n < b.take n) : a < b := by
  induction n generalizing a b with
  | zero => exact absurd h (by simp)
  | succ n ih =>
    cases b with
    | nil => exact absurd h (by simp)
    | cons d b =>
      cases a with
      | nil => exact List.nil_lt_cons d b
      | cons c a =>
        rw [List.take_succ_cons, List.take_succ_cons, List.cons_lt_cons_iff] at h
        exact List.cons_lt_cons_iff.2 (h.imp_right fun ⟨hcd, hab⟩ => ⟨hcd, ih hab⟩)

/-- **A text that comes before a longer one** has at most the value of its beginning:
`digitsValue a ≤ digitsValue (b.take a.length)`. -/
theorem digitsValue_le_take (ha : AllDigits a) (hb : AllDigits b) (h : a < b)
    (hlen : a.length ≤ b.length) :
    digitsValue a ≤ digitsValue (b.take a.length) := by
  by_contra hlt
  -- otherwise the beginnings are in the opposite order, and so are the texts
  have htake : b.take a.length < a.take a.length := by
    rw [List.take_length, ← digitsValue_lt_iff (hb.take _) ha (List.length_take_of_le hlen)]
    exact not_le.1 hlt
  exact List.lt_asymm h (lt_of_take_lt htake)

/-- **A text that comes before a shorter one** has a beginning of smaller value:
`digitsValue (a.take b.length) < digitsValue b`. -/
theorem digitsValue_take_lt (ha : AllDigits a) (hb : AllDigits b) (h : a < b)
    (hlen : b.length ≤ a.length) :
    digitsValue (a.take b.length) < digitsValue b := by
  have hlen' : (a.take b.length).length = b.length := List.length_take_of_le hlen
  rcases lt_trichotomy (digitsValue (a.take b.length)) (digitsValue b) with hlt | heq | hgt
  · exact hlt
  · -- with the same value the shorter text begins the longer one and comes before it
    have hbegins : b <+: a := by
      rw [← eq_of_digitsValue_eq (ha.take _) hb hlen' heq]
      exact List.take_prefix _ a
    exact absurd h (List.not_lt.2 hbegins.le)
  · have htake : b.take b.length < a.take b.length := by
      rwa [List.take_length, ← digitsValue_lt_iff hb (ha.take _) hlen'.symm]
    exact absurd (lt_of_take_lt htake) (List.lt_asymm h)

/-- The first `n` digits of a number: its quotient by `10 ^ (cs.length - n)`. -/
theorem digitsValue_take (h : AllDigits cs) (n : Nat) :
    digitsValue (cs.take n) = digitsValue cs / 10 ^ (cs.length - n) := by
  have hsplit := digitsValue_append (cs.take n) (cs.drop n)
  have hrest : digitsValue (cs.drop n) < 10 ^ (cs.length - n) := by
    rw [← List.length_drop]
    exact digitsValue_lt_pow (h.drop n)
  rw [List.take_append_drop, List.length_drop] at hsplit
  rw [hsplit, Nat.mul_add_div (Nat.pow_pos (by decide)), Nat.div_eq_of_lt hrest, Nat.add_zero]

/-! ## Texts of numbers -/

/-- The text of a number, as characters. -/
theorem toList_text (n : Nat) : (text n).toList = Nat.toDigits 10 n := by
  rw [text, Nat.toString_eq_repr, Nat.toList_repr]

/-- The text of a number has digits only. -/
theorem allDigits_text (n : Nat) : AllDigits (text n).toList := by
  intro c hc
  rw [toList_text] at hc
  exact Nat.isDigit_of_mem_toDigits (by decide) (by decide) hc

/-- The text of a number has its value. -/
theorem digitsValue_text (n : Nat) : digitsValue (text n).toList = n := by
  rw [toList_text, digitsValue, Nat.ofDigitChars_ten_toDigits]

/-- Digits are read as their value. -/
theorem digits?_eq_some_iff {n : Nat} : digits? cs = some n ↔ cs ≠ [] ∧ AllDigits cs ∧ digitsValue cs = n := by
  rw [digits?, Option.ite_none_right_eq_some, Option.some_inj, List.all_eq_true, and_assoc]
  rfl

/-- `digits? (text n).toList = some n`: the text of a number is read back. -/
theorem digits?_text (n : Nat) : digits? (text n).toList = some n := by
  refine digits?_eq_some_iff.2 ⟨?_, allDigits_text n, digitsValue_text n⟩
  rw [toList_text]
  exact Nat.toDigits_ne_nil

/-- Digits have no sign: `unsigned?` is `digits?` with the bound on the value. -/
theorem unsigned?_of_allDigits (h : AllDigits cs) (limit : Nat) :
    unsigned? limit cs = (digits? cs).filter (· < limit) := by
  have hsign : '+' ∉ cs := h.notMem (by decide)
  unfold unsigned?
  split
  · exact absurd List.mem_cons_self hsign
  · rfl

/-- The text of a number is not empty. -/
theorem text_ne_empty (n : Nat) : text n ≠ "" := by
  rw [text, Nat.toString_eq_repr]
  exact Nat.repr_ne_empty

/-- **Different numbers have different texts**: `text n = text m → n = m`. -/
theorem text_inj {n m : Nat} (h : text n = text m) : n = m := by
  rw [← digitsValue_text n, h, digitsValue_text]

/-- **A number is told by the line that it stands in**: `n` and `a` are determined by `(text n).toList ++ a` when `a`
does not begin with a digit. -/
theorem text_append_inj {n m : Nat} (ha : ∀ c ∈ a.head?, c.isDigit = false) (hb : ∀ c ∈ b.head?, c.isDigit = false)
    (h : (text n).toList ++ a = (text m).toList ++ b) : n = m ∧ a = b := by
  obtain ⟨htext, hrest⟩ := Text.run_append_inj (allDigits_text n) (allDigits_text m) ha hb h
  exact ⟨text_inj (String.toList_inj.1 htext), hrest⟩

/-- **The length of the text of a number**: at most `k` characters exactly when `n < 10 ^ k`, for `0 < k`. -/
theorem length_text_le_iff {n k : Nat} (h : 0 < k) : (text n).toList.length ≤ k ↔ n < 10 ^ k := by
  rw [toList_text]
  exact Nat.length_toDigits_le_iff (by decide) h

/-- The text of a number has a character. -/
theorem length_text_pos (n : Nat) : 0 < (text n).toList.length := by
  rw [toList_text]
  exact Nat.length_toDigits_pos

/-- Only the text of a power of ten is longer than that of the number before it: there
`n + 1 = 10 ^ (text n).toList.length`. -/
theorem succ_eq_pow_of_length_lt {n : Nat}
    (h : (text n).toList.length < (text (n + 1)).toList.length) :
    n + 1 = 10 ^ (text n).toList.length := by
  have hlow := (length_text_le_iff (n := n) (length_text_pos n)).1 le_rfl
  have hhigh := mt (length_text_le_iff (n := n + 1) (length_text_pos n)).2 (not_le.2 h)
  omega

/-- A greater number has no shorter text. -/
theorem length_text_mono {n m : Nat} (h : n ≤ m) : (text n).toList.length ≤ (text m).toList.length := by
  rw [length_text_le_iff (length_text_pos m)]
  exact lt_of_le_of_lt h ((length_text_le_iff (length_text_pos m)).1 le_rfl)

/-- The text of the next number is as long at least. -/
theorem length_text_le_succ (n : Nat) : (text n).toList.length ≤ (text (n + 1)).toList.length :=
  length_text_mono (Nat.le_succ n)

/-- Among texts of one length the greater number comes later. -/
theorem text_lt_text_iff {n m : Nat} (hlen : (text n).toList.length = (text m).toList.length) :
    (text n).toList < (text m).toList ↔ n < m := by
  rw [← digitsValue_lt_iff (allDigits_text n) (allDigits_text m) hlen, digitsValue_text, digitsValue_text]

/-! ## Numbers as they are written -/

/-- **A number as it is written**, `IsNumeral cs n`: digits of value `n` without a zero in front, unless the number is
zero. -/
structure IsNumeral (cs : List Char) (n : Nat) : Prop where
  /-- There is a digit. -/
  ne_nil : cs ≠ []
  /-- There are digits only. -/
  digits : AllDigits cs
  /-- A zero in front is all there is. -/
  plain : cs.head? = some '0' → cs = ['0']
  /-- The digits have the value of the number. -/
  value_eq : digitsValue cs = n

/-- A first digit `c ≠ '0'` makes the value as great as its place at least: `10 ^ cs.length ≤ digitsValue (c :: cs)`. -/
theorem pow_le_digitsValue {c : Char} (hc : c.isDigit = true) (hne : c ≠ '0') (cs : List Char) :
    10 ^ cs.length ≤ digitsValue (c :: cs) := by
  have hdigit : 1 ≤ c.toNat - '0'.toNat := by
    have hlow := (toNat_of_isDigit hc).1
    have hcode : c.toNat ≠ '0'.toNat := fun h => hne (Char.toNat_inj.1 h)
    omega
  rw [digitsValue_cons]
  exact le_trans (Nat.le_mul_of_pos_right _ hdigit) (Nat.le_add_right _ _)

/-- **The length of a number as it is written**: `cs.length ≤ k ↔ n < 10 ^ k`, for `0 < k`. -/
theorem IsNumeral.length_le_iff {n k : Nat} (h : IsNumeral cs n) (hk : 0 < k) : cs.length ≤ k ↔ n < 10 ^ k := by
  rw [← h.value_eq]
  constructor
  · exact fun hlen => lt_of_lt_of_le (digitsValue_lt_pow h.digits) (Nat.pow_le_pow_right (by decide) hlen)
  · intro hvalue
    cases cs with
    | nil => exact absurd rfl h.ne_nil
    | cons c cs =>
      by_cases hzero : c = '0'
      · rw [h.plain (by rw [hzero]; rfl)]
        exact hk
      · have hpow := lt_of_le_of_lt (pow_le_digitsValue (h.digits c List.mem_cons_self) hzero cs) hvalue
        exact (Nat.pow_lt_pow_iff_right (by decide)).1 hpow

/-- A number other than zero begins with another digit. -/
theorem IsNumeral.exists_zero_lt {n : Nat} (h : IsNumeral cs n) (hn : n ≠ 0) : ∃ d ds, cs = d :: ds ∧ '0' < d := by
  obtain ⟨d, ds, rfl⟩ := List.exists_cons_of_ne_nil h.ne_nil
  refine ⟨d, ds, rfl, lt_of_le_of_ne ?_ ?_⟩
  · have hdigit := h.digits d List.mem_cons_self
    rw [Char.isDigit, Bool.and_eq_true, decide_eq_true_eq] at hdigit
    exact hdigit.1
  · rintro rfl
    have hvalue := h.value_eq
    rw [h.plain rfl] at hvalue
    exact hn hvalue.symm

/-- The text of a number is a way to write it. -/
theorem isNumeral_text (n : Nat) : IsNumeral (text n).toList n where
  ne_nil := List.ne_nil_of_length_pos (length_text_pos n)
  digits := allDigits_text n
  plain hzero := by
    obtain ⟨rest, hrest⟩ := List.head?_eq_some_iff.1 hzero
    have hdigits : AllDigits rest := (hrest ▸ allDigits_text n).tail
    have hsame : digitsValue ('0' :: rest) = digitsValue rest := digitsValue_replicate_append 1 rest
    have hvalue := digitsValue_lt_pow hdigits
    rw [← hsame, ← hrest, digitsValue_text] at hvalue
    cases rest with
    | nil => exact hrest
    | cons d ds =>
      -- the number would have a text without the zero
      have hlen := (length_text_le_iff (Nat.succ_pos _)).2 hvalue
      rw [hrest, List.length_cons] at hlen
      exact absurd hlen (Nat.not_succ_le_self _)
  value_eq := digitsValue_text n

/-- **There is one way to write a number**, its text: `IsNumeral cs n ↔ cs = (text n).toList`. -/
theorem isNumeral_iff {n : Nat} : IsNumeral cs n ↔ cs = (text n).toList := by
  constructor
  · intro h
    have htext := isNumeral_text n
    have hlen : cs.length = (text n).toList.length := by
      refine le_antisymm ?_ ?_
      · rw [h.length_le_iff (length_text_pos n), ← htext.length_le_iff (length_text_pos n)]
      · have hpos := List.length_pos_of_ne_nil h.ne_nil
        rw [htext.length_le_iff hpos, ← h.length_le_iff hpos]
    exact eq_of_digitsValue_eq h.digits htext.digits hlen (h.value_eq.trans htext.value_eq.symm)
  · rintro rfl
    exact isNumeral_text n

/-! ## Between a number and the next one -/

variable {m n : Nat}

/-- **The text of the next number comes no later than that of a greater one** of the same length: `n < m` gives
`(text (n + 1)).toList ≤ (text m).toList`. -/
theorem text_succ_le_text (hlen : (text n).toList.length = (text m).toList.length) (h : n < m) :
    (text (n + 1)).toList ≤ (text m).toList := by
  -- the next number has a text of that length too
  have hsucc : (text m).toList.length = (text (n + 1)).toList.length := by
    apply le_antisymm
    · rw [← hlen]
      exact length_text_le_succ n
    · exact length_text_mono h
  rw [← not_lt, text_lt_text_iff hsucc]
  exact Nat.not_lt.2 h

/-- No text of the length of `text n` lies between `text n` and `text (n + 1)`. -/
theorem length_ne_of_text_lt_text_succ (hlow : (text n).toList < (text m).toList)
    (hhigh : (text m).toList < (text (n + 1)).toList) :
    (text n).toList.length ≠ (text m).toList.length :=
  fun hlen => absurd hhigh (not_lt.2 (text_succ_le_text hlen ((text_lt_text_iff hlen).1 hlow)))

/-- A longer text strictly between `text n` and `text (n + 1)` begins with `text n`. -/
theorem prefix_of_length_lt (hlow : (text n).toList < (text m).toList)
    (hhigh : (text m).toList < (text (n + 1)).toList)
    (hlen : (text n).toList.length < (text m).toList.length) :
    (text n).toList <+: (text m).toList := by
  have hn := digitsValue_le_take (allDigits_text n) (allDigits_text m) hlow (le_of_lt hlen)
  rw [digitsValue_text] at hn
  -- the beginning has the value of the number: not less, and less than the next one
  have hbelow : digitsValue ((text m).toList.take (text n).toList.length) < n + 1 := by
    rcases Nat.lt_or_eq_of_le (length_text_le_succ n) with hlt | heq
    · have hvalue := digitsValue_lt_pow ((allDigits_text m).take (text n).toList.length)
      rwa [List.length_take_of_le (le_of_lt hlen), ← succ_eq_pow_of_length_lt hlt] at hvalue
    · have hlen' := le_of_lt hlen
      rw [heq] at hlen'
      have hvalue := digitsValue_take_lt (allDigits_text m) (allDigits_text (n + 1)) hhigh hlen'
      rwa [digitsValue_text, ← heq] at hvalue
  have htake : (text m).toList.take (text n).toList.length = (text n).toList := by
    refine eq_of_digitsValue_eq ((allDigits_text m).take _) (allDigits_text n)
      (List.length_take_of_le (le_of_lt hlen)) ?_
    rw [digitsValue_text]
    omega
  rw [← htake]
  exact List.take_prefix _ _

/-- Behind `text n` comes no shorter text when `n + 1` is a power of ten: a shorter one that comes later leaves the
length at the step from `n` to `n + 1`. -/
theorem length_text_succ_of_lt_length (hlow : (text n).toList < (text m).toList)
    (hlen : (text m).toList.length < (text n).toList.length) :
    (text n).toList.length = (text (n + 1)).toList.length := by
  have hn := digitsValue_take_lt (allDigits_text n) (allDigits_text m) hlow (le_of_lt hlen)
  rw [digitsValue_take (allDigits_text n), digitsValue_text, digitsValue_text] at hn
  rcases Nat.lt_or_eq_of_le (length_text_le_succ n) with hlt | heq
  · -- the shorter text would stand for a number that does not fit into its length
    have hsplit : (text n).toList.length
        = (text n).toList.length - (text m).toList.length + (text m).toList.length := by
      omega
    have hpow := succ_eq_pow_of_length_lt hlt
    have hm : m < 10 ^ (text m).toList.length := (length_text_le_iff (length_text_pos m)).1 le_rfl
    set k := 10 ^ ((text n).toList.length - (text m).toList.length) with hk
    have hten : 0 < k := Nat.pow_pos (by decide)
    have habsurd : n + 1 < n + 1 :=
      calc n + 1 ≤ k * (n / k + 1) := Nat.lt_mul_div_succ n hten
        _ ≤ k * m := Nat.mul_le_mul_left k hn
        _ < k * 10 ^ (text m).toList.length := Nat.mul_lt_mul_of_pos_left hm hten
        _ = n + 1 := by rw [hk, ← Nat.pow_add, ← hsplit, hpow]
    exact absurd habsurd (lt_irrefl _)
  · exact heq

/-- A shorter text strictly between `text n` and `text (n + 1)` is the beginning of `text (n + 1)`. -/
theorem prefix_of_lt_length (hlow : (text n).toList < (text m).toList)
    (hhigh : (text m).toList < (text (n + 1)).toList)
    (hlen : (text m).toList.length < (text n).toList.length) :
    (text m).toList <+: (text (n + 1)).toList := by
  have hlen' := lt_of_lt_of_le hlen (length_text_le_succ n)
  have heq := length_text_succ_of_lt_length hlow hlen
  have hn := digitsValue_take_lt (allDigits_text n) (allDigits_text m) hlow (le_of_lt hlen)
  have hsucc := digitsValue_le_take (allDigits_text m) (allDigits_text (n + 1)) hhigh
    (le_of_lt hlen')
  rw [digitsValue_take (allDigits_text n), digitsValue_text, digitsValue_text] at hn
  rw [digitsValue_text] at hsucc
  -- both are the beginning of `n + 1`: a smaller value would put it before `n`, a larger one behind `n + 1`
  have htake : (text m).toList = (text (n + 1)).toList.take (text m).toList.length := by
    refine eq_of_digitsValue_eq (allDigits_text m) ((allDigits_text (n + 1)).take _)
      (List.length_take_of_le (le_of_lt hlen')).symm (le_antisymm (by rwa [digitsValue_text]) ?_)
    rw [digitsValue_take (allDigits_text (n + 1)), digitsValue_text, digitsValue_text, ← heq,
      Nat.succ_div]
    split_ifs <;> omega
  rw [htake]
  exact List.take_prefix _ _

/-- **A text between a number and the next one** begins with the former or is the beginning of the latter:
`text n <+: text m ∨ text m <+: text (n + 1)`, and its length differs from that of `text n`. -/
theorem prefix_of_text_lt_text_succ (hlow : (text n).toList < (text m).toList)
    (hhigh : (text m).toList < (text (n + 1)).toList) :
    (text n).toList <+: (text m).toList ∨ (text m).toList <+: (text (n + 1)).toList := by
  rcases lt_trichotomy (text n).toList.length (text m).toList.length with hlt | heq | hgt
  · exact Or.inl (prefix_of_length_lt hlow hhigh hlt)
  · exact absurd heq (length_ne_of_text_lt_text_succ hlow hhigh)
  · exact Or.inr (prefix_of_lt_length hlow hhigh hgt)

/-- **The text of the next number comes later**, `text n < text (n + 1)`, unless all digits of `n` are nines. -/
theorem text_lt_text_succ_iff :
    (text n).toList < (text (n + 1)).toList ↔ ¬ ∀ c ∈ (text n).toList, c = '9' := by
  rw [← digitsValue_succ_eq_pow_iff (allDigits_text n), digitsValue_text]
  rcases Nat.lt_or_eq_of_le (length_text_le_succ n) with hlt | heq
  · -- behind nines comes a one with zeros, which is smaller as a text
    have hpow := succ_eq_pow_of_length_lt hlt
    refine iff_of_false (fun hlow => ?_) (not_not.2 hpow)
    have hle := digitsValue_le_take (allDigits_text n) (allDigits_text (n + 1)) hlow (le_of_lt hlt)
    rw [digitsValue_take (allDigits_text (n + 1)), digitsValue_text, digitsValue_text] at hle
    have hten : 10 ^ 1 ≤ 10 ^ ((text (n + 1)).toList.length - (text n).toList.length) :=
      Nat.pow_le_pow_right (by decide) (by omega)
    have hdiv : (n + 1) / 10 ^ ((text (n + 1)).toList.length - (text n).toList.length)
        ≤ (n + 1) / 10 ^ 1 :=
      Nat.div_le_div_left hten (by decide)
    have hpos : 10 ^ 1 ≤ 10 ^ (text n).toList.length :=
      Nat.pow_le_pow_right (by decide) (length_text_pos n)
    omega
  · have hbound := (length_text_le_iff (n := n + 1) (length_text_pos (n + 1))).1 le_rfl
    rw [text_lt_text_iff heq, heq]
    exact iff_of_true (Nat.lt_succ_self n) (ne_of_lt hbound)

end PayloadGate.Decimal
