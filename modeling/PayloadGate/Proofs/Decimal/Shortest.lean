import PayloadGate.Proofs.Decimal.Rounding
import Mathlib.Data.List.TakeWhile

/-! # A number that was written is read back

* **`Magnitude.nearest?_shortest`** — the decimal that is written for a magnitude has that magnitude as the
  nearest one.
* **`unsignedNumber?_shortest`** — positional notation is read as the magnitude it stands for.
* **`Binary64.ofText?_text`** — every number of the format is read back from its text, the infinities and the one that
  is no number included. -/

namespace PayloadGate.Decimal

/-! ## The decimal that is written -/

namespace Decimal1074

/-- The value in units of `10 ^ -1074`. -/
def units (d : Decimal1074) : Nat := d.digits * Nat.pow 10 d.places

end Decimal1074

namespace Magnitude

variable {m : Magnitude} {d : Decimal1074}

/-- A decimal that `onGrid?` offers reads back, since the grid checks it with `readsBack`. -/
theorem readsBack_of_onGrid? {places : Nat} (h : m.onGrid? places = some d) :
    m.readsBack d.units = true := by
  simp only [onGrid?] at h
  split_ifs at h with hboth hhalf hlow hhigh
  · obtain rfl := Option.some.inj h
    exact (Bool.and_eq_true_iff.1 hboth).1
  · obtain rfl := Option.some.inj h
    exact (Bool.and_eq_true_iff.1 hboth).2
  · obtain rfl := Option.some.inj h
    exact hlow
  · obtain rfl := Option.some.inj h
    exact hhigh

/-- What `m.search places` finds reads back. At the last grid, where nothing shorter is left, it is the exact value. -/
theorem readsBack_search (m : Magnitude) (places : Nat) : m.readsBack (m.search places).units = true := by
  induction places with
  | zero =>
    have hunits : (m.search 0).units = m.decimalUnits := Nat.mul_one _
    rw [hunits, readsBack, nearest?_exact]
    exact beq_self_eq_true _
  | succ places ih =>
    rw [search]
    cases hgrid : m.onGrid? (places + 1) with
    | none => exact ih
    | some d => exact readsBack_of_onGrid? hgrid

/-- **The decimal that is written for a magnitude** has it as the nearest one:
`nearest? m.shortest.units (10 ^ 1074) = some m`. -/
theorem nearest?_shortest (m : Magnitude) : nearest? m.shortest.units (Nat.pow 10 1074) = some m :=
  beq_iff_eq.1 (m.readsBack_search _)

end Magnitude

/-! ## Positional notation -/

variable {cs ds : List Char}

/-- Zeros behind digits multiply by ten. -/
theorem digitsValue_append_replicate (cs : List Char) (n : Nat) :
    digitsValue (cs ++ List.replicate n '0') = digitsValue cs * Nat.pow 10 n := by
  have hzeros : digitsValue (List.replicate n '0') = 0 := by
    rw [← List.append_nil (List.replicate n '0'), digitsValue_replicate_append]
    rfl
  rw [digitsValue_append, hzeros, List.length_replicate, Nat.add_zero, Nat.mul_comm]
  rfl

/-- **The digits of a fraction** without the zeros at their end: `fractionText cs` is `ds` behind a point, where `cs` is
`ds` and zeros, and nothing when `ds = []`. -/
theorem exists_fractionText (cs : List Char) :
    ∃ ds n, cs = ds ++ List.replicate n '0' ∧ fractionText cs = if ds = [] then [] else '.' :: ds := by
  refine ⟨(cs.reverse.dropWhile (· == '0')).reverse, (cs.reverse.takeWhile (· == '0')).length, ?_, ?_⟩
  · have hzeros : cs.reverse.takeWhile (· == '0')
        = List.replicate (cs.reverse.takeWhile (· == '0')).length '0' :=
      List.eq_replicate_iff.2 ⟨rfl, fun c hc => by simpa using List.mem_takeWhile_imp hc⟩
    have hsplit := congrArg List.reverse (List.takeWhile_append_dropWhile (p := (· == '0')) (l := cs.reverse))
    rw [List.reverse_append, List.reverse_reverse, hzeros, List.reverse_replicate] at hsplit
    exact hsplit.symm
  · rw [fractionText]
    split
    · rename_i h
      rw [if_pos h]
    · rename_i h
      rw [if_neg h]

/-- **Digits with a point among them**, `cs.ds`, are read as the decimal `digitsValue (cs ++ ds)` with the exponent
`-ds.length`. -/
theorem unsignedNumber?_point (negative : Bool) (hne : cs ≠ []) (hcs : AllDigits cs) (hds : AllDigits ds) :
    unsignedNumber? negative (cs ++ if ds = [] then [] else '.' :: ds)
      = some (.ofDecimal negative (digitsValue (cs ++ ds)) (-ds.length)) := by
  have hvalue : digits? (cs ++ ds) = some (digitsValue (cs ++ ds)) :=
    digits?_eq_some_iff.2 ⟨fun h => hne (List.append_eq_nil_iff.1 h).1, hcs.append hds, rfl⟩
  have hpoint : Char.isDigit '.' = false := rfl
  -- with nothing behind the point no point is written, and the text is that of a whole number
  by_cases hempty : ds = []
  · have htake : cs.takeWhile Char.isDigit = cs := List.takeWhile_eq_self_iff.2 hcs
    have hdrop : cs.dropWhile Char.isDigit = [] := List.dropWhile_eq_nil_iff.2 hcs
    rw [hempty, List.append_nil] at hvalue
    simp [unsignedNumber?, hempty, htake, hdrop, hvalue, exponent?]
  · have hstop : ∀ c ∈ ('.' :: ds).head?, c.isDigit = false := by
      rintro c ⟨⟩
      rfl
    have htake : (cs ++ '.' :: ds).takeWhile Char.isDigit = cs := Text.takeWhile_run hcs hstop
    have hdrop : (cs ++ '.' :: ds).dropWhile Char.isDigit = '.' :: ds := Text.dropWhile_run hcs hstop
    have htake' : ds.takeWhile Char.isDigit = ds := List.takeWhile_eq_self_iff.2 hds
    have hdrop' : ds.dropWhile Char.isDigit = [] := List.dropWhile_eq_nil_iff.2 hds
    simp [unsignedNumber?, hempty, htake, hdrop, htake', hdrop', hvalue, exponent?]

/-- **Positional notation** of `d` is read as a decimal of the same value: its digits `cs ++ ds`, filled with `n` zeros
up to `1074` places, are `d.units`. -/
theorem Decimal1074.exists_text (d : Decimal1074) :
    ∃ cs ds n, d.text = (cs ++ if ds = [] then [] else '.' :: ds) ∧ cs ≠ [] ∧ AllDigits cs ∧ AllDigits ds
      ∧ ds.length + n = 1074 ∧ digitsValue (cs ++ ds) * Nat.pow 10 n = d.units := by
  rw [text]
  obtain ⟨all, hall⟩ : ∃ all, all = (Decimal.text (d.digits * Nat.pow 10 d.places)).toList := ⟨_, rfl⟩
  -- `text` pads with zeros to 1075 digits, so that a digit stands before the point whatever `d` is
  obtain ⟨padded, hpadded⟩ : ∃ padded, padded = List.replicate (1075 - all.length) '0' ++ all := ⟨_, rfl⟩
  have hdigits : AllDigits padded := by
    rw [hpadded, hall]
    exact (allDigits_zeros _).append (allDigits_text _)
  have hlen : 1075 ≤ padded.length := by
    rw [hpadded, List.length_append, List.length_replicate]
    omega
  have hvalue : digitsValue padded = d.units := by
    rw [hpadded, digitsValue_replicate_append, hall, digitsValue_text, units]
  obtain ⟨ds, n, hsplit, htext⟩ := exists_fractionText (padded.drop (padded.length - 1074))
  have hfraction : (ds ++ List.replicate n '0').length = 1074 := by
    rw [← hsplit, List.length_drop]
    omega
  refine ⟨padded.take (padded.length - 1074), ds, n, ?_, ?_, hdigits.take _, fun c hc => ?_, ?_, ?_⟩
  · simp only [← hall, ← hpadded, htext]
  · intro hnil
    rw [List.take_eq_nil_iff] at hnil
    rcases hnil with hnil | hnil
    · omega
    · rw [hnil, List.length_nil] at hlen
      omega
  · have hmem : c ∈ padded.drop (padded.length - 1074) := hsplit ▸ List.mem_append_left _ hc
    exact hdigits c (List.mem_of_mem_drop hmem)
  · rwa [List.length_append, List.length_replicate] at hfraction
  · rw [← digitsValue_append_replicate, List.append_assoc, ← hsplit, List.take_append_drop, hvalue]

/-! ## Numbers -/

namespace Binary64

/-- **The decimal that is written for a magnitude** is read as the magnitude: `unsignedNumber?` of `m.shortest.text` is
`.finite negative m`. -/
theorem unsignedNumber?_shortest (negative : Bool) (m : Magnitude) :
    unsignedNumber? negative m.shortest.text = some (.finite negative m) := by
  obtain ⟨cs, ds, n, htext, hne, hcs, hds, hlen, hvalue⟩ := m.shortest.exists_text
  have hpos : (-(ds.length : Int)).toNat = 0 := by omega
  have hneg : (-(-(ds.length : Int))).toNat = ds.length := by omega
  have hden : Nat.pow 10 ds.length * Nat.pow 10 n = Nat.pow 10 1074 := by
    rw [← hlen]
    exact (ten_pow_add _ _).symm
  rw [htext, unsignedNumber?_point negative hne hcs hds]
  refine congrArg some (ofDecimal_of_nearest? negative ?_)
  rw [hpos, hneg, ← Magnitude.nearest?_mul _ _ (ten_pow_pos n), hden]
  have hone : digitsValue (cs ++ ds) * Nat.pow 10 0 = digitsValue (cs ++ ds) := Nat.mul_one _
  rw [hone, hvalue, Magnitude.nearest?_shortest]

/-- The text of a number has letters, digits, points and minus signs only, so none of the characters that markup
escapes. -/
theorem mem_text {x : Binary64} {c : Char} (h : c ∈ x.text) : c.isAlphanum = true ∨ c = '.' ∨ c = '-' := by
  have hsign : ∀ negative : Bool, c ∈ (if negative then ['-'] else []) → c = '-' := by
    rintro (_ | _) hc
    · cases hc
    · exact List.mem_singleton.1 hc
  have hdigit : c.isDigit = true → c.isAlphanum = true := fun hc => by rw [Char.isAlphanum, hc, Bool.or_true]
  cases x with
  | nan => exact .inl (List.all_eq_true.1 (by decide : (text .nan).all Char.isAlphanum = true) c h)
  | infinite negative =>
    rcases List.mem_append.1 h with hc | hc
    · exact .inr (.inr (hsign negative hc))
    · exact .inl (List.all_eq_true.1 (by decide : "inf".toList.all Char.isAlphanum = true) c hc)
  | finite negative m =>
    obtain ⟨cs, ds, n, htext, -, hcs, hds, -⟩ := m.shortest.exists_text
    rcases List.mem_append.1 h with hc | hc
    · exact .inr (.inr (hsign negative hc))
    · rw [htext, List.mem_append] at hc
      rcases hc with hc | hc
      · exact .inl (hdigit (hcs c hc))
      · split_ifs at hc
        · cases hc
        · rcases List.mem_cons.1 hc with hpoint | hc
          · exact .inr (.inl hpoint)
          · exact .inl (hdigit (hds c hc))

/-- A digit has no other form as a letter would have. -/
theorem toLower_of_isDigit {c : Char} (hc : c.isDigit = true) : c.toLower = c := by
  have hle := (toNat_of_isDigit hc).2
  refine dif_neg fun hletter => ?_
  have hge : 'A'.toNat ≤ c.toNat := UInt32.le_iff_toNat_le.1 hletter.1
  have hdigits : '9'.toNat < 'A'.toNat := by decide
  omega

/-- **A text that begins with a digit**, behind a minus sign or without one, spells no word: `ofText?` reads it as
`unsignedNumber?`. -/
theorem ofText?_of_isDigit (negative : Bool) {c : Char} (hc : c.isDigit = true) (cs : List Char) :
    ofText? ((if negative then ['-'] else []) ++ c :: cs) = unsignedNumber? negative (c :: cs) := by
  have hword : ∀ d ds, d.isDigit = false → String.ofList ((c :: cs).map Char.toLower) ≠ String.ofList (d :: ds) := by
    intro d ds hd heq
    have hhead : c.toLower = d := (List.cons.inj (String.ofList_injective heq)).1
    rw [toLower_of_isDigit hc] at hhead
    rw [← hhead, hc] at hd
    cases hd
  have hnan := hword 'n' ['a', 'n'] rfl
  have hinf := hword 'i' ['n', 'f'] rfl
  have hinfinity := hword 'i' ['n', 'f', 'i', 'n', 'i', 't', 'y'] rfl
  have hminus : c ≠ '-' := by rintro rfl; exact absurd hc (by decide)
  have hplus : c ≠ '+' := by rintro rfl; exact absurd hc (by decide)
  have hread : ∀ b, (if String.ofList ((c :: cs).map Char.toLower) = "nan" then some nan
      else if String.ofList ((c :: cs).map Char.toLower) = "inf"
          ∨ String.ofList ((c :: cs).map Char.toLower) = "infinity" then some (infinite b)
      else unsignedNumber? b (c :: cs)) = unsignedNumber? b (c :: cs) := fun b => by
    rw [if_neg hnan, if_neg (not_or.2 ⟨hinf, hinfinity⟩)]
  cases negative with
  | false =>
    simp only [ofText?, Bool.false_eq_true, if_false, List.nil_append]
    split
    · exact absurd (List.cons.inj ‹_›).1 hminus
    · exact absurd (List.cons.inj ‹_›).1 hplus
    · exact hread false
  | true => exact hread true

/-- **Every number of the format is read back from its text**: `ofText? x.text = some x`, for the infinities and for
what is no number too. -/
theorem ofText?_text (x : Binary64) : ofText? x.text = some x := by
  cases x with
  | nan => decide
  | infinite negative => cases negative <;> decide
  | finite negative m =>
    obtain ⟨cs, ds, n, htext, hne, hcs, -⟩ := m.shortest.exists_text
    obtain ⟨c, cs, rfl⟩ := List.exists_cons_of_ne_nil hne
    have hread := unsignedNumber?_shortest negative m
    rw [htext, List.cons_append] at hread
    rw [text, htext, List.cons_append, ofText?_of_isDigit negative (hcs c List.mem_cons_self), hread]

end Binary64

end PayloadGate.Decimal
