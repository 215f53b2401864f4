import PayloadGate.Text.Utf8
import Mathlib.Data.String.Basic

/-! # UTF-8 that was written

* **`first?_encoded`** — the bytes of a character are read as that character, whatever follows.
* **`scan_toUTF8`**, **`decode?_toUTF8`** — the bytes of a text are read as its characters, all of them.
* **`Before`**, **`before_iff_lt`** — the order of texts by their bytes, which is that by their characters. -/

namespace PayloadGate.Text.Utf8

variable {a b d e : UInt8} {c : Char}

/-! ## The lengths of a character -/

/-- A byte below `80` is a character. -/
theorem first?_of_lt (ha : a < 0x80) (rest : List UInt8) :
    first? a rest = some (Char.ofNat a.toNat, 0) := by
  rw [first?.eq_def, if_pos ha]

/-- Two bytes that make a character. -/
theorem first?_of_two (ha : ¬a < 0x80) (h : two? a b = some c) (rest : List UInt8) :
    first? a (b :: rest) = some (c, 1) := by
  rw [first?.eq_def, if_neg ha]
  rcases rest with _ | ⟨d, _ | ⟨e, rest⟩⟩ <;> simp [h]

/-- Three bytes that make a character, the first two of which make none. -/
theorem first?_of_three (ha : ¬a < 0x80) (hb : two? a b = none) (h : three? a b d = some c)
    (rest : List UInt8) : first? a (b :: d :: rest) = some (c, 2) := by
  rw [first?.eq_def, if_neg ha]
  rcases rest with _ | ⟨e, rest⟩ <;> simp [hb, h]

/-- Four bytes that make a character, of which fewer make none. -/
theorem first?_of_four (ha : ¬a < 0x80) (hb : two? a b = none) (hd : three? a b d = none)
    (h : four? a b d e = some c) (rest : List UInt8) :
    first? a (b :: d :: e :: rest) = some (c, 3) := by
  rw [first?.eq_def, if_neg ha]
  simp [hb, hd, h]

/-! ## Bytes by their values -/

variable {w x y z : Nat}

/-- A byte above another one. -/
theorem le_ofNat_iff (hx : x < 256) : a ≤ UInt8.ofNat x ↔ a.toNat ≤ x := by
  rw [UInt8.le_iff_toNat_le, UInt8.toNat_ofNat_of_lt' hx]

/-- A byte below another one. -/
theorem ofNat_le_iff (hx : x < 256) : UInt8.ofNat x ≤ a ↔ x ≤ a.toNat := by
  rw [UInt8.le_iff_toNat_le, UInt8.toNat_ofNat_of_lt' hx]

/-- A byte that is another one. -/
theorem ofNat_eq_iff (hx : x < 256) : UInt8.ofNat x = a ↔ x = a.toNat := by
  rw [← UInt8.toNat_inj, UInt8.toNat_ofNat_of_lt' hx]

/-- A byte that is no character by itself. -/
theorem not_ofNat_lt (hx : x < 256) (h : 0x80 ≤ x) : ¬UInt8.ofNat x < 0x80 := by
  rw [UInt8.not_lt, le_ofNat_iff hx]
  exact h

/-- A byte that continues a character. -/
theorem isTail_ofNat_iff (hx : x < 256) : isTail (UInt8.ofNat x) = true ↔ 0x80 ≤ x ∧ x ≤ 0xBF := by
  simp [isTail, le_ofNat_iff hx, ofNat_le_iff hx]

/-- The value bits of a byte. -/
theorem tailBits_ofNat (hx : x < 256) : tailBits (UInt8.ofNat x) = x % 64 := by
  rw [tailBits, UInt8.toNat_ofNat_of_lt' hx]

/-- Two bytes that make a character. -/
theorem two?_ofNat (hx : 0xC2 ≤ x ∧ x ≤ 0xDF) (hy : 0x80 ≤ y ∧ y ≤ 0xBF) :
    two? (UInt8.ofNat x) (UInt8.ofNat y) = some (Char.ofNat (x % 32 * 64 + y % 64)) := by
  have hx' : x < 256 := by omega
  have hy' : y < 256 := by omega
  rw [two?, if_pos, UInt8.toNat_ofNat_of_lt' hx', tailBits_ofNat hy']
  simp [le_ofNat_iff hx', ofNat_le_iff hx', isTail_ofNat_iff hy', hx, hy]

/-- A first byte that stands for more than two. -/
theorem two?_eq_none (hx : x < 256) (h : 0xDF < x) : two? (UInt8.ofNat x) b = none := by
  rw [two?, if_neg]
  simp only [ofNat_le_iff hx, Bool.and_eq_true, decide_eq_true_eq, UInt8.reduceToNat]
  omega

/-- Three bytes that make a character, neither too small a one, `x = E0 → A0 ≤ y`, nor a surrogate, `x = ED → y ≤
9F`. -/
theorem three?_ofNat (hx : 0xE0 ≤ x ∧ x ≤ 0xEF) (hy : 0x80 ≤ y ∧ y ≤ 0xBF) (hz : 0x80 ≤ z ∧ z ≤ 0xBF)
    (hsmall : x = 0xE0 → 0xA0 ≤ y) (hsurrogate : x = 0xED → y ≤ 0x9F) :
    three? (UInt8.ofNat x) (UInt8.ofNat y) (UInt8.ofNat z)
      = some (Char.ofNat (x % 16 * 4096 + y % 64 * 64 + z % 64)) := by
  have hx' : x < 256 := by omega
  have hy' : y < 256 := by omega
  have hz' : z < 256 := by omega
  rw [three?, if_pos, UInt8.toNat_ofNat_of_lt' hx', tailBits_ofNat hy', tailBits_ofNat hz']
  simp only [Bool.and_eq_true, Bool.or_eq_true, decide_eq_true_eq, beq_iff_eq, bne_iff_ne, ne_eq,
    ofNat_eq_iff hx', le_ofNat_iff hx', ofNat_le_iff hx', le_ofNat_iff hy', ofNat_le_iff hy',
    isTail_ofNat_iff hy', isTail_ofNat_iff hz', UInt8.reduceToNat]
  omega

/-- A first byte that stands for more than three. -/
theorem three?_eq_none (hx : x < 256) (h : 0xEF < x) : three? (UInt8.ofNat x) b d = none := by
  rw [three?, if_neg]
  simp only [ofNat_eq_iff hx, ofNat_le_iff hx, Bool.and_eq_true, Bool.or_eq_true, decide_eq_true_eq,
    beq_iff_eq, UInt8.reduceToNat]
  omega

/-- Four bytes that make a character, neither too small, `w = F0 → 90 ≤ x`, nor past U+10FFFF, `w = F4 → x ≤ 8F`. -/
theorem four?_ofNat (hw : 0xF0 ≤ w ∧ w ≤ 0xF4) (hx : 0x80 ≤ x ∧ x ≤ 0xBF) (hy : 0x80 ≤ y ∧ y ≤ 0xBF)
    (hz : 0x80 ≤ z ∧ z ≤ 0xBF) (hsmall : w = 0xF0 → 0x90 ≤ x) (hlast : w = 0xF4 → x ≤ 0x8F) :
    four? (UInt8.ofNat w) (UInt8.ofNat x) (UInt8.ofNat y) (UInt8.ofNat z)
      = some (Char.ofNat (w % 8 * 262144 + x % 64 * 4096 + y % 64 * 64 + z % 64)) := by
  have hw' : w < 256 := by omega
  have hx' : x < 256 := by omega
  have hy' : y < 256 := by omega
  have hz' : z < 256 := by omega
  rw [four?, if_pos, UInt8.toNat_ofNat_of_lt' hw', tailBits_ofNat hx', tailBits_ofNat hy',
    tailBits_ofNat hz']
  simp only [Bool.and_eq_true, Bool.or_eq_true, decide_eq_true_eq, beq_iff_eq, ofNat_eq_iff hw',
    le_ofNat_iff hw', ofNat_le_iff hw', le_ofNat_iff hx', ofNat_le_iff hx', isTail_ofNat_iff hx',
    isTail_ofNat_iff hy', isTail_ofNat_iff hz', UInt8.reduceToNat]
  omega

/-! ## The bytes of a character -/

/-- **The bytes of a character are read as that character**, whatever follows: `first? a (tail ++ rest)` takes the
`tail.length` further bytes that `utf8EncodeChar` wrote. -/
theorem first?_encoded (c : Char) (rest : List UInt8) :
    ∃ a tail, String.utf8EncodeChar c = a :: tail ∧ first? a (tail ++ rest) = some (c, tail.length) := by
  -- the surrogates are no characters
  have hc : c.toNat < 0xD800 ∨ 0xDFFF < c.toNat ∧ c.toNat < 0x110000 := c.valid
  have hself : Char.ofNat c.toNat = c := Char.ofNat_toNat c
  rw [String.utf8EncodeChar, show c.val.toNat = c.toNat from rfl]
  split_ifs with hone htwo hthree
  · have hbyte : UInt8.ofNat c.toNat < 0x80 := by
      rw [← UInt8.not_le, le_ofNat_iff (by omega)]
      exact not_le.2 (Nat.lt_succ_of_le hone)
    refine ⟨_, [], rfl, ?_⟩
    rw [first?_of_lt hbyte, UInt8.toNat_ofNat_of_lt' (show c.toNat < 256 by omega), hself, List.length_nil]
  · have hvalue : (c.toNat / 64 % 32 + 192) % 32 * 64 + (c.toNat % 64 + 128) % 64 = c.toNat := by omega
    have h := two?_ofNat (x := c.toNat / 64 % 32 + 192) (y := c.toNat % 64 + 128) (by omega) (by omega)
    rw [hvalue, hself] at h
    exact ⟨_, [_], rfl, first?_of_two (not_ofNat_lt (by omega) (by omega)) h rest⟩
  · have hvalue : (c.toNat / 4096 % 16 + 224) % 16 * 4096 + (c.toNat / 64 % 64 + 128) % 64 * 64
        + (c.toNat % 64 + 128) % 64 = c.toNat := by omega
    have h := three?_ofNat (x := c.toNat / 4096 % 16 + 224) (y := c.toNat / 64 % 64 + 128)
      (z := c.toNat % 64 + 128) (by omega) (by omega) (by omega) (by omega) (by omega)
    rw [hvalue, hself] at h
    exact ⟨_, [_, _], rfl, first?_of_three (not_ofNat_lt (by omega) (by omega))
      (two?_eq_none (by omega) (by omega)) h rest⟩
  · have hvalue : (c.toNat / 262144 % 8 + 240) % 8 * 262144 + (c.toNat / 4096 % 64 + 128) % 64 * 4096
        + (c.toNat / 64 % 64 + 128) % 64 * 64 + (c.toNat % 64 + 128) % 64 = c.toNat := by omega
    have h := four?_ofNat (w := c.toNat / 262144 % 8 + 240) (x := c.toNat / 4096 % 64 + 128)
      (y := c.toNat / 64 % 64 + 128) (z := c.toNat % 64 + 128) (by omega) (by omega) (by omega)
      (by omega) (by omega) (by omega)
    rw [hvalue, hself] at h
    exact ⟨_, [_, _, _], rfl, first?_of_four (not_ofNat_lt (by omega) (by omega))
      (two?_eq_none (by omega) (by omega)) (three?_eq_none (by omega) (by omega)) h rest⟩

/-! ## The bytes of a text -/

/-- The bytes that a character has taken are passed over: `scanFrom taken.length (taken ++ rest)` goes on at `rest`. -/
theorem scanFrom_length_append (taken rest : List UInt8) :
    scanFrom taken.length (taken ++ rest) = scanFrom 0 rest := by
  induction taken with
  | nil => rfl
  | cons b taken ih => exact ih

/-- A character that was written is the first one that is read, and `scan` goes on behind its bytes. -/
theorem scan_encoded_append (c : Char) (rest : List UInt8) :
    scan (String.utf8EncodeChar c ++ rest) = some c :: scan rest := by
  obtain ⟨a, tail, hbytes, hfirst⟩ := first?_encoded c rest
  rw [hbytes, List.cons_append, scan, scanFrom.eq_3, hfirst]
  exact congrArg (some c :: ·) (scanFrom_length_append tail rest)

/-- The loop of `ByteArray.toList` puts the bytes of an array from place `i` on behind those that have been taken. -/
theorem toList_loop (bytes : ByteArray) (i : Nat) (taken : List UInt8) :
    ByteArray.toList.loop bytes i taken = taken.reverse ++ bytes.data.toList.drop i := by
  induction hn : bytes.size - i generalizing i taken with
  | zero =>
    rw [ByteArray.toList.loop, if_neg (by omega), List.drop_eq_nil_of_le, List.append_nil]
    exact Nat.le_of_sub_eq_zero hn
  | succ n ih =>
    have hi : i < bytes.data.toList.length := show i < bytes.size by omega
    have hget : bytes.get! i = bytes.data.toList[i] := by
      show bytes.data[i]! = bytes.data.toList[i]
      rw [getElem!_pos bytes.data i hi, Array.getElem_toList]
    rw [ByteArray.toList.loop, if_pos (show i < bytes.size from hi), ih (i + 1) _ (by omega),
      List.drop_eq_getElem_cons hi, hget, List.reverse_cons, List.append_assoc, List.singleton_append]

/-- The bytes of a text, one character after the other. -/
theorem toList_toUTF8 (s : String) : s.toUTF8.toList = s.toList.flatMap String.utf8EncodeChar := by
  obtain ⟨cs, rfl⟩ : ∃ cs, s = String.ofList cs := ⟨s.toList, String.ofList_toList.symm⟩
  rw [ByteArray.toList, toList_loop, List.reverse_nil, List.nil_append, List.drop_zero,
    String.toUTF8_eq_toByteArray, String.toByteArray_ofList, List.utf8Encode,
    List.toList_data_toByteArray, String.toList_ofList]

/-- **The bytes of a text are read as its characters**: `scan s.toUTF8.toList = s.toList.map some`. -/
theorem scan_toUTF8 (s : String) : scan s.toUTF8.toList = s.toList.map some := by
  rw [toList_toUTF8]
  induction s.toList with
  | nil => rfl
  | cons c cs ih => rw [List.flatMap_cons, scan_encoded_append, ih, List.map_cons]

/-- The bytes of a text are well-formed. -/
theorem decode?_toUTF8 (s : String) : decode? s.toUTF8.toList = some s.toList := by
  rw [decode?, scan_toUTF8, List.mapM_map]
  exact (List.mapM_pure (m := Option) (f := id)).trans (congrArg some (List.map_id _))

/-! ## The order of bytes -/

/-- **A text that comes before another one by their bytes**, in the order in which object stores sort their keys. -/
def Before (s t : String) : Prop := s.toUTF8.toList < t.toUTF8.toList

/-- A smaller byte decides the order, and the same byte leaves it to what follows. -/
theorem ofNat_cons_lt {xs ys : List UInt8} (hy : y < 256) (hle : x ≤ y) (hrest : x = y → xs < ys) :
    UInt8.ofNat x :: xs < UInt8.ofNat y :: ys := by
  rw [List.cons_lt_cons_iff]
  rcases Nat.lt_or_eq_of_le hle with hlt | rfl
  · left
    rwa [UInt8.lt_iff_toNat_lt, UInt8.toNat_ofNat_of_lt' (lt_trans hlt hy), UInt8.toNat_ofNat_of_lt' hy]
  · exact .inr ⟨rfl, hrest rfl⟩

/-- **The bytes of a smaller character come first**, whatever follows them: `c < d` decides before `xs` and `ys` are
looked at. -/
theorem encoded_append_lt {d : Char} (h : c < d) (xs ys : List UInt8) :
    String.utf8EncodeChar c ++ xs < String.utf8EncodeChar d ++ ys := by
  have hlt : c.toNat < d.toNat := UInt32.lt_iff_toNat_lt.1 (Char.lt_def.1 h)
  have hlast : d.toNat < 0xD800 ∨ 0xDFFF < d.toNat ∧ d.toNat < 0x110000 := d.valid
  rw [String.utf8EncodeChar, String.utf8EncodeChar, show c.val.toNat = c.toNat from rfl,
    show d.val.toNat = d.toNat from rfl]
  -- the first byte tells how many there are: it is the same one only for characters of one length
  split_ifs <;> simp only [List.cons_append, List.nil_append]
    <;> refine ofNat_cons_lt (by omega) (by omega) fun hfirst => ?_
  any_goals omega
  · exact ofNat_cons_lt (by omega) (by omega) fun hsecond => by omega
  · refine ofNat_cons_lt (by omega) (by omega) fun hsecond => ?_
    exact ofNat_cons_lt (by omega) (by omega) fun hthird => by omega
  · refine ofNat_cons_lt (by omega) (by omega) fun hsecond => ?_
    refine ofNat_cons_lt (by omega) (by omega) fun hthird => ?_
    exact ofNat_cons_lt (by omega) (by omega) fun hfourth => by omega

/-- Characters in order have their bytes in order, by induction along the common beginning. -/
theorem flatMap_encoded_lt {cs ds : List Char} (h : cs < ds) :
    cs.flatMap String.utf8EncodeChar < ds.flatMap String.utf8EncodeChar := by
  -- by induction on the text, along the characters that both begin with
  induction cs generalizing ds with
  | nil =>
    cases ds with
    | nil => exact absurd h (List.lt_irrefl _)
    | cons d ds =>
      obtain ⟨byte, tail, hbytes, -⟩ := first?_encoded d []
      rw [List.flatMap_nil, List.flatMap_cons, hbytes, List.cons_append]
      exact List.nil_lt_cons byte _
  | cons c cs ih =>
    cases ds with
    | nil => exact absurd h (List.not_lt_nil _)
    | cons d ds =>
      rw [List.flatMap_cons, List.flatMap_cons]
      rcases List.cons_lt_cons_iff.1 h with hcd | ⟨rfl, hrest⟩
      · exact encoded_append_lt hcd _ _
      · exact List.append_left_lt (ih hrest)

/-- **The order of texts by their bytes is that by their characters**: `Before s t ↔ s < t`, so `String` can stand for
keys. -/
theorem before_iff_lt {s t : String} : Before s t ↔ s < t := by
  have hlt : ∀ {s t : String}, s < t → s.toUTF8.toList < t.toUTF8.toList := fun h => by
    rw [toList_toUTF8, toList_toUTF8]
    exact flatMap_encoded_lt (String.lt_iff_toList_lt.1 h)
  refine ⟨fun h => ?_, hlt⟩
  rcases lt_trichotomy s t with hst | rfl | hts
  · exact hst
  · exact absurd h (List.lt_irrefl _)
  · exact absurd h (List.lt_asymm (hlt hts))

end PayloadGate.Text.Utf8
