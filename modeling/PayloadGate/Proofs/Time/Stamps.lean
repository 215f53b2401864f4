import PayloadGate.Time.Stamp
import PayloadGate.Proofs.Decimal.Shortest
import PayloadGate.Proofs.Time.Calendar

/-! # Reading timestamps that were written

* **`Instant.Datable`** — the instants of the years that are written with four digits.
* **`Instant.settled`** — what a timestamp tells of an instant: within a minute the second 60 is not written, so that a
  leap second there is taken for the second behind it.
* **`Instant.ofLax?_zuluStamp`** — a timestamp is read as the instant that it tells. -/

namespace PayloadGate.Time

open Decimal (AllDigits digitsValue)

variable {n width least most : Nat} {ds rest : List Char}

/-! ## Numbers -/

/-- A number with leading zeros, as characters. -/
theorem toList_padded (width n : Nat) :
    (padded width n).toList
      = List.replicate (width - (Decimal.text n).length) '0' ++ (Decimal.text n).toList := by
  rw [padded, String.toList_append, String.toList_ofList]

/-- It has digits only. -/
theorem allDigits_padded (width n : Nat) : AllDigits (padded width n).toList := by
  rw [toList_padded]
  exact (Decimal.allDigits_zeros _).append (Decimal.allDigits_text n)

/-- It has the value of the number. -/
theorem digitsValue_padded (width n : Nat) : digitsValue (padded width n).toList = n := by
  rw [toList_padded, Decimal.digitsValue_replicate_append, Decimal.digitsValue_text]

/-- It has `width` characters, when `n < 10 ^ width`. -/
theorem length_padded (hwidth : 0 < width) (h : n < 10 ^ width) : (padded width n).toList.length = width := by
  have hlen := (Decimal.length_text_le_iff hwidth).2 h
  rw [String.length_toList] at hlen
  rw [toList_padded, List.length_append, List.length_replicate, String.length_toList]
  omega

/-- It starts with a digit. -/
theorem exists_cons_padded (width n : Nat) : ∃ d ds, (padded width n).toList = d :: ds ∧ d.isDigit = true := by
  have hdigits := allDigits_padded width n
  cases hds : (padded width n).toList with
  | nil =>
    have hlen := Decimal.length_text_pos n
    rw [toList_padded, List.append_eq_nil_iff] at hds
    rw [hds.2] at hlen
    exact absurd hlen (by decide)
  | cons d ds => exact ⟨d, ds, rfl, hdigits d (hds ▸ List.mem_cons_self)⟩

/-- A digit is no blank. -/
theorem isBlank_of_isDigit {c : Char} (h : c.isDigit = true) : Text.isBlank c = false := by
  have hcode := Decimal.toNat_of_isDigit h
  have hzero : '0'.toNat = 48 := rfl
  have hnine : '9'.toNat = 57 := rfl
  simp only [Text.isBlank, Bool.or_eq_false_iff, Bool.and_eq_false_iff, decide_eq_false_iff_not, beq_eq_false_iff_ne]
  omega

namespace Stamp

/-! ## The readers of the parts -/

/-- A part that is read is handed on. -/
theorem bind_of_some {α β : Type} {part : Option (α × List Char)} {r : α × List Char} (h : part = some r)
    (next : α × List Char → Option β) : part >>= next = next r := by
  rw [h]
  rfl

/-- **Digits are read up to what is none**, or up to the greatest number of them: `number least most (ds ++ rest)`
leaves `rest`. -/
theorem number_append (hds : AllDigits ds) (hleast : least ≤ ds.length) (hmost : ds.length ≤ most)
    (hrest : ds.length = most ∨ ∀ c ∈ rest.head?, c.isDigit = false) :
    number least most (ds ++ rest) = some (digitsValue ds, rest) := by
  have hstop : ∀ c ∈ (rest.take (most - ds.length)).head?, c.isDigit = false := by
    intro c hc
    rw [List.head?_take] at hc
    split_ifs at hc with hfull
    · exact absurd hc (by simp)
    · exact hrest.resolve_left (fun heq => hfull (by rw [heq, Nat.sub_self])) c hc
  have hdigits : ((ds ++ rest).take most).takeWhile Char.isDigit = ds := by
    rw [List.take_append, List.take_of_length_le hmost, Text.takeWhile_run hds hstop]
  rw [number, hdigits, if_pos hleast, List.drop_left]

/-- A number that is written with all its digits is read: `number` gives `n` and leaves `rest`. -/
theorem number_padded (hwidth : 0 < width) (h : n < 10 ^ width) (hleast : least ≤ width) (hmost : width ≤ most)
    (hrest : width = most ∨ ∀ c ∈ rest.head?, c.isDigit = false) :
    number least most ((padded width n).toList ++ rest) = some (n, rest) := by
  have hlen := length_padded hwidth h
  rw [number_append (allDigits_padded width n) (hleast.trans_eq hlen.symm) (hlen.trans_le hmost)
    (hrest.imp_left hlen.trans), digitsValue_padded]

/-- What is no blank is not passed over. -/
theorem skipBlanks_cons {c : Char} (h : Text.isBlank c = false) (cs : List Char) : skipBlanks (c :: cs) = c :: cs := by
  rw [skipBlanks, List.dropWhile_cons, if_neg (by simp [h])]

/-- A number is not passed over. -/
theorem skipBlanks_padded (width n : Nat) (rest : List Char) :
    skipBlanks ((padded width n).toList ++ rest) = (padded width n).toList ++ rest := by
  obtain ⟨d, ds, hds, hd⟩ := exists_cons_padded width n
  rw [hds, List.cons_append, skipBlanks_cons (isBlank_of_isDigit hd)]

/-- A number of two digits is read. -/
theorem spacedNumber_padded (h : n < 100) (rest : List Char) :
    spacedNumber 2 ((padded 2 n).toList ++ rest) = some (n, rest) := by
  rw [spacedNumber, skipBlanks_padded, number_padded (by decide) h (by decide) (by decide) (.inl rfl)]

/-- A year of four digits is read. -/
theorem spacedYear_padded (h : n < 10000) (rest : List Char) :
    spacedYear ((padded 4 n).toList ++ rest) = some ((n : Int), rest) := by
  have hread : number 1 4 ((padded 4 n).toList ++ rest) = some (n, rest) :=
    number_padded (by decide) h (by decide) (by decide) (.inl rfl)
  obtain ⟨d, ds, hds, hd⟩ := exists_cons_padded 4 n
  rw [spacedYear, skipBlanks_padded]
  rw [hds] at hread ⊢
  split
  · next heq => exact absurd ((List.cons.inj heq).1 ▸ hd) (by decide)
  · next heq => exact absurd ((List.cons.inj heq).1 ▸ hd) (by decide)
  · rw [hread]
    rfl

/-- A mark is read. -/
theorem spacedMark_cons {c : Char} (h : Text.isBlank c = false) (cs : List Char) :
    spacedMark c (c :: cs) = some ((), cs) := by
  rw [spacedMark, skipBlanks_cons h, mark, if_pos rfl]

/-- The mark between date and time is read. -/
theorem separator_time (cs : List Char) : separator ('T' :: cs) = some ((), cs) := rfl

/-- `width` digits behind a point are read as a fraction of a second: `n * 10 ^ (9 - width)` nanoseconds. -/
theorem fraction_padded (hwidth : 0 < width) (h : n < 10 ^ width) (hmost : width ≤ 9)
    (hrest : ∀ c ∈ rest.head?, c.isDigit = false) :
    fraction ('.' :: ((padded width n).toList ++ rest)) = some (n * 10 ^ (9 - width), rest) := by
  have hread : number 1 9 ((padded width n).toList ++ rest) = some (n, rest) :=
    number_padded hwidth h hwidth hmost (.inr hrest)
  have hstop : rest.dropWhile Char.isDigit = rest := Text.dropWhile_run (List.forall_mem_nil _) hrest
  have hused : ((padded width n).toList ++ rest).length - rest.length = width := by
    rw [List.length_append, Nat.add_sub_cancel, length_padded hwidth h]
  rw [fraction, hread]
  simp only [Option.bind_eq_bind, Option.bind_some, hused, hstop]
  rfl

/-- **The fraction of a second is read**, when `rest` starts with no digit and no point. -/
theorem fraction_fractionText (h : n < 1000000000) (hdigit : ∀ c ∈ rest.head?, c.isDigit = false)
    (hpoint : rest.head? ≠ some '.') : fraction ((Instant.fractionText n).toList ++ rest) = some (n, rest) := by
  rw [Instant.fractionText]
  -- as many digits are left out as are zero anyway, three or six of them
  split_ifs with hzero hmilli hmicro
  · obtain rfl := beq_iff_eq.1 hzero
    rw [String.toList_empty, List.nil_append]
    exact fraction.eq_2 rest fun cs heq => hpoint (by rw [heq, List.head?_cons])
  · have hwhole : n / 1000000 * 10 ^ (9 - 3) = n := Nat.div_mul_cancel (Nat.dvd_of_mod_eq_zero (beq_iff_eq.1 hmilli))
    have hread := fraction_padded (by decide) (show n / 1000000 < 10 ^ 3 by omega) (by decide) hdigit
    rw [hwhole] at hread
    rw [String.toList_append]
    exact hread
  · have hwhole : n / 1000 * 10 ^ (9 - 6) = n := Nat.div_mul_cancel (Nat.dvd_of_mod_eq_zero (beq_iff_eq.1 hmicro))
    have hread := fraction_padded (by decide) (show n / 1000 < 10 ^ 6 by omega) (by decide) hdigit
    rw [hwhole] at hread
    rw [String.toList_append]
    exact hread
  · have hread := fraction_padded (by decide) (show n < 10 ^ 9 from h) (by decide) hdigit
    rw [Nat.sub_self, Nat.pow_zero, Nat.mul_one] at hread
    rw [String.toList_append]
    exact hread

end Stamp

namespace Instant

variable {t : Instant}

/-! ## Timestamps -/

/-- The date of an instant. -/
def date (t : Instant) : Date := Date.ofDayNumber (t.seconds / secondsPerDay)

/-- **The instants of the years that are written with four digits**, `0` to `9999`. A second has no more than another
second within it: `nanos < 2 * nanosPerSecond`. -/
structure Datable (t : Instant) : Prop where
  /-- The year has four digits at most, and no sign. -/
  year : 0 ≤ t.date.year ∧ t.date.year ≤ 9999
  /-- Nanoseconds beyond the end of a second are those of a leap second. -/
  nanos_lt : t.nanos < 2 * nanosPerSecond

/-- Whether `t` lies in a leap second that is not the last second of a minute. Setting the nanoseconds of an instant to
`nanosPerSecond` or more makes one; no timestamp is read as one. -/
def leapsWithinMinute (t : Instant) : Prop := t.isLeap = true ∧ t.secondOfDay % 60 ≠ 59

instance (t : Instant) : Decidable t.leapsWithinMinute :=
  inferInstanceAs (Decidable (t.isLeap = true ∧ t.secondOfDay % 60 ≠ 59))

/-- **What a timestamp tells of an instant.** The second 60 stands for a leap second at the end of a minute; within a
minute, a leap second is written as the second behind it: `⟨s, nanosPerSecond + n⟩` is told as `⟨s + 1, n⟩`. -/
def settled (t : Instant) : Instant :=
  if t.leapsWithinMinute then ⟨t.seconds + 1, t.nanos - nanosPerSecond⟩ else t

/-- All other instants are told: `t.settled = t`. -/
theorem settled_of_not_leapsWithinMinute (h : ¬ t.leapsWithinMinute) : t.settled = t := if_neg h

/-- The seconds of an instant, by date and time of day. -/
theorem seconds_eq (t : Instant) : t.date.dayNumber * secondsPerDay + t.secondOfDay = t.seconds := by
  rw [date, Date.dayNumber_ofDayNumber, secondOfDay]
  simp only [secondsPerDay]
  omega

/-- The parts of a timestamp, one behind the other: year, month, day, `T`, hour, minute, second, fraction and `Z`. -/
theorem toList_zuluStamp (h : t.Datable) :
    t.zuluStamp.toList = (padded 4 t.date.year.toNat).toList ++ '-' :: ((padded 2 t.date.month).toList ++ '-'
      :: ((padded 2 t.date.day).toList ++ 'T' :: ((padded 2 (t.secondOfDay / 3600)).toList ++ ':'
      :: ((padded 2 (t.secondOfDay / 60 % 60)).toList ++ ':'
      :: ((padded 2 (t.secondOfDay % 60 + if t.isLeap then 1 else 0)).toList
      ++ ((fractionText (t.nanos % nanosPerSecond)).toList ++ ['Z'])))))) := by
  have hyear : yearText t.date.year = padded 4 t.date.year.toNat := if_pos h.year
  change (yearText t.date.year ++ "-" ++ padded 2 t.date.month ++ "-" ++ padded 2 t.date.day ++ "T"
    ++ padded 2 (t.secondOfDay / 3600) ++ ":" ++ padded 2 (t.secondOfDay / 60 % 60) ++ ":"
    ++ padded 2 (t.secondOfDay % 60 + if t.isLeap then 1 else 0) ++ fractionText (t.nanos % nanosPerSecond)
    ++ "Z").toList = _
  have hdash : "-".toList = ['-'] := rfl
  have hcolon : ":".toList = [':'] := rfl
  have htime : "T".toList = ['T'] := rfl
  have hzone : "Z".toList = ['Z'] := rfl
  rw [hyear]
  simp only [String.toList_append, List.append_assoc, hdash, hcolon, htime, hzone, List.cons_append, List.nil_append]

/-- A day has its seconds. -/
theorem secondOfDay_lt (t : Instant) : t.secondOfDay < 86400 := by
  simp only [secondOfDay, secondsPerDay]
  omega

/-- **Whether an instant lies in a leap second**, and where: outside one, or in one at the end of a minute, and then
`t.settled = t`; or within a minute, and then `t.settled` is in the second behind it. -/
theorem settled_cases (h : t.Datable) :
    (t.isLeap = false ∧ t.nanos = t.nanos % nanosPerSecond ∧ t.settled = t)
      ∨ (t.isLeap = true ∧ t.secondOfDay % 60 = 59 ∧ t.nanos = t.nanos % nanosPerSecond + nanosPerSecond
        ∧ t.settled = t)
      ∨ (t.isLeap = true ∧ t.secondOfDay % 60 < 59 ∧ t.settled = ⟨t.seconds + 1, t.nanos % nanosPerSecond⟩) := by
  have hnanos := h.nanos_lt
  -- within a leap second, the second of the minute tells whether a timestamp can say so
  cases hleap : t.isLeap with
  | false =>
    have hlt : t.nanos < nanosPerSecond := by simpa [isLeap] using hleap
    refine .inl ⟨rfl, (Nat.mod_eq_of_lt hlt).symm, settled_of_not_leapsWithinMinute fun hwithin => ?_⟩
    exact absurd (hleap.symm.trans hwithin.1) (by decide)
  | true =>
    have hle : nanosPerSecond ≤ t.nanos := by simpa [isLeap] using hleap
    have hmod : t.nanos % nanosPerSecond = t.nanos - nanosPerSecond := by
      rw [Nat.mod_eq_sub_mod hle, Nat.mod_eq_of_lt (by omega)]
    by_cases hend : t.secondOfDay % 60 = 59
    · exact .inr (.inl ⟨rfl, hend, by omega, settled_of_not_leapsWithinMinute fun hwithin => hwithin.2 hend⟩)
    · exact .inr (.inr ⟨rfl, by omega, hmod ▸ if_pos ⟨hleap, hend⟩⟩)

/-- A time of the day makes an instant `r` of the day of `t`, when second and nanoseconds are those of `r`. -/
theorem instant?_of_time (h : t.Datable) {r : Instant} {second nanos : Nat} (hsecond : second ≤ 60)
    (hseconds : t.seconds - (t.secondOfDay % 60 : Nat) + (min second 59 : Nat) = r.seconds)
    (hday : r.seconds / secondsPerDay = t.seconds / secondsPerDay)
    (hnanos : nanos + (if second = 60 then nanosPerSecond else 0) = r.nanos) :
    Stamp.instant? t.date (t.secondOfDay / 3600) (t.secondOfDay / 60 % 60) second nanos 0 = some r := by
  have hvalid : t.date.isValid = true := Date.isValid_ofDayNumber _
  have hyears : Stamp.yearInRange t.date.year = true := by
    have hyear := h.year
    simp only [Stamp.yearInRange, Bool.and_eq_true, decide_eq_true_eq]
    omega
  have hlt := t.secondOfDay_lt
  -- of the seconds of `t`, only those within the minute are replaced by `second`
  have htime : t.date.dayNumber * secondsPerDay + (t.secondOfDay / 3600 : Nat) * 3600
      + (t.secondOfDay / 60 % 60 : Nat) * 60 + (min second 59 : Nat) - 0 = r.seconds := by
    have hsum := t.seconds_eq
    omega
  have hzone : Int.natAbs 0 < secondsPerDay := by decide
  have hyear : Stamp.yearInRange (Date.ofDayNumber (r.seconds / secondsPerDay)).year = true := hday ▸ hyears
  have hhour : t.secondOfDay / 3600 < 24 := by omega
  have hminute : t.secondOfDay / 60 % 60 < 60 := by omega
  simp only [Stamp.instant?, hvalid, hyears, hhour, hminute, hsecond, hzone, htime, hyear, hnanos, decide_true,
    Bool.and_true, if_true]

/-- **Date and time of day make the instant** that the timestamp tells: `instant?` of the parts of `t` is
`some t.settled`. -/
theorem instant?_parts (h : t.Datable) :
    Stamp.instant? t.date (t.secondOfDay / 3600) (t.secondOfDay / 60 % 60)
      (t.secondOfDay % 60 + if t.isLeap then 1 else 0) (t.nanos % nanosPerSecond) 0 = some t.settled := by
  have hlt : t.secondOfDay % 60 < 60 := Nat.mod_lt _ (by decide)
  rcases settled_cases h with ⟨hleap, hnanos, hsettled⟩ | ⟨hleap, hend, hnanos, hsettled⟩ | ⟨hleap, hwithin, hsettled⟩
  · simp only [hleap, hsettled, Bool.false_eq_true, if_false]
    exact instant?_of_time h (by omega) (by omega) rfl (by rw [if_neg (by omega)]; exact hnanos.symm)
  · simp only [hleap, hsettled, hend, if_true]
    exact instant?_of_time h (by decide) (by rw [hend]; omega) rfl hnanos.symm
  · -- the second behind is one of the same minute
    have hday : (t.seconds + 1) / secondsPerDay = t.seconds / secondsPerDay := by
      simp only [secondOfDay, secondsPerDay] at hwithin ⊢
      omega
    simp only [hleap, hsettled, if_true]
    exact instant?_of_time h (by omega) (by simp only; omega) hday (by rw [if_neg (by omega), Nat.add_zero])

/-- **The parts of a timestamp are read** one behind the other: `ofLax?` hands `instant?` exactly the numbers that are
written. -/
theorem ofLax?_of_parts {s : String} {year month day hour minute second nanos : Nat} (hyear : year < 10000)
    (hmonth : month < 100) (hday : day < 100) (hhour : hour < 100) (hminute : minute < 100) (hsecond : second < 100)
    (hnanos : nanos < 1000000000)
    (h : s.toList = (padded 4 year).toList ++ '-' :: ((padded 2 month).toList ++ '-' :: ((padded 2 day).toList ++ 'T'
      :: ((padded 2 hour).toList ++ ':' :: ((padded 2 minute).toList ++ ':' :: ((padded 2 second).toList
      ++ ((fractionText nanos).toList ++ ['Z']))))))) :
    ofLax? s = Stamp.instant? ⟨year, month, day⟩ hour minute second nanos 0 := by
  have hdash : Text.isBlank '-' = false := rfl
  have hcolon : Text.isBlank ':' = false := rfl
  have hfraction : Stamp.fraction ((fractionText nanos).toList ++ ['Z']) = some (nanos, ['Z']) :=
    Stamp.fraction_fractionText hnanos (by rintro c ⟨⟩; rfl) (by decide)
  have hzone : Stamp.laxOffset (Stamp.skipBlanks ['Z']) = some (0, []) := rfl
  rw [ofLax?, h]
  -- each part is read up to the next one, which is handed on
  refine (Stamp.bind_of_some (Stamp.spacedYear_padded hyear _) _).trans ?_
  refine (Stamp.bind_of_some (Stamp.spacedMark_cons hdash _) _).trans ?_
  refine (Stamp.bind_of_some (Stamp.spacedNumber_padded hmonth _) _).trans ?_
  refine (Stamp.bind_of_some (Stamp.spacedMark_cons hdash _) _).trans ?_
  refine (Stamp.bind_of_some (Stamp.spacedNumber_padded hday _) _).trans ?_
  refine (Stamp.bind_of_some (Stamp.separator_time _) _).trans ?_
  refine (Stamp.bind_of_some (Stamp.spacedNumber_padded hhour _) _).trans ?_
  refine (Stamp.bind_of_some (Stamp.spacedMark_cons hcolon _) _).trans ?_
  refine (Stamp.bind_of_some (Stamp.spacedNumber_padded hminute _) _).trans ?_
  refine (Stamp.bind_of_some (Stamp.spacedMark_cons hcolon _) _).trans ?_
  refine (Stamp.bind_of_some (Stamp.spacedNumber_padded hsecond _) _).trans ?_
  refine (Stamp.bind_of_some hfraction _).trans ?_
  exact Stamp.bind_of_some hzone _

/-- **A timestamp is read as the instant that it tells**: `ofLax? t.zuluStamp = some t.settled`. -/
theorem ofLax?_zuluStamp (h : t.Datable) : ofLax? t.zuluStamp = some t.settled := by
  have hvalid : t.date.isValid = true := Date.isValid_ofDayNumber _
  simp only [Date.isValid, Bool.and_eq_true, decide_eq_true_eq] at hvalid
  have hlength : t.date.day ≤ 31 := by
    refine hvalid.2.trans ?_
    unfold Date.monthLength
    split_ifs <;> decide
  have hlt := t.secondOfDay_lt
  have hsecond : t.secondOfDay % 60 + (if t.isLeap then 1 else 0) < 100 := by
    split_ifs <;> omega
  obtain ⟨hpositive, hyears⟩ := h.year
  rw [ofLax?_of_parts (by omega) (by omega) (by omega) (by omega) (by omega) hsecond
    (Nat.mod_lt _ (by decide)) (toList_zuluStamp h), Int.toNat_of_nonneg hpositive]
  exact instant?_parts h

end Instant

end PayloadGate.Time
