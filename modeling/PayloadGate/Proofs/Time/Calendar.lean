import PayloadGate.Time.Calendar
import Mathlib.Tactic.IntervalCases

/-! # Dates and their numbers

Years are counted from March and in eras of 400, which are all of one length. A day of an era lies in a century, in a
span of four years in it, and in a year in that. The last century, the last span of a century and the last year of a
span may each be a day longer or shorter than the others; only the day behind 365 others tells.

* **`Date.exists_parts`** — where a day of an era lies.
* **`Date.fromMarch`** — the date of a day of a year counted from March.
* **`Date.dayNumber_ofDayNumber`** — the date of a day has its number; **`Date.isValid_ofDayNumber`** — and exists. -/

namespace PayloadGate.Time.Date

variable {d c q y t : Nat} {n era year : Int}

/-- **Where a day of an era lies**, `d = 36524 * c + 1461 * q + 365 * y + t`: centuries, spans of four years, years and
days before it. A year has a day behind 365 others only when it is the last one of its span, and the span is not the
last one of its century, but for the last century. -/
structure Parts (d c q y t : Nat) : Prop where
  /-- The days before it. -/
  eq : d = 36524 * c + 1461 * q + 365 * y + t
  /-- There are four centuries. -/
  century : c ≤ 3
  /-- A century has twenty-five spans. -/
  span : q ≤ 24
  /-- A span has four years. -/
  year : y ≤ 3
  /-- No year is longer than 366 days. -/
  day : t ≤ 365
  /-- Only these years are that long. -/
  leap : t = 365 → y = 3 ∧ (q < 24 ∨ c = 3)

/-- Every day `d < 146097` of an era lies somewhere. -/
theorem exists_parts (h : d < 146097) : ∃ c q y t, Parts d c q y t := by
  obtain ⟨c, hc⟩ : ∃ c, c = min (d / 36524) 3 := ⟨_, rfl⟩
  obtain ⟨q, hq⟩ : ∃ q, q = (d - 36524 * c) / 1461 := ⟨_, rfl⟩
  obtain ⟨y, hy⟩ : ∃ y, y = min ((d - 36524 * c - 1461 * q) / 365) 3 := ⟨_, rfl⟩
  refine ⟨c, q, y, d - 36524 * c - 1461 * q - 365 * y, ?_, ?_, ?_, ?_, ?_, ?_⟩ <;> omega

/-- The centuries before a day; the last day of the era would be the first one of a fifth. -/
theorem Parts.century_eq (h : Parts d c q y t) : d / 36524 = c + d / 146096 := by
  obtain ⟨heq, hc, hq, hy, ht, hleap⟩ := h
  have hlast : 1461 * q + 365 * y + t < 36524 ∨ c = 3 ∧ q = 24 ∧ y = 3 ∧ t = 365 := by omega
  rcases hlast with hrest | ⟨rfl, rfl, rfl, rfl⟩
  · have hcentury : d / 36524 = c := by omega
    have hera : d / 146096 = 0 := by omega
    rw [hcentury, hera, Nat.add_zero]
  · rw [heq]

/-- **The year of an era**, `100 * c + 4 * q + y`: of the days before, one is left out for each leap day, so that years
of 365 days are left over. -/
theorem Parts.yearOfEra_eq (h : Parts d c q y t) :
    (d - d / 1460 + d / 36524 - d / 146096) / 365 = 100 * c + 4 * q + y := by
  obtain ⟨last, hlast⟩ : ∃ last, last = (24 * c + q + 365 * y + t) / 1460 := ⟨_, rfl⟩
  have hspan : d / 1460 = 25 * c + q + last := by
    obtain ⟨heq, -, -, -, -, -⟩ := h
    omega
  -- the leap day of the span counts only behind it
  have hday : last ≤ t ∧ t ≤ last + 364 := by
    obtain ⟨-, hc, hq, hy, ht, hleap⟩ := h
    omega
  have hdays : d - d / 1460 + d / 36524 - d / 146096 = 365 * (100 * c + 4 * q + y) + (t - last) := by
    rw [h.century_eq, hspan, ← Nat.add_assoc, Nat.add_sub_cancel, h.eq]
    clear hspan hlast h
    omega
  rw [hdays]
  omega

/-- The leap days of the years before, and the days of the year. -/
theorem Parts.dayOfYear_eq (h : Parts d c q y t) :
    d - (365 * (100 * c + 4 * q + y) + (100 * c + 4 * q + y) / 4 - (100 * c + 4 * q + y) / 100) = t := by
  obtain ⟨heq, hc, hq, hy, ht, hleap⟩ := h
  have hspan : (100 * c + 4 * q + y) / 4 = 25 * c + q := by omega
  have hcentury : (100 * c + 4 * q + y) / 100 = c := by omega
  rw [hspan, hcentury]
  omega

/-- **The date of day `t` of a year** that is counted from March: months are runs of 30 and 31 days in a cycle of five,
`153` days. -/
def fromMarch (year : Int) (t : Nat) : Date :=
  let month := (5 * t + 2) / 153
  let day := t - (153 * month + 2) / 5 + 1
  if month < 10 then ⟨year, month + 3, day⟩ else ⟨year + 1, month - 9, day⟩

/-- `ofDayNumber n` by where the day `d` of its era lies: the date of day `t` of year `100 * c + 4 * q + y + era *
400`. -/
theorem ofDayNumber_eq (hn : n + 719468 = 146097 * era + d) (h : Parts d c q y t) :
    ofDayNumber n = fromMarch (100 * c + 4 * q + y + era * 400) t := by
  have hd : d < 146097 := by
    obtain ⟨heq, hc, hq, hy, ht, hleap⟩ := h
    omega
  have hera : (n + 719468) / 146097 = era := by omega
  have hday : ((n + 719468) % 146097).toNat = d := by omega
  rw [ofDayNumber, hera, hday, h.yearOfEra_eq, h.dayOfYear_eq]
  simp [fromMarch]

/-- The number of day `t` of a year counted from March: 365 days for each year before and one for each leap year, less
`719468`. -/
theorem dayNumber_fromMarch (ht : t ≤ 365) (year : Int) :
    (fromMarch year t).dayNumber = 365 * year + year / 4 - year / 100 + year / 400 + t - 719468 := by
  rw [fromMarch]
  obtain ⟨m, hm⟩ : ∃ m, m = (5 * t + 2) / 153 := ⟨_, rfl⟩
  have hday : (153 * m + 2) / 5 + (t - (153 * m + 2) / 5 + 1) - 1 = t := by omega
  rw [← hm]
  split_ifs with hlow
  · have hmonth : (m + 3 + 9) % 12 = m := by omega
    have hyear : ¬ m + 3 ≤ 2 := by omega
    rw [dayNumber, if_neg hyear, hmonth, hday]
  · have hmonth : (m - 9 + 9) % 12 = m := by omega
    have hyear : m - 9 ≤ 2 := by omega
    rw [dayNumber, if_pos hyear, hmonth, hday, Int.add_sub_cancel]

/-- **Such a date exists**; the day `t = 365` behind 365 others does in leap years. -/
theorem isValid_fromMarch (ht : t ≤ 365) (hleap : t = 365 → isLeapYear (year + 1) = true) :
    (fromMarch year t).isValid = true := by
  rw [fromMarch]
  obtain ⟨m, hm⟩ : ∃ m, m = (5 * t + 2) / 153 := ⟨_, rfl⟩
  rw [← hm]
  rcases Nat.lt_or_ge m 11 with hbefore | hlast
  · interval_cases m <;> simp [isValid, monthLength] <;> omega
  · -- the last month of such a year is February
    obtain rfl : m = 11 := by omega
    rcases Nat.lt_or_ge t 365 with hshort | hlong
    · have hlength : 28 ≤ monthLength (year + 1) 2 := by
        cases hleap : isLeapYear (year + 1) <;> simp [monthLength, hleap]
      simp [isValid]
      omega
    · have hday : t - 337 + 1 = 29 := by omega
      simp [isValid, monthLength, hleap (by omega), hday]

/-- A year of 366 days that is counted from March ends in a leap year. -/
theorem Parts.isLeapYear_succ (h : Parts d c q y 365) (era : Int) :
    isLeapYear (100 * c + 4 * q + y + era * 400 + 1) = true := by
  obtain ⟨-, hc, hq, -, -, hleap⟩ := h
  obtain ⟨rfl, hspan⟩ := hleap rfl
  have hfour : (100 * (c : Int) + 4 * q + 3 + era * 400 + 1) % 4 = 0 := by omega
  have hcentury : (100 * (c : Int) + 4 * q + 3 + era * 400 + 1) % 100 ≠ 0
      ∨ (100 * (c : Int) + 4 * q + 3 + era * 400 + 1) % 400 = 0 := by omega
  simpa [isLeapYear, hfour] using hcentury

/-- Every day `n` lies in an era: `n + 719468 = 146097 * era + d`. -/
theorem exists_parts_of_era (n : Int) :
    ∃ era d c q y t, n + 719468 = 146097 * era + (d : Nat) ∧ Parts d c q y t := by
  have hday : ((n + 719468) % 146097).toNat < 146097 := by omega
  obtain ⟨c, q, y, t, h⟩ := exists_parts hday
  exact ⟨(n + 719468) / 146097, _, c, q, y, t, by omega, h⟩

/-- **The date of a day exists**: `(ofDayNumber n).isValid` for every `n`, negative ones too. -/
theorem isValid_ofDayNumber (n : Int) : (ofDayNumber n).isValid = true := by
  obtain ⟨era, d, c, q, y, t, hn, h⟩ := exists_parts_of_era n
  rw [ofDayNumber_eq hn h]
  refine isValid_fromMarch h.day ?_
  rintro rfl
  exact h.isLeapYear_succ era

/-- **The date of a day has its number**: `(ofDayNumber n).dayNumber = n`. -/
theorem dayNumber_ofDayNumber (n : Int) : (ofDayNumber n).dayNumber = n := by
  obtain ⟨era, d, c, q, y, t, hn, h⟩ := exists_parts_of_era n
  rw [ofDayNumber_eq hn h, dayNumber_fromMarch h.day]
  obtain ⟨heq, hc, hq, hy, ht, -⟩ := h
  have hspan : (100 * (c : Int) + 4 * q + y + era * 400) / 4 = 100 * era + 25 * c + q := by omega
  have hcentury : (100 * (c : Int) + 4 * q + y + era * 400) / 100 = 4 * era + c := by omega
  have hera : (100 * (c : Int) + 4 * q + y + era * 400) / 400 = era := by omega
  rw [hspan, hcentury, hera]
  omega

end PayloadGate.Time.Date
