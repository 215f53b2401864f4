import PayloadGate.Decimal.Shortest
import PayloadGate.Proofs.Decimal.Order
import Mathlib.Data.Nat.Log

/-! # The nearest number of the format

* **`Magnitude.nearest?_exact`** — a magnitude is the one nearest to its own value.
* **`Magnitude.nearest?_mul`** — the nearest magnitude depends on the quotient alone.
* **`Magnitude.eq_zero_of_nearest?`**, **`Magnitude.lt_of_nearest?`** — how small and how large a quotient can be
  whose nearest magnitude is not zero and exists.
* **`Binary64.ofDecimal_of_nearest?`** — the bounds between which a decimal is rounded at all lose nothing. -/

namespace PayloadGate.Decimal

/-! ## Powers -/

/-- A power of ten is positive. -/
theorem ten_pow_pos (n : Nat) : 0 < Nat.pow 10 n := Nat.pow_pos (by decide)

/-- A power of two is positive. -/
theorem two_pow_pos (n : Nat) : 0 < Nat.pow 2 n := Nat.pow_pos (by decide)

/-- Powers of ten in order. -/
theorem ten_pow_le {i j : Nat} (h : i ≤ j) : Nat.pow 10 i ≤ Nat.pow 10 j :=
  Nat.pow_le_pow_right (by decide) h

/-- A power of ten in two parts. -/
theorem ten_pow_add (i j : Nat) : Nat.pow 10 (i + j) = Nat.pow 10 i * Nat.pow 10 j := Nat.pow_add 10 i j

/-- A power of two in two parts. -/
theorem two_pow_eq_mul {i j n : Nat} (h : i + j = n) : Nat.pow 2 n = Nat.pow 2 i * Nat.pow 2 j := by
  rw [← h]
  exact Nat.pow_add 2 i j

/-- Fives and twos make a power of ten. -/
theorem mul_five_pow_mul_two_pow (units n : Nat) : units * Nat.pow 5 n * Nat.pow 2 n = units * Nat.pow 10 n := by
  have hten : Nat.pow 5 n * Nat.pow 2 n = Nat.pow 10 n := (Nat.mul_pow 5 2 n).symm
  rw [Nat.mul_assoc, hten]

namespace Magnitude

variable {num den k : Nat} {m : Magnitude}

/-! ## The parts of a magnitude -/

/-- `ofParts? m.significand m.exponent = some m`: a magnitude is put together from its parts. -/
theorem ofParts?_self (m : Magnitude) : ofParts? m.significand m.exponent = some m :=
  dif_pos ⟨m.significand_lt, m.normal, m.exponent_le⟩

/-- What `ofParts?` makes has an exponent that it accepts, `exponent ≤ 2045`. -/
theorem exponent_le_of_ofParts? {significand exponent : Nat} (h : ofParts? significand exponent = some m) :
    exponent ≤ 2045 := by
  rw [ofParts?] at h
  split_ifs at h with hparts
  exact hparts.2.2

/-- **The exponent of a magnitude** follows from its value: `exponentFor m.units = m.exponent`. -/
theorem exponentFor_units (m : Magnitude) : exponentFor m.units = m.exponent := by
  have hlimit : m.significand < 2 ^ 53 := m.significand_lt
  rw [exponentFor, units, Nat.pow_eq]
  rcases m.normal with hzero | hlead
  · -- fewer than 53 bits are not doubled
    have hlog : Nat.log2 m.significand < 53 := by
      rcases Nat.eq_zero_or_pos m.significand with h | h
      · rw [h]; decide
      · exact (Nat.log2_lt (Nat.ne_of_gt h)).2 hlimit
    rw [hzero, Nat.pow_zero, Nat.mul_one]
    omega
  · have hlead : 2 ^ 52 ≤ m.significand := hlead
    have hpos : m.significand * 2 ^ m.exponent ≠ 0 :=
      Nat.mul_ne_zero (by omega) (two_pow_pos _).ne'
    have hlog : Nat.log2 (m.significand * 2 ^ m.exponent) = 52 + m.exponent := by
      rw [Nat.log2_eq_iff hpos, Nat.pow_add, Nat.add_right_comm, Nat.pow_add 2 53]
      exact ⟨Nat.mul_le_mul_right _ hlead, Nat.mul_lt_mul_of_pos_right hlimit (two_pow_pos _)⟩
    rw [hlog, Nat.add_sub_cancel_left]

/-! ## Rounding -/

/-- A whole quotient is not rounded: `roundQuotient (n * den) den = n`. -/
theorem roundQuotient_exact (n : Nat) (hden : 0 < den) : roundQuotient (n * den) den = n := by
  rw [roundQuotient, Nat.mul_div_cancel n hden, Nat.mul_mod_left]
  exact if_pos hden

/-- A rounded quotient depends on the quotient alone: a common factor `k` of `num` and `den` does not matter. -/
theorem roundQuotient_mul (num den : Nat) (hk : 0 < k) :
    roundQuotient (num * k) (den * k) = roundQuotient num den := by
  have hlow : 2 * (num % den * k) < den * k ↔ 2 * (num % den) < den := by
    rw [← Nat.mul_assoc]
    exact Nat.mul_lt_mul_right hk
  have hhigh : den * k < 2 * (num % den * k) ↔ den < 2 * (num % den) := by
    rw [← Nat.mul_assoc]
    exact Nat.mul_lt_mul_right hk
  simp only [roundQuotient, Nat.mul_div_mul_right num den hk, Nat.mul_mod_mul_right, hlow, hhigh]

/-- **The nearest magnitude depends on the quotient alone**: `nearest? (num * k) (den * k) = nearest? num den` for
`0 < k`. -/
theorem nearest?_mul (num den : Nat) (hk : 0 < k) : nearest? (num * k) (den * k) = nearest? num den := by
  have hscaled : num * k * Nat.pow 2 1074 = num * Nat.pow 2 1074 * k := Nat.mul_right_comm ..
  have hstep : ∀ p, den * k * p = den * p * k := fun p => Nat.mul_right_comm ..
  simp only [nearest?, hscaled, Nat.mul_div_mul_right _ den hk, hstep, roundQuotient_mul _ _ hk]

/-- **A magnitude is the one nearest to its own value**, `m.decimalUnits` units of `10 ^ -1074`. -/
theorem nearest?_exact (m : Magnitude) : nearest? m.decimalUnits (Nat.pow 10 1074) = some m := by
  have hpos := ten_pow_pos 1074
  have hscaled := mul_five_pow_mul_two_pow m.units 1074
  have hsignificand : roundQuotient (m.units * Nat.pow 10 1074) (Nat.pow 10 1074 * Nat.pow 2 m.exponent)
      = m.significand := by
    rw [units, Nat.mul_assoc, Nat.mul_comm (Nat.pow 2 m.exponent)]
    exact roundQuotient_exact _ (Nat.mul_pos hpos (two_pow_pos _))
  simp only [nearest?, decimalUnits, hscaled, Nat.mul_div_cancel _ hpos, exponentFor_units, hsignificand,
    if_neg (Nat.ne_of_lt m.significand_lt), ofParts?_self]

/-! ## Bounds -/

/-- **A quotient below half the smallest number**, `2 * (num * 2 ^ 1074) < den`, is rounded to zero. -/
theorem eq_zero_of_nearest? (h : nearest? num den = some m) (hsmall : 2 * (num * Nat.pow 2 1074) < den) :
    m = zero := by
  have hlt : num * Nat.pow 2 1074 < den := by omega
  have hround : roundQuotient (num * Nat.pow 2 1074) den = 0 := by
    rw [roundQuotient, Nat.div_eq_of_lt hlt, Nat.mod_eq_of_lt hlt]
    exact if_pos hsmall
  have hstep : den * Nat.pow 2 (exponentFor 0) = den := Nat.mul_one den
  simp only [nearest?, Nat.div_eq_of_lt hlt, hstep, hround] at h
  exact (Option.some.inj h).symm

/-- **A quotient that has a nearest magnitude** is below `2 ^ 1024`, the first power of two past the format. -/
theorem lt_of_nearest? (h : nearest? num den = some m) (hden : 0 < den) : num < den * Nat.pow 2 1024 := by
  have hexponent : exponentFor (num * Nat.pow 2 1074 / den) ≤ 2045 := by
    simp only [nearest?] at h
    split_ifs at h with hlimit
    · exact Nat.le_of_succ_le (exponent_le_of_ofParts? h)
    · exact exponent_le_of_ofParts? h
  have hunits : num * Nat.pow 2 1074 / den < Nat.pow 2 2098 := by
    have hlimit := two_pow_pos 2098
    rcases Nat.eq_zero_or_pos (num * Nat.pow 2 1074 / den) with hzero | hpos
    · rwa [hzero]
    · rw [exponentFor] at hexponent
      exact (Nat.log2_lt (Nat.ne_of_gt hpos)).1 (by omega)
  rw [Nat.div_lt_iff_lt_mul hden, two_pow_eq_mul (show 1024 + 1074 = 2098 from rfl),
    Nat.mul_comm _ den, ← Nat.mul_assoc] at hunits
  exact Nat.lt_of_mul_lt_mul_right hunits

end Magnitude

/-! ## Decimals -/

namespace Binary64

open Magnitude

variable {digits : Nat} {exponent : Int} {m : Magnitude}

/-- `n < 10 ^ (text n).length`: a number is below the power of ten with as many zeros as it has digits. -/
theorem lt_ten_pow_length (n : Nat) : n < Nat.pow 10 (Decimal.text n).length := by
  rw [← String.length_toList]
  exact (length_text_le_iff (length_text_pos n)).1 le_rfl

/-- A number that is not zero reaches `10 ^ ((text n).length - 1)`, the power of ten with one zero less than it has
digits. -/
theorem ten_pow_pred_length_le {n : Nat} (hn : n ≠ 0) : Nat.pow 10 ((Decimal.text n).length - 1) ≤ n := by
  rw [← String.length_toList]
  rcases Nat.eq_zero_or_pos ((Decimal.text n).toList.length - 1) with hzero | hpos
  · rw [hzero]
    exact Nat.one_le_iff_ne_zero.2 hn
  · have hlen := mt (length_text_le_iff (n := n) hpos).2
    have := length_text_pos n
    exact not_lt.1 (hlen (by omega))

/-- A decimal with its first digit below `decimalRange.2` has zero as its nearest magnitude. -/
theorem eq_zero_of_top_lt
    (h : nearest? (digits * Nat.pow 10 exponent.toNat) (Nat.pow 10 (-exponent).toNat) = some m)
    (htop : (Decimal.text digits).length + exponent < decimalRange.2) : m = .zero := by
  have hnegative : exponent.toNat = 0 := by
    simp only [decimalRange] at htop
    omega
  have hplaces : (Decimal.text digits).length + 331 ≤ (-exponent).toNat := by
    simp only [decimalRange] at htop
    omega
  -- `331` places behind the digits leave less than half of the smallest number, `2 ^ -1074`
  have hbound : 2 * Nat.pow 2 1074 < Nat.pow 10 331 := by decide +kernel
  have hlt : 2 * (digits * Nat.pow 2 1074) < Nat.pow 10 (-exponent).toNat :=
    calc 2 * (digits * Nat.pow 2 1074)
        ≤ 2 * (Nat.pow 10 (Decimal.text digits).length * Nat.pow 2 1074) :=
          Nat.mul_le_mul_left 2 (Nat.mul_le_mul_right _ (Nat.le_of_lt (lt_ten_pow_length digits)))
      _ = Nat.pow 10 (Decimal.text digits).length * (2 * Nat.pow 2 1074) := Nat.mul_left_comm ..
      _ < Nat.pow 10 (Decimal.text digits).length * Nat.pow 10 331 :=
          Nat.mul_lt_mul_of_pos_left hbound (ten_pow_pos _)
      _ ≤ Nat.pow 10 (-exponent).toNat := by
          rw [← ten_pow_add]
          exact ten_pow_le hplaces
  have hone : digits * Nat.pow 10 exponent.toNat = digits := by
    rw [hnegative]
    exact Nat.mul_one digits
  rw [hone] at h
  exact eq_zero_of_nearest? h hlt

/-- A decimal with its first digit above `decimalRange.1` has no nearest magnitude. -/
theorem not_lt_top_of_nearest? (hdigits : digits ≠ 0)
    (h : nearest? (digits * Nat.pow 10 exponent.toNat) (Nat.pow 10 (-exponent).toNat) = some m) :
    ¬decimalRange.1 < (Decimal.text digits).length + exponent := by
  intro htop
  have hplaces : (-exponent).toNat + 309 ≤ (Decimal.text digits).length - 1 + exponent.toNat := by
    simp only [decimalRange] at htop
    omega
  -- `309` places more than are divided by make at least `2 ^ 1024`, where no quotient has a nearest magnitude
  have hbound : Nat.pow 2 1024 ≤ Nat.pow 10 309 := by decide +kernel
  have hsplit := ten_pow_add (-exponent).toNat 309
  have hlt : digits * Nat.pow 10 exponent.toNat < digits * Nat.pow 10 exponent.toNat :=
    calc digits * Nat.pow 10 exponent.toNat
        < Nat.pow 10 (-exponent).toNat * Nat.pow 2 1024 := lt_of_nearest? h (ten_pow_pos _)
      _ ≤ Nat.pow 10 (-exponent).toNat * Nat.pow 10 309 := Nat.mul_le_mul_left _ hbound
      _ = Nat.pow 10 ((-exponent).toNat + 309) := hsplit.symm
      _ ≤ Nat.pow 10 ((Decimal.text digits).length - 1 + exponent.toNat) := ten_pow_le hplaces
      _ = Nat.pow 10 ((Decimal.text digits).length - 1) * Nat.pow 10 exponent.toNat := ten_pow_add _ _
      _ ≤ digits * Nat.pow 10 exponent.toNat := Nat.mul_le_mul_right _ (ten_pow_pred_length_le hdigits)
  exact Nat.lt_irrefl _ hlt

/-- **The bounds between which a decimal is rounded at all lose nothing**: where `nearest?` gives a magnitude `m`,
`ofDecimal negative digits exponent` is `.finite negative m`. -/
theorem ofDecimal_of_nearest? (negative : Bool)
    (h : nearest? (digits * Nat.pow 10 exponent.toNat) (Nat.pow 10 (-exponent).toNat) = some m) :
    ofDecimal negative digits exponent = .finite negative m := by
  rw [ofDecimal]
  by_cases hdigits : digits = 0
  · have hzero : m = .zero := by
      refine eq_zero_of_nearest? h ?_
      simp only [hdigits, Nat.zero_mul, Nat.mul_zero]
      exact ten_pow_pos _
    rw [if_pos (.inl hdigits), hzero]
  · by_cases htop : (Decimal.text digits).length + exponent < decimalRange.2
    · rw [if_pos (.inr htop), eq_zero_of_top_lt h htop]
    · rw [if_neg (not_or.2 ⟨hdigits, htop⟩), if_neg (not_lt_top_of_nearest? hdigits h), h]

end Binary64

end PayloadGate.Decimal
