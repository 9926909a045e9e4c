import Mathlib.Algebra.Order.Ring.Int
import Mathlib.Order.Monotone.Basic
import SortedTable.Cell.Binary

/-!
# The number that a floating-point pattern stands for

`SortedTable.BinaryFormat.equals` decides from two patterns whether they stand for the same number,
and it never works out a number. This file says what the numbers are and that the decision is right.

A format is given by two of its patterns, and all that is asked of a pattern is how its magnitude
compares with those. In terms of the widths of exponent and fraction, a pattern is not a number if
its exponent is of ones only and its fraction is not 0
(`SortedTable.BinaryFormat.isNaN_ofWidths_iff`), and it is a zero if it has no bit set or only the
sign bit (`SortedTable.BinaryFormat.isZero_iff_eq_or`).

Every finite number of a format is a multiple of the least one above 0, so it is kept as an integer
that counts such steps. Patterns with the exponent 0 count the steps by their fraction. From the
exponent 1 on there is a one in front of the fraction, and with every exponent after that the
fraction counts in units twice as large. Up to the sign, then, the numbers lie as their patterns do:
every pattern has more steps than the one before it, also where the exponent changes
(`SortedTable.BinaryFormat.steps_strictMono`).

That is why different patterns stand for different numbers, but for what the sign does. It turns a
number round, and that makes a difference to every number except 0
(`SortedTable.BinaryFormat.equals_iff_number?`).
-/

namespace SortedTable

/-- **A number of a floating-point format.** -/
inductive BinaryNumber
  /-- A finite number, as a multiple of the least one above 0. -/
  | finite (steps : ℤ)
  /-- Beyond all finite numbers, on one side or the other. -/
  | infinite (negative : Bool)
  deriving DecidableEq, Repr

namespace BinaryFormat

variable {f : BinaryFormat} {p q m n : ℕ}

/-! ### The parts of a pattern -/

/-- How many fractions there are to an exponent. The patterns of the greatest exponent begin with
infinity and end where the sign bit comes in. -/
def fractions (f : BinaryFormat) : ℕ := f.signBit - f.infinity

/-- Whether the sign bit is set. -/
def isNegative (f : BinaryFormat) (pattern : ℕ) : Bool := decide (f.signBit ≤ pattern)

/-- **A proper format**: zero and infinity are different patterns, and neither has the sign bit. -/
structure Proper (f : BinaryFormat) : Prop where
  /-- Zero is not infinite. -/
  infinity_pos : 0 < f.infinity
  /-- The pattern of infinity leaves the sign bit out. -/
  infinity_lt : f.infinity < f.signBit

theorem proper_single : single.Proper := ⟨by decide, by decide⟩

theorem proper_double : double.Proper := ⟨by decide, by decide⟩

theorem Proper.fractions_pos (hf : f.Proper) : 0 < f.fractions :=
  Nat.sub_pos_of_lt hf.infinity_lt

/-- **A pattern is its magnitude and its sign.** -/
theorem eq_iff_magnitude (hp : p < 2 * f.signBit) (hq : q < 2 * f.signBit) :
    p = q ↔ f.magnitude p = f.magnitude q ∧ f.isNegative p = f.isNegative q := by
  have hparts : ∀ r < 2 * f.signBit,
      r = f.magnitude r + if f.isNegative r then f.signBit else 0 := by
    intro r hr
    by_cases hsign : f.signBit ≤ r
    · have hrest : r - f.signBit < f.signBit := by omega
      rw [magnitude, Nat.mod_eq_sub_mod hsign, Nat.mod_eq_of_lt hrest, isNegative,
        if_pos (decide_eq_true hsign)]
      omega
    · rw [magnitude, Nat.mod_eq_of_lt (not_le.mp hsign), isNegative,
        if_neg (by simpa using hsign), add_zero]
  constructor
  · rintro rfl
    exact ⟨rfl, rfl⟩
  · rintro ⟨hmagnitude, hsign⟩
    rw [hparts p hp, hparts q hq, hmagnitude, hsign]

/-! ### Exponent and fraction -/

/-- The format with so many bits for the exponent and so many for the fraction. -/
def ofWidths (exponentBits fractionBits : ℕ) : BinaryFormat :=
  ⟨2 ^ (exponentBits + fractionBits), (2 ^ exponentBits - 1) * 2 ^ fractionBits⟩

theorem single_eq_ofWidths : single = ofWidths 8 23 := by decide

theorem double_eq_ofWidths : double = ofWidths 11 52 := by decide

/-- The magnitude is the exponent in front of the fraction. -/
theorem magnitude_ofWidths (e s p : ℕ) : (ofWidths e s).magnitude p =
    p % 2 ^ s + 2 ^ s * (p / 2 ^ s % 2 ^ e) := by
  rw [magnitude, ofWidths, pow_add, Nat.mul_comm, Nat.mod_mul]

/-- **What is not a number** has an exponent of ones only and a fraction that is not 0. -/
theorem isNaN_ofWidths_iff {e s : ℕ} : (ofWidths e s).isNaN p = true ↔
    p / 2 ^ s % 2 ^ e = 2 ^ e - 1 ∧ p % 2 ^ s ≠ 0 := by
  have hfraction : p % 2 ^ s < 2 ^ s := Nat.mod_lt p (Nat.two_pow_pos s)
  have hexponent : p / 2 ^ s % 2 ^ e < 2 ^ e := Nat.mod_lt (p / 2 ^ s) (Nat.two_pow_pos e)
  rw [isNaN, decide_eq_true_iff, magnitude_ofWidths]
  change (2 ^ e - 1) * 2 ^ s < _ ↔ _
  rw [Nat.mul_comm]
  rcases (Nat.le_sub_one_of_lt hexponent).lt_or_eq with hlt | heq
  · -- A smaller exponent leaves the magnitude below infinity, whatever the fraction.
    have hbelow : 2 ^ s * (p / 2 ^ s % 2 ^ e + 1) ≤ 2 ^ s * (2 ^ e - 1) :=
      Nat.mul_le_mul_left (2 ^ s) hlt
    rw [Nat.mul_succ] at hbelow
    omega
  · rw [heq]
    omega

/-- Of 32 bits, 8 are for the exponent and 23 for the fraction. -/
theorem isNaN_single_iff :
    single.isNaN p = true ↔ p / 2 ^ 23 % 2 ^ 8 = 255 ∧ p % 2 ^ 23 ≠ 0 := by
  rw [single_eq_ofWidths]
  exact isNaN_ofWidths_iff

/-- Of 64 bits, 11 are for the exponent and 52 for the fraction. -/
theorem isNaN_double_iff :
    double.isNaN p = true ↔ p / 2 ^ 52 % 2 ^ 11 = 2047 ∧ p % 2 ^ 52 ≠ 0 := by
  rw [double_eq_ofWidths]
  exact isNaN_ofWidths_iff

/-! ### Counting in steps -/

/-- **How many steps a magnitude is away from 0.** The exponent 0 has the same steps as the exponent
1, and no one in front of the fraction. -/
def steps (f : BinaryFormat) (magnitude : ℕ) : ℕ :=
  if magnitude / f.fractions = 0 then magnitude % f.fractions
  else (f.fractions + magnitude % f.fractions) * 2 ^ (magnitude / f.fractions - 1)

theorem steps_zero : f.steps 0 = 0 := by simp [steps]

/-- Below the exponent 1 magnitudes are steps. -/
theorem steps_of_lt (hm : m < f.fractions) : f.steps m = m := by
  rw [steps, if_pos (Nat.div_eq_of_lt hm), Nat.mod_eq_of_lt hm]

/-- From the exponent 1 on the steps of a fraction double with every exponent. -/
theorem steps_of_exponent (hm : m < f.fractions) (exponent : ℕ) :
    f.steps (f.fractions * (exponent + 1) + m) = (f.fractions + m) * 2 ^ exponent := by
  have hpos : 0 < f.fractions := Nat.zero_lt_of_lt hm
  have hdiv : (f.fractions * (exponent + 1) + m) / f.fractions = exponent + 1 := by
    rw [Nat.mul_add_div hpos, Nat.div_eq_of_lt hm, add_zero]
  have hmod : (f.fractions * (exponent + 1) + m) % f.fractions = m := by
    rw [Nat.mul_add_mod, Nat.mod_eq_of_lt hm]
  rw [steps, hdiv, hmod, if_neg (Nat.succ_ne_zero exponent), Nat.add_sub_cancel]

/-- **The numbers lie as their magnitudes do.** -/
theorem steps_strictMono (hf : f.Proper) : StrictMono f.steps := by
  have hpos : 0 < f.fractions := hf.fractions_pos
  refine strictMono_nat_of_lt_succ fun m => ?_
  obtain ⟨exponent, fraction, hmod, rfl⟩ :
      ∃ exponent fraction, fraction < f.fractions ∧ f.fractions * exponent + fraction = m :=
    ⟨m / f.fractions, m % f.fractions, Nat.mod_lt m hpos, Nat.div_add_mod m f.fractions⟩
  -- The next magnitude has the same exponent, or it is the first one with the next exponent.
  have hle : fraction + 1 ≤ f.fractions := hmod
  rcases hle.lt_or_eq with hsame | hfirst
  · cases exponent with
    | zero =>
      rw [mul_zero, zero_add, steps_of_lt hmod, steps_of_lt hsame]
      exact Nat.lt_succ_self fraction
    | succ exponent =>
      rw [add_assoc _ fraction, steps_of_exponent hmod, steps_of_exponent hsame]
      exact Nat.mul_lt_mul_of_pos_right (by omega) (Nat.two_pow_pos exponent)
  · have hnext : f.fractions * exponent + fraction + 1 = f.fractions * (exponent + 1) + 0 := by
      rw [add_assoc, hfirst, Nat.mul_succ, add_zero]
    rw [hnext, steps_of_exponent hpos, add_zero]
    cases exponent with
    | zero =>
      rw [mul_zero, zero_add, steps_of_lt hmod, pow_zero, mul_one]
      exact hmod
    | succ exponent =>
      rw [steps_of_exponent hmod, pow_succ', ← mul_assoc]
      exact Nat.mul_lt_mul_of_pos_right (by omega) (Nat.two_pow_pos exponent)

theorem steps_eq_zero_iff (hf : f.Proper) : f.steps m = 0 ↔ m = 0 :=
  (steps_strictMono hf).injective.eq_iff' f.steps_zero

/-! ### The number of a pattern -/

/-- So many steps, on one side of 0 or the other. -/
def signed (negative : Bool) (steps : ℕ) : ℤ := if negative then -steps else steps

/-- **The number that a pattern stands for**, if it stands for one. -/
def number? (f : BinaryFormat) (pattern : ℕ) : Option BinaryNumber :=
  if f.isNaN pattern then none
  else if f.magnitude pattern = f.infinity then some (.infinite (f.isNegative pattern))
  else some (.finite (signed (f.isNegative pattern) (f.steps (f.magnitude pattern))))

/-- The number 1, the least number above 0, minus infinity, and a pattern without a number. -/
example : single.number? 0x3F800000 = some (.finite (2 ^ 149)) ∧
    single.number? 1 = some (.finite 1) ∧ single.number? 0xFF800000 = some (.infinite true) ∧
    single.number? 0x7F800001 = none := by decide

/-- The sign makes a difference to every number except 0. -/
theorem signed_inj {s t : Bool} : signed s m = signed t n ↔ m = n ∧ (s = t ∨ m = 0) := by
  cases s <;> cases t <;> simp [signed] <;> omega

theorem number?_eq_none_iff : f.number? p = none ↔ f.isNaN p = true := by
  rw [number?]
  split_ifs with h <;> simp [h]

theorem isZero_iff : f.isZero p = true ↔ f.magnitude p = 0 := beq_iff_eq

/-- **There are two zeros**: the pattern without any bit, and the sign bit alone. -/
theorem isZero_iff_eq_or (hp : p < 2 * f.signBit) :
    f.isZero p = true ↔ p = 0 ∨ p = f.signBit := by
  rw [isZero_iff, magnitude]
  constructor
  · intro h
    obtain ⟨k, rfl⟩ := Nat.dvd_of_mod_eq_zero h
    have hk : k < 2 := by
      rw [Nat.mul_comm 2] at hp
      exact Nat.lt_of_mul_lt_mul_left hp
    obtain rfl | rfl : k = 0 ∨ k = 1 := by omega
    · exact Or.inl (Nat.mul_zero f.signBit)
    · exact Or.inr (Nat.mul_one f.signBit)
  · rintro (rfl | rfl)
    · exact Nat.zero_mod f.signBit
    · exact Nat.mod_self f.signBit

/-- **The two zeros differ in the sign.** -/
theorem isZero_and_isNegative_ne_iff (hf : f.Proper) (hp : p < 2 * f.signBit)
    (hq : q < 2 * f.signBit) :
    f.isZero p = true ∧ f.isZero q = true ∧ f.isNegative p ≠ f.isNegative q ↔
      p = 0 ∧ q = f.signBit ∨ p = f.signBit ∧ q = 0 := by
  have hpos : 0 < f.signBit := hf.infinity_pos.trans hf.infinity_lt
  have hplus : f.isNegative 0 = false := decide_eq_false (not_le.mpr hpos)
  have hminus : f.isNegative f.signBit = true := decide_eq_true le_rfl
  rw [isZero_iff_eq_or hp, isZero_iff_eq_or hq]
  constructor
  · rintro ⟨rfl | rfl, rfl | rfl, hsign⟩
    · exact absurd rfl hsign
    · exact Or.inl ⟨rfl, rfl⟩
    · exact Or.inr ⟨rfl, rfl⟩
    · exact absurd rfl hsign
  · rintro (⟨rfl, rfl⟩ | ⟨rfl, rfl⟩)
    · simp [hplus, hminus]
    · simp [hplus, hminus]

/-- A zero is a number. -/
theorem isNaN_of_isZero (h : f.isZero p = true) : f.isNaN p = false := by
  rw [isNaN, isZero_iff.mp h]
  exact decide_eq_false (Nat.not_lt_zero _)

/-- **Patterns of one number**: they are the same, or they are the two zeros. -/
theorem number?_eq_iff (hf : f.Proper) (hp : p < 2 * f.signBit) (hq : q < 2 * f.signBit)
    (hnp : f.isNaN p = false) (hnq : f.isNaN q = false) :
    f.number? p = f.number? q ↔ p = q ∨ f.isZero p = true ∧ f.isZero q = true := by
  have hzero : f.infinity ≠ 0 := hf.infinity_pos.ne'
  rw [number?, number?, hnp, hnq, eq_iff_magnitude hp hq, isZero_iff, isZero_iff]
  simp only [Bool.false_eq_true, if_false]
  -- What is infinite differs from all else in the magnitude, and from itself in the sign only.
  by_cases hip : f.magnitude p = f.infinity <;> by_cases hiq : f.magnitude q = f.infinity
  · simp [hip, hiq, hzero]
  · simp [hip, hiq, hzero, Ne.symm hiq]
  · simp [hip, hiq, hzero]
  · rw [if_neg hip, if_neg hiq, Option.some.injEq, BinaryNumber.finite.injEq, signed_inj,
      (steps_strictMono hf).injective.eq_iff, steps_eq_zero_iff hf, and_or_left]
    refine or_congr_right (and_comm.trans (and_congr_right fun hmagnitude => ?_))
    rw [hmagnitude, eq_comm]

/-- **Patterns are equal exactly if they stand for the same number.** -/
theorem equals_iff_number? (hf : f.Proper) (hp : p < 2 * f.signBit) (hq : q < 2 * f.signBit) :
    f.equals p q = true ↔ ∃ x, f.number? p = some x ∧ f.number? q = some x := by
  rw [equals]
  cases hnp : f.isNaN p with
  | true => simp [number?_eq_none_iff.mpr hnp]
  | false =>
    cases hnq : f.isNaN q with
    | true => simp [number?_eq_none_iff.mpr hnq]
    | false =>
      have hsome : f.number? p ≠ none := fun h =>
        Bool.false_ne_true (hnp.symm.trans (number?_eq_none_iff.mp h))
      obtain ⟨x, hx⟩ := Option.ne_none_iff_exists'.mp hsome
      have hboth : (∃ y, f.number? p = some y ∧ f.number? q = some y) ↔
          f.number? p = f.number? q :=
        ⟨fun ⟨_, hy, hy'⟩ => hy.trans hy'.symm, fun h => ⟨x, hx, h ▸ hx⟩⟩
      rw [hboth, number?_eq_iff hf hp hq hnp hnq]
      simp

/-- **Patterns are equal in two ways**: they are the same, and a number, or they are zeros and
differ in the sign. -/
theorem equals_iff_eq_or (hp : p < 2 * f.signBit) (hq : q < 2 * f.signBit) :
    f.equals p q = true ↔ p = q ∧ f.isNaN p = false ∨
      f.isZero p = true ∧ f.isZero q = true ∧ f.isNegative p ≠ f.isNegative q := by
  simp only [equals, Bool.and_eq_true, Bool.or_eq_true, Bool.not_eq_true', beq_iff_eq]
  constructor
  · rintro ⟨⟨hnp, hnq⟩, rfl | ⟨hzp, hzq⟩⟩
    · exact Or.inl ⟨rfl, hnp⟩
    · by_cases hsign : f.isNegative p = f.isNegative q
      · have hmagnitude : f.magnitude p = f.magnitude q :=
          (isZero_iff.mp hzp).trans (isZero_iff.mp hzq).symm
        exact Or.inl ⟨(eq_iff_magnitude hp hq).mpr ⟨hmagnitude, hsign⟩, hnp⟩
      · exact Or.inr ⟨hzp, hzq, hsign⟩
  · rintro (⟨rfl, hnp⟩ | ⟨hzp, hzq, -⟩)
    · exact ⟨⟨hnp, hnp⟩, Or.inl rfl⟩
    · exact ⟨⟨isNaN_of_isZero hzp, isNaN_of_isZero hzq⟩, Or.inr ⟨hzp, hzq⟩⟩

end BinaryFormat

end SortedTable
