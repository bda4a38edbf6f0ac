import Mathlib.Algebra.Order.Field.Basic
import Mathlib.Algebra.Order.Field.Power
import Mathlib.Algebra.Order.Field.Rat
import Mathlib.Tactic.FieldSimp
import Mathlib.Tactic.Linarith
import Mathlib.Tactic.Positivity
import Mathlib.Tactic.Ring
import TilePack.Decimal

/-! Binary numbers as rationals. Of the numbers with 53 significant bits, a quotient is
rounded to the nearest, and to the even one of two that are equally near. -/
namespace TilePack.Decimal

theorem cast_div_eq_add (num : Nat) {den : Nat} (positive : 0 < den) :
    (num : ℚ) / den = (num / den : Nat) + (num % den : Nat) / (den : ℚ) := by
  have divisor : (den : ℚ) ≠ 0 := by exact_mod_cast positive.ne'
  have whole : (den : ℚ) * (num / den : Nat) + (num % den : Nat) = num := by
    exact_mod_cast Nat.div_add_mod num den
  rw [← whole]
  field_simp

/-- Rounding is off by a half at most, and by a half only towards an even number. -/
theorem roundDiv_toEven (num : Nat) {den : Nat} (positive : 0 < den) :
    |(roundDiv .toEven num den : ℚ) - num / den| ≤ 1 / 2 ∧
      (|(roundDiv .toEven num den : ℚ) - num / den| = 1 / 2 →
        roundDiv .toEven num den % 2 = 0) := by
  have divisor : (0 : ℚ) < den := by exact_mod_cast positive
  have low : 0 ≤ (num % den : Nat) / (den : ℚ) := by positivity
  have high : (num % den : Nat) / (den : ℚ) < 1 := by
    rw [div_lt_one divisor]
    exact_mod_cast Nat.mod_lt num positive
  have more : den < 2 * (num % den) ↔ 1 / 2 < (num % den : Nat) / (den : ℚ) := by
    rw [div_lt_div_iff₀ two_pos divisor, one_mul, mul_comm]
    exact_mod_cast Iff.rfl
  have tie : den = 2 * (num % den) ↔ 1 / 2 = (num % den : Nat) / (den : ℚ) := by
    rw [div_eq_div_iff two_ne_zero divisor.ne', one_mul, mul_comm]
    exact_mod_cast Iff.rfl
  rw [cast_div_eq_add num positive]
  simp only [roundDiv, Bool.or_eq_true, Bool.and_eq_true, decide_eq_true_eq, beq_iff_eq, more, tie]
  generalize ((num % den : Nat) / (den : ℚ)) = rest at low high
  split
  · rename_i up
    have off : ((num / den + 1 : Nat) : ℚ) - ((num / den : Nat) + rest) = 1 - rest := by
      push_cast
      ring
    rw [off, abs_of_pos (by linarith)]
    rcases up with above | ⟨half, odd⟩
    · exact ⟨by linarith, fun far => by linarith⟩
    · exact ⟨by linarith, fun _ => by omega⟩
  · rename_i down
    have off : ((num / den : Nat) : ℚ) - ((num / den : Nat) + rest) = -rest := by ring
    rw [off, abs_neg, abs_of_nonneg low]
    push Not at down
    exact ⟨down.1, fun far => by have even := down.2 far.symm; omega⟩

theorem half_le_abs_sub {value : ℚ} {nearest other : Nat}
    (half : |(nearest : ℚ) - value| ≤ 1 / 2) (differs : other ≠ nearest) :
    1 / 2 ≤ |(other : ℚ) - value| := by
  have apart : (1 : ℚ) ≤ |(other : ℚ) - nearest| := by
    have whole : (1 : ℤ) ≤ |(other : ℤ) - nearest| := by
      apply Int.one_le_abs
      omega
    exact_mod_cast whole
  have through := abs_sub_le (other : ℚ) value nearest
  rw [abs_sub_comm value] at through
  linarith

namespace Binary

/-- The number that a binary number stands for. -/
def toRat (number : Binary) : ℚ := number.mantissa * 2 ^ number.exponent

/-- All 53 bits of the mantissa are in use. -/
def Full (number : Binary) : Prop :=
  leastMantissa ≤ number.mantissa ∧ number.mantissa < 2 * leastMantissa

instance (number : Binary) : Decidable number.Full :=
  inferInstanceAs (Decidable (_ ∧ _))

/-- No number of full precision is nearer to a value, and where another is as near the
mantissa is even. -/
structure Nearest (number : Binary) (value : ℚ) : Prop where
  full : number.Full
  closest : ∀ other : Binary, other.Full → |number.toRat - value| ≤ |other.toRat - value|
  even : ∀ other : Binary, other.Full → other.toRat ≠ number.toRat →
    |other.toRat - value| = |number.toRat - value| → number.mantissa % 2 = 0

theorem quotientAt_pos (num : Nat) {den : Nat} (positive : 0 < den) (exponent : Int) :
    0 < (quotientAt num den exponent).2 := by
  cases exponent with
  | ofNat up => exact Nat.mul_pos positive (by simp)
  | negSucc down => exact Nat.mul_pos positive Nat.one_pos

theorem quotientAt_div (num den : Nat) (exponent : Int) :
    ((quotientAt num den exponent).1 : ℚ) / (quotientAt num den exponent).2 =
      num / den / 2 ^ exponent := by
  cases exponent with
  | ofNat up => simp [quotientAt, scale, div_div]
  | negSucc down => simp [quotientAt, scale, zpow_negSucc, div_mul_eq_mul_div]

/-- The logarithms of a quotient's parts give its own up to one. -/
theorem log2_guess_bounds {num den : Nat} (given : num ≠ 0) (positive : den ≠ 0) :
    let unit : ℚ := 2 ^ ((num.log2 : Int) - den.log2 - 52)
    2 ^ 51 * unit < (num / den : ℚ) ∧ (num / den : ℚ) < 2 ^ 53 * unit := by
  intro unit
  have divisor : (0 : ℚ) < den := by exact_mod_cast Nat.pos_of_ne_zero positive
  have filled : 0 < unit := zpow_pos two_pos _
  have powers : (2 : ℚ) ^ num.log2 = unit * 2 ^ 52 * 2 ^ den.log2 := by
    simp only [unit, ← zpow_natCast, ← zpow_add₀ (two_ne_zero (α := ℚ))]
    congr 1
    push_cast
    ring
  have numLow : (2 : ℚ) ^ num.log2 ≤ num := by exact_mod_cast Nat.log2_self_le given
  have numHigh : (num : ℚ) < 2 ^ num.log2 * 2 := by
    rw [← pow_succ]
    exact_mod_cast Nat.lt_log2_self
  have denLow : (2 : ℚ) ^ den.log2 ≤ den := by exact_mod_cast Nat.log2_self_le positive
  have denHigh : (den : ℚ) < 2 ^ den.log2 * 2 := by
    rw [← pow_succ]
    exact_mod_cast Nat.lt_log2_self
  constructor
  · rw [lt_div_iff₀ divisor]
    calc 2 ^ 51 * unit * den < 2 ^ 51 * unit * (2 ^ den.log2 * 2) := by gcongr
      _ = 2 ^ num.log2 := by rw [powers]; ring
      _ ≤ num := numLow
  · rw [div_lt_iff₀ divisor]
    calc (num : ℚ) < 2 ^ num.log2 * 2 := numHigh
      _ = 2 ^ 53 * unit * 2 ^ den.log2 := by rw [powers]; ring
      _ ≤ 2 ^ 53 * unit * den := by gcongr

/-- In units of its exponent a quotient has a mantissa of full precision. -/
theorem exponentOf_bounds {num den : Nat} (given : num ≠ 0) (positive : den ≠ 0) :
    (leastMantissa : ℚ) ≤ num / den / 2 ^ exponentOf num den ∧
      (num / den / 2 ^ exponentOf num den : ℚ) < 2 * leastMantissa := by
  obtain ⟨low, high⟩ := log2_guess_bounds given positive
  have least : (leastMantissa : ℚ) = 2 ^ 52 := by norm_num [leastMantissa]
  simp only [exponentOf]
  generalize (num.log2 : Int) - den.log2 - 52 = guess at low high
  have filled : (0 : ℚ) < 2 ^ guess := zpow_pos two_pos guess
  have bottom : (0 : ℚ) < (quotientAt num den guess).2 := by
    exact_mod_cast quotientAt_pos num (Nat.pos_of_ne_zero positive) guess
  have short : (quotientAt num den guess).1 / (quotientAt num den guess).2 < leastMantissa ↔
      (num / den / 2 ^ guess : ℚ) < 2 ^ 52 := by
    rw [← quotientAt_div, div_lt_iff₀ bottom, ← least,
      Nat.div_lt_iff_lt_mul (by exact_mod_cast bottom)]
    exact_mod_cast Iff.rfl
  rw [least]
  split
  · rename_i below
    have half : (2 : ℚ) ^ (guess - 1) = 2 ^ guess / 2 := by rw [zpow_sub_one₀ two_ne_zero]; rfl
    rw [short, div_lt_iff₀ filled] at below
    rw [half, le_div_iff₀ (by positivity), div_lt_iff₀ (by positivity)]
    constructor <;> linarith
  · rename_i reached
    rw [short, not_lt] at reached
    rw [div_lt_iff₀ filled]
    exact ⟨reached, by linarith⟩

/-- A number of full precision is a multiple of a unit, or less than all numbers of full
precision with that unit. -/
theorem Full.multiple_or_lt {number : Binary} (full : number.Full) (exponent : Int) :
    (∃ factor : Nat, number.toRat = factor * 2 ^ exponent) ∨
      number.toRat < leastMantissa * 2 ^ exponent := by
  by_cases finer : number.exponent < exponent
  · right
    have most : (number.mantissa : ℚ) < 2 * leastMantissa := by exact_mod_cast full.2
    have unit : (2 : ℚ) ^ number.exponent ≤ 2 ^ (exponent - 1) :=
      zpow_le_zpow_right₀ one_le_two (by omega)
    calc number.toRat < 2 * leastMantissa * 2 ^ number.exponent :=
          mul_lt_mul_of_pos_right most (zpow_pos two_pos _)
      _ ≤ 2 * leastMantissa * 2 ^ (exponent - 1) := by gcongr
      _ = leastMantissa * 2 ^ exponent := by rw [zpow_sub_one₀ two_ne_zero]; ring
  · left
    obtain ⟨up, split⟩ := Int.eq_ofNat_of_zero_le (Int.sub_nonneg.mpr (Int.not_lt.mp finer))
    refine ⟨number.mantissa * 2 ^ up, ?_⟩
    have parts : number.exponent = up + exponent := by omega
    rw [toRat, parts, zpow_add₀ two_ne_zero, zpow_natCast]
    push_cast
    ring

/-- A mantissa that is nearest in units of full precision makes a nearest number. -/
theorem nearest_of_scaled {number : Binary} {value : ℚ} {mantissa : Nat} {exponent : Int}
    (full : number.Full) (stands : number.toRat = mantissa * 2 ^ exponent)
    (keeps : mantissa % 2 = 0 → number.mantissa % 2 = 0)
    (least : (leastMantissa : ℚ) ≤ value / 2 ^ exponent)
    (half : |(mantissa : ℚ) - value / 2 ^ exponent| ≤ 1 / 2)
    (tie : |(mantissa : ℚ) - value / 2 ^ exponent| = 1 / 2 → mantissa % 2 = 0) :
    number.Nearest value := by
  have filled : (0 : ℚ) < 2 ^ exponent := zpow_pos two_pos exponent
  have distance (factor : ℚ) :
      |factor * 2 ^ exponent - value| = |factor - value / 2 ^ exponent| * 2 ^ exponent := by
    rw [← abs_of_pos filled, ← abs_mul, abs_of_pos filled, sub_mul, div_mul_cancel₀ _ filled.ne']
  have nearer (factor : Nat) : |number.toRat - value| ≤ |factor * 2 ^ exponent - value| := by
    rw [stands, distance, distance]
    apply mul_le_mul_of_nonneg_right _ filled.le
    by_cases same : factor = mantissa
    · rw [same]
    · exact half.trans (half_le_abs_sub half same)
  have strictly {other : Binary} (below : other.toRat < leastMantissa * 2 ^ exponent) :
      |number.toRat - value| < |other.toRat - value| := by
    rw [le_div_iff₀ filled] at least
    have edge := nearer leastMantissa
    rw [abs_of_nonpos (by linarith : leastMantissa * 2 ^ exponent - value ≤ 0)] at edge
    rw [abs_of_neg (by linarith : other.toRat - value < 0)]
    linarith
  refine ⟨full, ?_, ?_⟩
  · intro other otherFull
    rcases otherFull.multiple_or_lt exponent with ⟨factor, multiple⟩ | below
    · rw [multiple]
      exact nearer factor
    · exact (strictly below).le
  · intro other otherFull differs same
    rcases otherFull.multiple_or_lt exponent with ⟨factor, multiple⟩ | below
    · have unlike : factor ≠ mantissa := by
        rintro rfl
        exact differs (multiple.trans stands.symm)
      rw [multiple, stands, distance, distance, mul_left_inj' filled.ne'] at same
      have far := half_le_abs_sub half unlike
      exact keeps (tie (le_antisymm half (far.trans_eq same)))
    · exact absurd same (strictly below).ne'

/-- A quotient is rounded to the nearest number. -/
theorem nearest_ofRatio {num den : Nat} (given : num ≠ 0) (positive : den ≠ 0) :
    (ofRatio num den).Nearest (num / den) := by
  obtain ⟨least, most⟩ := exponentOf_bounds given positive
  have bottom := quotientAt_pos num (Nat.pos_of_ne_zero positive) (exponentOf num den)
  obtain ⟨half, tie⟩ := roundDiv_toEven (quotientAt num den (exponentOf num den)).1 bottom
  rw [quotientAt_div] at half tie
  simp only [ofRatio, given, positive, or_self, ↓reduceIte]
  generalize roundDiv .toEven (quotientAt num den (exponentOf num den)).1
    (quotientAt num den (exponentOf num den)).2 = mantissa at half tie
  generalize exponentOf num den = exponent at least most half tie
  obtain ⟨low, high⟩ := abs_le.mp half
  split
  · rename_i overflow
    have carried : Full ⟨leastMantissa, exponent + 1⟩ :=
      ⟨le_refl leastMantissa, (by decide : leastMantissa < 2 * leastMantissa)⟩
    have even : leastMantissa % 2 = 0 := by decide
    refine nearest_of_scaled carried ?_ (fun _ => even) least half tie
    rw [overflow, toRat, zpow_add_one₀ two_ne_zero]
    push_cast
    ring
  · rename_i fits
    have full : Full ⟨mantissa, exponent⟩ := by
      constructor
      · have reached : (leastMantissa : ℚ) < mantissa + 1 := by linarith
        exact Nat.lt_succ_iff.mp (by exact_mod_cast reached)
      · have short : (mantissa : ℚ) < 2 * leastMantissa + 1 := by linarith
        have bound : mantissa < 2 * leastMantissa + 1 := by exact_mod_cast short
        exact Nat.lt_of_le_of_ne (Nat.lt_succ_iff.mp bound) fits
    exact nearest_of_scaled full rfl id least half tie

theorem fraction_div (number : Binary) :
    (number.fraction.1 : ℚ) / number.fraction.2 = number.toRat := by
  obtain ⟨mantissa, exponent⟩ := number
  cases exponent with
  | ofNat up => simp [fraction, scale, toRat]
  | negSucc down => simp [fraction, scale, toRat, zpow_negSucc, div_eq_mul_inv]

theorem Full.fraction_ne_zero {number : Binary} (full : number.Full) :
    number.fraction.1 ≠ 0 ∧ number.fraction.2 ≠ 0 := by
  obtain ⟨mantissa, exponent⟩ := number
  have filled : mantissa ≠ 0 := Nat.ne_of_gt (Nat.lt_of_lt_of_le (by decide) full.1)
  cases exponent with
  | ofNat up => simp [fraction, scale, filled]
  | negSucc down => simp [fraction, scale, filled]

theorem nearest_ofNat {value : Nat} (given : value ≠ 0) : (ofNat value).Nearest value := by
  have rounded := nearest_ofRatio given one_ne_zero
  rwa [Nat.cast_one, div_one] at rounded

theorem Full.nearest_div {left right : Binary} (top : left.Full) (bottom : right.Full) :
    (left.div right).Nearest (left.toRat / right.toRat) := by
  obtain ⟨leftNum, leftDen⟩ := top.fraction_ne_zero
  obtain ⟨rightNum, rightDen⟩ := bottom.fraction_ne_zero
  have rounded :=
    nearest_ofRatio (Nat.mul_ne_zero leftNum rightDen) (Nat.mul_ne_zero leftDen rightNum)
  rw [← left.fraction_div, ← right.fraction_div, div_div_div_eq]
  exact_mod_cast rounded

namespace Nearest

variable {number other : Binary} {value : ℚ}

theorem toRat_eq (near : number.Nearest value) (full : other.Full) (exactly : other.toRat = value) :
    number.toRat = value := by
  have closest := near.closest other full
  rw [exactly, sub_self, abs_zero] at closest
  exact sub_eq_zero.mp (abs_nonpos_iff.mp closest)

theorem le_toRat (near : number.Nearest value) (full : other.Full) (below : other.toRat ≤ value) :
    other.toRat ≤ number.toRat := by
  by_contra! less
  have closest := near.closest other full
  rw [abs_of_nonpos (by linarith : number.toRat - value ≤ 0),
    abs_of_nonpos (by linarith : other.toRat - value ≤ 0)] at closest
  linarith

theorem toRat_le (near : number.Nearest value) (full : other.Full) (above : value ≤ other.toRat) :
    number.toRat ≤ other.toRat := by
  by_contra! more
  have closest := near.closest other full
  rw [abs_of_nonneg (by linarith : 0 ≤ number.toRat - value),
    abs_of_nonneg (by linarith : 0 ≤ other.toRat - value)] at closest
  linarith

end Nearest

theorem exists_full_toRat_eq {value : Nat} (given : value ≠ 0) (small : value < 2 * leastMantissa) :
    ∃ number : Binary, number.Full ∧ number.toRat = value := by
  obtain ⟨spare, bits⟩ : ∃ spare, value.log2 + spare = 52 := by
    have short := (Nat.log2_lt given).mpr (show value < 2 ^ 53 from small)
    exact ⟨52 - value.log2, by omega⟩
  have filled : 0 < 2 ^ spare := Nat.two_pow_pos spare
  refine ⟨⟨value * 2 ^ spare, -spare⟩, ⟨?_, ?_⟩, ?_⟩
  · calc leastMantissa = 2 ^ value.log2 * 2 ^ spare := by rw [← Nat.pow_add, bits]; rfl
      _ ≤ value * 2 ^ spare := Nat.mul_le_mul_right _ (Nat.log2_self_le given)
  · calc value * 2 ^ spare < 2 ^ (value.log2 + 1) * 2 ^ spare :=
          Nat.mul_lt_mul_of_pos_right Nat.lt_log2_self filled
      _ = 2 * leastMantissa := by
        rw [← Nat.pow_add, show value.log2 + 1 + spare = 53 by omega]
        rfl
  · rw [toRat, zpow_neg, zpow_natCast]
    push_cast
    field_simp

end Binary

end TilePack.Decimal
