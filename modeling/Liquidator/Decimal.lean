import Mathlib.Algebra.Order.Floor
import Mathlib.Data.Rat.Floor
import Mathlib.Tactic.Linarith
import Mathlib.Tactic.Positivity

/-!
# `bignumber.js` rounding

`BigNumber` adds, subtracts and multiplies exactly.  Two operations round, both in the library's
default mode `ROUND_HALF_UP` (to nearest, ties away from zero): `dividedBy`, to `DECIMAL_PLACES`
places, and `toFixed(0)`, to an integer.  The liquidation sizer applies both in turn to its
partial amount, so the bounds below are the ones its budget arithmetic rests on.

Amounts that go through a JavaScript `Number` are rounded to a double: exact for the safe
integers, below `2^53` in magnitude, which `toFixed(0)` also prints in full.
-/

namespace Liquidator

/-- Rounding to an integer under `ROUND_HALF_UP`: to nearest, ties away from zero. -/
def roundHalfUp (x : ℚ) : ℤ := if x < 0 then -⌊-x + 1 / 2⌋ else ⌊x + 1 / 2⌋

/-- `BigNumber.prototype.toFixed(0)`, read back as the integer it prints. -/
def toFixed (x : ℚ) : ℤ := roundHalfUp x

/-- `BigNumber.DECIMAL_PLACES`, the library default. -/
def decimalPlaces : ℕ := 20

/-- `a.dividedBy(b)`: the quotient rounded to `decimalPlaces` places.  A zero divisor gives `0`
here where `BigNumber` gives `Infinity` or `NaN`; no caller divides by a zero price. -/
def dividedBy (a b : ℚ) : ℚ := roundHalfUp (a / b * 10 ^ decimalPlaces) / 10 ^ decimalPlaces

section RoundHalfUp

variable {x y : ℚ}

private theorem floor_int_add_half (n : ℤ) : ⌊(n : ℚ) + 1 / 2⌋ = n := by
  rw [Int.floor_int_add, add_right_eq_self, Int.floor_eq_zero_iff]
  norm_num

theorem roundHalfUp_nonneg (nonneg : 0 ≤ x) : 0 ≤ roundHalfUp x := by
  rw [roundHalfUp, if_neg (not_lt.mpr nonneg), Int.floor_nonneg]
  linarith

theorem roundHalfUp_le_add_half (nonneg : 0 ≤ x) : (roundHalfUp x : ℚ) ≤ x + 1 / 2 := by
  rw [roundHalfUp, if_neg (not_lt.mpr nonneg)]
  exact Int.floor_le _

theorem roundHalfUp_mono (le : x ≤ y) : roundHalfUp x ≤ roundHalfUp y := by
  unfold roundHalfUp
  split_ifs with x_neg y_neg y_neg
  · exact neg_le_neg (Int.floor_mono (by linarith))
  · have : 0 ≤ ⌊-x + 1 / 2⌋ := Int.floor_nonneg.mpr (by linarith)
    have : 0 ≤ ⌊y + 1 / 2⌋ := Int.floor_nonneg.mpr (by linarith)
    omega
  · exact absurd (lt_of_le_of_lt le y_neg) x_neg
  · exact Int.floor_mono (by linarith)

@[simp]
theorem roundHalfUp_intCast (n : ℤ) : roundHalfUp n = n := by
  unfold roundHalfUp
  split_ifs
  · rw [← Int.cast_neg, floor_int_add_half, neg_neg]
  · exact floor_int_add_half n

theorem roundHalfUp_le_of_le {n : ℤ} (le : x ≤ n) : roundHalfUp x ≤ n :=
  roundHalfUp_intCast n ▸ roundHalfUp_mono le

end RoundHalfUp

section DividedBy

variable {a b : ℚ}

private theorem scale_pos : (0 : ℚ) < 10 ^ decimalPlaces := by positivity

theorem dividedBy_nonneg (nonneg : 0 ≤ a / b) : 0 ≤ dividedBy a b := by
  have := roundHalfUp_nonneg (mul_nonneg nonneg scale_pos.le)
  exact div_nonneg (Int.cast_nonneg.mpr this) scale_pos.le

theorem dividedBy_le (nonneg : 0 ≤ a / b) :
    dividedBy a b ≤ a / b + 1 / (2 * 10 ^ decimalPlaces) := by
  have rounded := roundHalfUp_le_add_half (mul_nonneg nonneg scale_pos.le)
  rw [dividedBy, div_le_iff₀ scale_pos]
  calc (roundHalfUp (a / b * 10 ^ decimalPlaces) : ℚ)
      ≤ a / b * 10 ^ decimalPlaces + 1 / 2 := rounded
    _ = (a / b + 1 / (2 * 10 ^ decimalPlaces)) * 10 ^ decimalPlaces := by
        field_simp
        ring

/-- How far `toFixed(0)` of a `dividedBy` quotient can exceed the exact quotient: half a unit
from `toFixed(0)` and half a unit of the last decimal place from `dividedBy`. -/
def roundingSlack : ℚ := 1 / 2 + 1 / (2 * 10 ^ decimalPlaces)

theorem roundingSlack_nonneg : 0 ≤ roundingSlack := by
  unfold roundingSlack
  positivity

theorem toFixed_dividedBy_le (nonneg : 0 ≤ a / b) :
    (toFixed (dividedBy a b) : ℚ) ≤ a / b + roundingSlack := by
  have rounded := roundHalfUp_le_add_half (dividedBy_nonneg nonneg)
  have divided := dividedBy_le nonneg
  unfold toFixed roundingSlack
  linarith

end DividedBy

section JavaScriptNumber

/-- The low bits a double drops from a natural number: the halvings that bring it below `2^53`,
with `fuel` halvings at most. -/
def droppedBits : ℕ → ℕ → ℕ
  | 0, _ => 0
  | fuel + 1, m => if m < 2 ^ 53 then 0 else droppedBits fuel (m / 2) + 1

/-- `Number(n)` of an integer: the nearest double, ties to the even significand.  A double keeps
53 significant bits, so above `2^53` the bits below them are rounded away; past `2^1024`, where
JavaScript gives `Infinity`, the model does not follow. -/
def toNumber (n : ℤ) : ℤ :=
  if n.natAbs < 2 ^ 53 then n
  else
    let shift := droppedBits n.natAbs n.natAbs
    let q := n.natAbs / 2 ^ shift
    let r := n.natAbs % 2 ^ shift
    let rounded : ℤ :=
      (if 2 ^ shift < 2 * r ∨ 2 * r = 2 ^ shift ∧ q % 2 = 1 then q + 1 else q) * 2 ^ shift
    if n < 0 then -rounded else rounded

/-- A safe integer, below `2^53` in magnitude: a double holds it exactly, and `toFixed(0)`, which
switches to exponent notation from `1e21`, prints it in full. -/
def SafeInteger (n : ℤ) : Prop := n.natAbs < 2 ^ 53

instance (n : ℤ) : Decidable (SafeInteger n) := inferInstanceAs (Decidable (_ < _))

theorem safeInteger_iff {n : ℤ} : SafeInteger n ↔ -2 ^ 53 < n ∧ n < 2 ^ 53 := by
  unfold SafeInteger
  omega

theorem toNumber_of_safe {n : ℤ} (safe : SafeInteger n) : toNumber n = n := if_pos safe

example : toNumber (2 ^ 53 + 1) = 2 ^ 53 ∧ toNumber (2 ^ 53 + 3) = 2 ^ 53 + 4 ∧
    toNumber (-(2 ^ 54 + 6)) = -(2 ^ 54 + 8) := by decide

/-- A float addition of two safe integers is the rounded sum: exact when the sum is safe too. -/
theorem toNumber_add {a b : ℤ} (safeA : SafeInteger a) (safeB : SafeInteger b)
    (safe : SafeInteger (a + b)) : toNumber (toNumber a + toNumber b) = a + b := by
  rw [toNumber_of_safe safeA, toNumber_of_safe safeB, toNumber_of_safe safe]

end JavaScriptNumber

end Liquidator
