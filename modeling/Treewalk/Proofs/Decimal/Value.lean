import Mathlib.Algebra.Order.Field.Power
import Mathlib.Data.Rat.Cast.Order
import Mathlib.Order.Compare
import Mathlib.Tactic.Linarith
import Mathlib.Tactic.NormNum
import Mathlib.Tactic.Ring
import Treewalk.Decimal.Nearest
import Treewalk.Decimal.Shortest

/-!
# Decimals and doubles as rationals

What a decimal and a magnitude are worth, and which rationals round to a magnitude. What is compared
over the naturals, with the powers moved to the side where they are whole, is compared as rationals.
-/

namespace Treewalk

/-- What the decimal is worth. -/
def Decimal.value (d : Decimal) : ℚ := d.digits * 10 ^ d.exponent

/-- What the magnitude is worth. -/
def Binary.value (x : Binary) : ℚ := x.mantissa * 2 ^ x.exponent

/-- A power with the part below one moved away. -/
theorem zpow_mul_pow_toNat {b : ℚ} (nonzero : b ≠ 0) (k : Int) :
    b ^ k * b ^ (-k).toNat = b ^ k.toNat := by
  obtain ⟨n, rfl | rfl⟩ := k.eq_nat_or_neg
  · rw [zpow_natCast, Int.toNat_natCast, show (-(n : Int)).toNat = 0 by omega, pow_zero, mul_one]
  · rw [zpow_neg, zpow_natCast, neg_neg, Int.toNat_natCast, show (-(n : Int)).toNat = 0 by omega,
      pow_zero, inv_mul_cancel₀ (pow_ne_zero n nonzero)]

/-- Over the naturals the two are compared as what they are worth. -/
theorem Decimal.compareScaled_eq (a : Nat) (i : Int) (n : Nat) (j : Int) :
    compareScaled a i n j = compare (a * 10 ^ i : ℚ) (n * 2 ^ j) := by
  have scale : (0 : ℚ) < 10 ^ (-i).toNat * 2 ^ (-j).toNat := by positivity
  have left : ((a * tenTo i.toNat * twoTo (-j).toNat : Nat) : ℚ) =
      a * 10 ^ i * (10 ^ (-i).toNat * 2 ^ (-j).toNat) := by
    simp only [Nat.pow_eq, Nat.cast_mul, Nat.cast_pow, Nat.cast_ofNat,
      ← zpow_mul_pow_toNat (by norm_num : (10 : ℚ) ≠ 0) i]
    ring
  have right : ((n * twoTo j.toNat * tenTo (-i).toNat : Nat) : ℚ) =
      n * 2 ^ j * (10 ^ (-i).toNat * 2 ^ (-j).toNat) := by
    simp only [Nat.pow_eq, Nat.cast_mul, Nat.cast_pow, Nat.cast_ofNat,
      ← zpow_mul_pow_toNat (by norm_num : (2 : ℚ) ≠ 0) j]
    ring
  have casts := (Nat.strictMono_cast (α := ℚ)).cmp_map_eq
  rw [compareScaled, ← cmp_eq_compare, ← cmp_eq_compare, ← cmp_mul_pos_right scale, ← left,
    ← right, casts]

namespace Binary

/-- The lower end of the rationals that round to `x`. -/
def lowest (x : Binary) : ℚ := x.lowerEnd * 2 ^ (x.exponent - 2)

/-- The upper end of the rationals that round to `x`. -/
def highest (x : Binary) : ℚ := x.upperEnd * 2 ^ (x.exponent - 2)

/-- The rational rounds to `x`: it is between the two ends, or one of them and the mantissa is
even. -/
structure Rounds (x : Binary) (q : ℚ) : Prop where
  above : x.lowest < q ∨ x.mantissa % 2 = 0 ∧ q = x.lowest
  below : q < x.highest ∨ x.mantissa % 2 = 0 ∧ q = x.highest

theorem holds_iff (x : Binary) (d : Decimal) : x.holds d = true ↔ x.Rounds d.value := by
  have lower : Decimal.compareScaled d.digits d.exponent x.lowerEnd (x.exponent - 2) =
      compare d.value x.lowest := Decimal.compareScaled_eq ..
  have upper : Decimal.compareScaled d.digits d.exponent x.upperEnd (x.exponent - 2) =
      compare d.value x.highest := Decimal.compareScaled_eq ..
  simp only [holds, lower, upper, Bool.and_eq_true, Bool.or_eq_true, beq_iff_eq, compare_gt_iff_gt,
    compare_lt_iff_lt, compare_eq_iff_eq]
  exact ⟨fun h => ⟨h.1, h.2⟩, fun h => ⟨h.above, h.below⟩⟩

end Binary

end Treewalk
