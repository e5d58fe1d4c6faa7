import Mathlib.Tactic.LinearCombination
import Treewalk.Proofs.Decimal.Value

/-!
# The shortest decimal rounds back

Whatever grid it is found on, and also where none of the grids has one, `Binary.shortest` is a
decimal that rounds to the magnitude.
-/

namespace Treewalk

namespace Binary

variable {x : Binary}

/-- The ends are counted in quarters of the last place. -/
theorem quarter (k : Int) : (2 : ℚ) ^ (k - 2) = 2 ^ k / 4 := by
  rw [zpow_sub₀ two_ne_zero]
  norm_num

theorem lowest_eq (positive : 0 < x.mantissa) :
    x.lowest = (x.mantissa - if x.narrowBelow then 1 / 4 else 1 / 2) * 2 ^ x.exponent := by
  rw [lowest, lowerEnd, quarter]
  split
  · rw [Nat.cast_sub (by omega)]
    push_cast
    ring
  · rw [Nat.cast_sub (by omega)]
    push_cast
    ring

theorem highest_eq (x : Binary) : x.highest = (x.mantissa + 1 / 2) * 2 ^ x.exponent := by
  rw [highest, upperEnd, quarter]
  push_cast
  ring

theorem lowest_lt_value (positive : 0 < x.mantissa) : x.lowest < x.value := by
  rw [lowest_eq positive, value]
  have unit : (0 : ℚ) < 2 ^ x.exponent := by positivity
  refine mul_lt_mul_of_pos_right ?_ unit
  split <;> linarith

theorem value_lt_highest (x : Binary) : x.value < x.highest := by
  rw [highest_eq, value]
  have unit : (0 : ℚ) < 2 ^ x.exponent := by positivity
  exact mul_lt_mul_of_pos_right (by linarith) unit

theorem lowest_pos (positive : 0 < x.mantissa) : 0 < x.lowest := by
  rw [lowest_eq positive]
  have least : (1 : ℚ) ≤ x.mantissa := by exact_mod_cast positive
  refine mul_pos ?_ (by positivity)
  split <;> linarith

/-- A magnitude rounds to itself. -/
theorem rounds_value (positive : 0 < x.mantissa) : x.Rounds x.value :=
  ⟨.inl (lowest_lt_value positive), .inl x.value_lt_highest⟩

/-- What rounds to a positive magnitude is positive. -/
theorem Rounds.pos {q : ℚ} (h : x.Rounds q) (positive : 0 < x.mantissa) : 0 < q := by
  rcases h.above with above | ⟨-, same⟩
  · exact (lowest_pos positive).trans above
  · rw [same]
    exact lowest_pos positive

end Binary

theorem Decimal.strip_value (d : Decimal) : d.strip.value = d.value := by
  fun_induction strip d with
  | case1 d zeros ih =>
    have whole : d.digits / 10 * 10 = d.digits := by omega
    rw [ih, value, value, zpow_add_one₀ (by norm_num : (10 : ℚ) ≠ 0)]
    dsimp only
    rw [← whole]
    push_cast
    rw [Nat.mul_div_cancel _ (by norm_num)]
    ring
  | case2 => rfl

namespace Binary

theorem onGrid_holds {tie : Tie} {x : Binary} {grid : Int} {d : Decimal}
    (found : x.onGrid tie grid = some d) : x.holds d = true := by
  unfold onGrid at found
  dsimp only at found
  split at found
  · cases found
  · next holds _ =>
    cases found
    exact holds
  · next _ holds =>
    cases found
    exact holds
  · next lower upper =>
    split at found <;> cases found
    · exact lower
    · exact upper
    · exact upper
    · split <;> assumption

theorem exactDecimal_value (x : Binary) : x.exactDecimal.value = x.value := by
  unfold exactDecimal Decimal.value value
  split
  · next whole =>
    simp only [zpow_zero, mul_one, Nat.pow_eq, Nat.cast_mul, Nat.cast_pow, Nat.cast_ofNat]
    rw [← zpow_natCast, Int.toNat_of_nonneg whole]
  · next part =>
    have five : ((Nat.pow 5 (-x.exponent).toNat : Nat) : ℚ) = 5 ^ (-x.exponent) := by
      rw [Nat.pow_eq, Nat.cast_pow, Nat.cast_ofNat, ← zpow_natCast, Int.toNat_of_nonneg (by omega)]
    have ten : (10 : ℚ) ^ x.exponent = 2 ^ x.exponent * 5 ^ x.exponent := by
      rw [← mul_zpow]
      norm_num
    have cancels : ((5 : ℚ) ^ x.exponent)⁻¹ * 5 ^ x.exponent = 1 :=
      inv_mul_cancel₀ (zpow_ne_zero _ (by norm_num))
    dsimp only
    rw [Nat.cast_mul, five, ten, zpow_neg]
    linear_combination (x.mantissa : ℚ) * 2 ^ x.exponent * cancels

/-- The decimal that is written for a positive magnitude rounds to it. -/
theorem shortest_rounds (tie : Tie) {x : Binary} (positive : 0 < x.mantissa) :
    x.Rounds (x.shortest tie).value := by
  unfold shortest
  rw [if_neg (Nat.pos_iff_ne_zero.1 positive), Decimal.strip_value]
  cases found : (List.range 17).findSome? fun k => x.onGrid tie (x.decimalOrder - (k : Nat)) with
  | none =>
    rw [Option.getD_none, exactDecimal_value]
    exact rounds_value positive
  | some d =>
    obtain ⟨k, -, here⟩ := List.exists_of_findSome?_eq_some found
    rw [Option.getD_some]
    exact (holds_iff x d).1 (onGrid_holds here)

end Binary

end Treewalk
