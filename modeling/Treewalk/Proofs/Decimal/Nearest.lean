import Treewalk.Proofs.Decimal.Shortest

/-!
# What rounds to a double is read as it

`Decimal.nearestBinary` rounds a fraction at the exponent that leaves it 53 binary digits. A
fraction that rounds to a double comes out as that double, but for one place: just below a power of
two the quotient is taken one exponent lower, and what is carried makes up for it in the bits.
-/

namespace Treewalk

/-- The quotient is the natural number that the fraction is less than a half away from, or the even
one of two that it lies between. -/
theorem roundQuotient_eq {num den m : Nat} (pos : 0 < den)
    (above : (m - 1 / 2 : ℚ) < num / den ∨ m % 2 = 0 ∧ (num / den : ℚ) = m - 1 / 2)
    (below : (num / den : ℚ) < m + 1 / 2 ∨ m % 2 = 0 ∧ (num / den : ℚ) = m + 1 / 2) :
    roundQuotient num den = m := by
  have den_pos : (0 : ℚ) < den := by exact_mod_cast pos
  have above : 2 * (m * den) < 2 * num + den ∨ m % 2 = 0 ∧ 2 * (m * den) = 2 * num + den := by
    rw [lt_div_iff₀ den_pos, div_eq_iff den_pos.ne'] at above
    refine above.imp (fun less => ?_) fun ⟨even, same⟩ => ⟨even, ?_⟩
    · have : (2 * (m * den) : ℚ) < 2 * num + den := by linarith
      exact_mod_cast this
    · have : (2 * (m * den) : ℚ) = 2 * num + den := by linarith
      exact_mod_cast this
  have below : 2 * num < 2 * (m * den) + den ∨ m % 2 = 0 ∧ 2 * num = 2 * (m * den) + den := by
    rw [div_lt_iff₀ den_pos, div_eq_iff den_pos.ne'] at below
    refine below.imp (fun less => ?_) fun ⟨even, same⟩ => ⟨even, ?_⟩
    · have : (2 * num : ℚ) < 2 * (m * den) + den := by linarith
      exact_mod_cast this
    · have : (2 * num : ℚ) = 2 * (m * den) + den := by linarith
      exact_mod_cast this
  have whole := Nat.div_add_mod num den
  have rest := Nat.mod_lt num pos
  unfold roundQuotient
  dsimp only
  generalize num / den = quotient at *
  generalize num % den = left at *
  have near : quotient = m ∨ quotient + 1 = m := by
    by_contra far
    rcases Nat.lt_or_ge quotient m with small | large
    · have step : (quotient + 2) * den ≤ m * den := Nat.mul_le_mul_right den (by omega)
      have expand : (quotient + 2) * den = den * quotient + 2 * den := by ring
      omega
    · have step : (m + 1) * den ≤ quotient * den := Nat.mul_le_mul_right den (by omega)
      have expand : (m + 1) * den = m * den + den := by ring
      have turn : quotient * den = den * quotient := Nat.mul_comm ..
      omega
  rcases near with rfl | rfl
  · have turn : quotient * den = den * quotient := Nat.mul_comm ..
    split_ifs <;> omega
  · have turn : (quotient + 1) * den = den * quotient + den := by ring
    split_ifs <;> omega

namespace Decimal

theorem reaches_iff {num den : Nat} (pos : 0 < den) (k : Int) :
    reaches num den k = true ↔ (2 : ℚ) ^ k ≤ num / den := by
  have den_pos : (0 : ℚ) < den := by exact_mod_cast pos
  have scale : (0 : ℚ) < 2 ^ (-k).toNat := by positivity
  have power := zpow_mul_pow_toNat (by norm_num : (2 : ℚ) ≠ 0) k
  rw [le_div_iff₀ den_pos, ← mul_le_mul_iff_left₀ scale, reaches, decide_eq_true_iff,
    ← Nat.cast_le (α := ℚ)]
  have left : ((den * twoTo k.toNat : Nat) : ℚ) = 2 ^ k * den * 2 ^ (-k).toNat := by
    simp only [Nat.pow_eq, Nat.cast_mul, Nat.cast_pow, Nat.cast_ofNat, ← power]
    ring
  have right : ((num * twoTo (-k).toNat : Nat) : ℚ) = num * 2 ^ (-k).toNat := by
    simp only [Nat.pow_eq, Nat.cast_mul, Nat.cast_pow, Nat.cast_ofNat]
  rw [left, right]

/-- The order of a positive fraction is the exponent of its leading binary digit. -/
theorem binaryOrder_spec {num den : Nat} (num_pos : 0 < num) (den_pos : 0 < den) :
    (2 : ℚ) ^ binaryOrder num den ≤ num / den ∧
      (num / den : ℚ) < 2 ^ (binaryOrder num den + 1) := by
  have num_least : (2 : ℚ) ^ num.log2 ≤ num := by
    exact_mod_cast Nat.log2_self_le num_pos.ne'
  have num_most : (num : ℚ) < 2 ^ (num.log2 + 1) := by exact_mod_cast Nat.lt_log2_self
  have den_least : (2 : ℚ) ^ den.log2 ≤ den := by
    exact_mod_cast Nat.log2_self_le den_pos.ne'
  have den_most : (den : ℚ) < 2 ^ (den.log2 + 1) := by exact_mod_cast Nat.lt_log2_self
  have den_pos' : (0 : ℚ) < den := by exact_mod_cast den_pos
  have most : (num / den : ℚ) < 2 ^ ((num.log2 : Int) - den.log2 + 1) := by
    have power : (2 : ℚ) ^ ((num.log2 : Int) - den.log2 + 1) =
        2 ^ (num.log2 + 1) / 2 ^ den.log2 := by
      rw [sub_add_eq_add_sub, zpow_sub₀ two_ne_zero, zpow_natCast]
      exact_mod_cast rfl
    calc (num / den : ℚ)
      _ ≤ num / 2 ^ den.log2 := by gcongr
      _ < 2 ^ (num.log2 + 1) / 2 ^ den.log2 := by gcongr
      _ = 2 ^ ((num.log2 : Int) - den.log2 + 1) := power.symm
  have least : (2 : ℚ) ^ ((num.log2 : Int) - den.log2 - 1) ≤ num / den := by
    have power : (2 : ℚ) ^ ((num.log2 : Int) - den.log2 - 1) =
        2 ^ num.log2 / 2 ^ (den.log2 + 1) := by
      rw [sub_sub, zpow_sub₀ two_ne_zero, zpow_natCast]
      exact_mod_cast rfl
    calc (2 : ℚ) ^ ((num.log2 : Int) - den.log2 - 1)
      _ = 2 ^ num.log2 / 2 ^ (den.log2 + 1) := power
      _ ≤ num / 2 ^ (den.log2 + 1) := by gcongr
      _ ≤ num / den := by gcongr
  unfold binaryOrder
  dsimp only
  split
  · next reached => exact ⟨(reaches_iff den_pos _).1 reached, most⟩
  · next missed =>
    rw [reaches_iff den_pos, not_le] at missed
    exact ⟨least, by rw [sub_add_cancel]; exact missed⟩

end Decimal

namespace Binary

/-- A magnitude of a finite double: the mantissa has 53 binary digits unless the exponent is the
least one. -/
structure Canonical (x : Binary) : Prop where
  least : minExponent ≤ x.exponent
  small : x.mantissa < 2 ^ 53
  normal : minExponent < x.exponent → 2 ^ 52 ≤ x.mantissa

theorem narrowBelow_iff (x : Binary) :
    x.narrowBelow = true ↔ x.mantissa = 2 ^ 52 ∧ minExponent < x.exponent := by
  simp only [narrowBelow, Bool.and_eq_true, beq_iff_eq, decide_eq_true_iff, Nat.pow_eq]

namespace Rounds

variable {x : Binary} {q : ℚ}

theorem le_highest (h : x.Rounds q) : q ≤ x.highest :=
  h.below.elim le_of_lt fun same => same.2.le

theorem lowest_le (h : x.Rounds q) : x.lowest ≤ q :=
  h.above.elim le_of_lt fun same => same.2.ge

/-- In units of the last place it is at most a half away from the mantissa. -/
theorem units (h : x.Rounds q) (positive : 0 < x.mantissa) :
    ((x.mantissa - 1 / 2 : ℚ) < q / 2 ^ x.exponent ∨
      x.mantissa % 2 = 0 ∧ q / 2 ^ x.exponent = x.mantissa - 1 / 2) ∧
    (q / 2 ^ x.exponent < x.mantissa + 1 / 2 ∨
      x.mantissa % 2 = 0 ∧ q / 2 ^ x.exponent = x.mantissa + 1 / 2) := by
  have unit : (0 : ℚ) < 2 ^ x.exponent := by positivity
  obtain ⟨above, below⟩ := h
  rw [lowest_eq positive] at above
  rw [highest_eq] at below
  rw [lt_div_iff₀ unit, div_lt_iff₀ unit, div_eq_iff unit.ne', div_eq_iff unit.ne']
  refine ⟨?_, below⟩
  by_cases narrow : x.narrowBelow = true
  · rw [if_pos narrow] at above
    have wider : (x.mantissa - 1 / 2 : ℚ) * 2 ^ x.exponent <
        (x.mantissa - 1 / 4) * 2 ^ x.exponent := by
      refine mul_lt_mul_of_pos_right ?_ unit
      norm_num
    exact .inl (above.elim wider.trans fun same => same.2 ▸ wider)
  · rwa [if_neg narrow] at above

end Rounds

/-- A rational that rounds to a magnitude has the order of its leading digit, or it is just below
the power of two that the magnitude is. -/
theorem Canonical.order_cases {x : Binary} {q : ℚ} {k : Int} (canonical : x.Canonical)
    (positive : 0 < x.mantissa) (rounds : x.Rounds q) (least : (2 : ℚ) ^ k ≤ q)
    (most : q < 2 ^ (k + 1)) :
    max minExponent (k - 52) = x.exponent ∨
      x.mantissa = 2 ^ 52 ∧ minExponent < x.exponent ∧ k - 52 = x.exponent - 1 ∧
        ((2 ^ 53 : ℕ) - 1 / 2 : ℚ) ≤ q / 2 ^ (x.exponent - 1) ∧
        q / 2 ^ (x.exponent - 1) < (2 ^ 53 : ℕ) := by
  have unit : (0 : ℚ) < 2 ^ x.exponent := by positivity
  have power (n : Nat) : (2 : ℚ) ^ (n + x.exponent) = 2 ^ n * 2 ^ x.exponent := by
    rw [zpow_add₀ two_ne_zero, zpow_natCast]
  have below_top : k < (53 : ℕ) + x.exponent := by
    rw [← zpow_lt_zpow_iff_right₀ (one_lt_two : (1 : ℚ) < 2), power]
    refine (least.trans rounds.le_highest).trans_lt ?_
    rw [highest_eq]
    have small : (x.mantissa + 1 : ℚ) ≤ 2 ^ 53 := by exact_mod_cast canonical.small
    exact mul_lt_mul_of_pos_right (by linarith) unit
  have floor := canonical.least
  rcases lt_or_ge (k - 52) x.exponent with lower | same
  swap
  · exact .inl (by omega)
  rcases floor.lt_or_eq with inner | bottom
  swap
  · exact .inl (by omega)
  have q_small : q < 2 ^ 52 * 2 ^ x.exponent := by
    rw [← power]
    refine most.trans_le (zpow_le_zpow_right₀ one_le_two ?_)
    omega
  have q_large := rounds.lowest_le
  rw [lowest_eq positive] at q_large
  by_cases narrow : x.narrowBelow = true
  · have mantissa := ((narrowBelow_iff x).1 narrow).1
    rw [if_pos narrow, mantissa] at q_large
    have order : k - 52 = x.exponent - 1 := by
      have : (51 : ℕ) + x.exponent < k + 1 := by
        rw [← zpow_lt_zpow_iff_right₀ (one_lt_two : (1 : ℚ) < 2), power]
        refine (le_trans ?_ q_large).trans_lt most
        exact mul_le_mul_of_nonneg_right (by norm_num) unit.le
      omega
    have half : (2 : ℚ) ^ (x.exponent - 1) = 2 ^ x.exponent / 2 := by
      rw [zpow_sub_one₀ two_ne_zero, div_eq_mul_inv]
    have half_pos : (0 : ℚ) < 2 ^ x.exponent / 2 := div_pos unit two_pos
    rw [half, le_div_iff₀ half_pos, div_lt_iff₀ half_pos]
    push_cast at q_large ⊢
    exact .inr ⟨mantissa, inner, order, by linarith, by linarith⟩
  · have mantissa : 2 ^ 52 + 1 ≤ x.mantissa := by
      have := canonical.normal inner
      have : x.mantissa ≠ 2 ^ 52 := fun same => narrow ((narrowBelow_iff x).2 ⟨same, inner⟩)
      omega
    have mantissa : (2 ^ 52 + 1 : ℚ) ≤ x.mantissa := by exact_mod_cast mantissa
    rw [if_neg narrow] at q_large
    have : (2 ^ 52 : ℚ) * 2 ^ x.exponent < (x.mantissa - 1 / 2) * 2 ^ x.exponent :=
      mul_lt_mul_of_pos_right (by linarith) unit
    linarith

/-- The fraction in units of the place that it is rounded at. -/
theorem scaled_eq (num den : Nat) (exponent : Int) :
    ((num * twoTo (-exponent).toNat : Nat) : ℚ) / ((den * twoTo exponent.toNat : Nat) : ℚ) =
      num / den / 2 ^ exponent := by
  have power := zpow_mul_pow_toNat (by norm_num : (2 : ℚ) ≠ 0) exponent
  have nonzero : (2 : ℚ) ^ (-exponent).toNat ≠ 0 := by positivity
  simp only [Nat.pow_eq, Nat.cast_mul, Nat.cast_pow, Nat.cast_ofNat, ← power]
  rw [← mul_assoc, mul_div_mul_right _ _ nonzero, div_div]

/-- What rounds to a magnitude is read as its bits. -/
theorem Canonical.nearest {x : Binary} (canonical : x.Canonical) (positive : 0 < x.mantissa)
    {num den : Nat} (pos : 0 < den) (rounds : x.Rounds (num / den)) :
    (Decimal.nearestBinary num den).toField = x.toField := by
  have num_pos : 0 < num := by
    refine Nat.pos_of_ne_zero fun zero => ?_
    have := rounds.pos positive
    rw [zero, Nat.cast_zero, zero_div] at this
    exact this.false
  obtain ⟨least, most⟩ := Decimal.binaryOrder_spec num_pos pos
  have scale_pos (k : Int) : 0 < den * twoTo k.toNat := Nat.mul_pos pos (Nat.two_pow_pos _)
  unfold Decimal.nearestBinary
  dsimp only
  rcases canonical.order_cases positive rounds least most with
    same | ⟨mantissa, inner, order, above, below⟩
  · obtain ⟨above, below⟩ := rounds.units positive
    rw [same, roundQuotient_eq (scale_pos _) (by rwa [scaled_eq]) (by rwa [scaled_eq])]
  · have exponent : max minExponent (Decimal.binaryOrder num den - 52) = x.exponent - 1 := by
      omega
    have quotient := @roundQuotient_eq (num * twoTo (-(x.exponent - 1)).toNat) _ (2 ^ 53)
      (scale_pos (x.exponent - 1)) ?_ (.inl ?_)
    · rw [exponent, quotient, toField, toField, mantissa]
      have : (x.exponent - minExponent).toNat = (x.exponent - 1 - minExponent).toNat + 1 := by
        omega
      rw [this]
      dsimp only
      simp only [Nat.pow_eq]
      ring
    · rw [scaled_eq]
      rcases above.lt_or_eq with less | same
      · exact .inl less
      · exact .inr ⟨by norm_num, same.symm⟩
    · rw [scaled_eq]
      exact below.trans (by norm_num)

end Binary

end Treewalk
