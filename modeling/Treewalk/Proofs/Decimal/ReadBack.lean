import Mathlib.Data.Nat.Cast.Field
import Treewalk.Proofs.Decimal.Bits
import Treewalk.Proofs.Decimal.Nearest

/-!
# Decimals that read back

A finite double is its sign and a canonical magnitude. A decimal reads back as the magnitude if it
rounds to it, or if both are zero; what a magnitude is written as is one of these, whether it is
its exact value or the shortest decimal.
-/

namespace Treewalk

theorem Decimal.value_eq (d : Decimal) : d.value = d.numerator / d.denominator := by
  have power := zpow_mul_pow_toNat (by norm_num : (10 : ℚ) ≠ 0) d.exponent
  have nonzero : (10 : ℚ) ^ (-d.exponent).toNat ≠ 0 := by positivity
  simp only [value, numerator, denominator, Nat.pow_eq, Nat.cast_mul, Nat.cast_pow,
    Nat.cast_ofNat, ← power]
  rw [← mul_assoc, mul_div_cancel_right₀ _ nonzero]

theorem Decimal.denominator_pos (d : Decimal) : 0 < d.denominator :=
  Nat.pow_pos (by norm_num)

theorem Decimal.digits_eq_zero {d : Decimal} (zero : d.value = 0) : d.digits = 0 := by
  have nonzero : (10 : ℚ) ^ d.exponent ≠ 0 := zpow_ne_zero _ (by norm_num)
  exact_mod_cast (mul_eq_zero.1 zero).resolve_right nonzero

namespace Binary

/-- What the low bits of a double stand for. -/
theorem canonical_ofField (bits : Nat) : (ofField bits).Canonical := by
  have stored := Nat.mod_lt bits (Nat.two_pow_pos 52)
  unfold ofField
  dsimp only
  simp only [Nat.pow_eq]
  split
  · exact ⟨le_refl _, by dsimp only; omega, fun above => absurd above (lt_irrefl _)⟩
  · exact ⟨by dsimp only; omega, by dsimp only; omega, fun _ => Nat.le_add_right ..⟩

/-- The low 63 bits are those of the magnitude that they stand for. -/
theorem toField_ofField (bits : Nat) : (ofField bits).toField = bits % 2 ^ 63 := by
  unfold ofField toField
  dsimp only
  simp only [Nat.pow_eq]
  split
  · next zero =>
    dsimp only
    rw [sub_self, Int.toNat_zero]
    omega
  · next normal =>
    dsimp only
    rw [add_sub_cancel_left, Int.toNat_natCast]
    omega

/-- A rational that is read as the magnitude: zero only as zero. -/
def Reads (x : Binary) (q : ℚ) : Prop := if x.mantissa = 0 then q = 0 else x.Rounds q

theorem reads_value (x : Binary) : x.Reads x.value := by
  unfold Reads
  split
  · next zero => rw [value, zero, Nat.cast_zero, zero_mul]
  · next nonzero => exact rounds_value (Nat.pos_of_ne_zero nonzero)

theorem reads_shortest (x : Binary) (tie : Tie) : x.Reads (x.shortest tie).value := by
  unfold Reads
  split
  · next zero => rw [shortest, if_pos zero, Decimal.value, Nat.cast_zero, zero_mul]
  · next nonzero => exact shortest_rounds tie (Nat.pos_of_ne_zero nonzero)

/-- The natural number that a magnitude is, is what it is worth. -/
theorem toNat?_value {x : Binary} {n : Nat} (is : x.toNat? = some n) : (n : ℚ) = x.value := by
  unfold toNat? at is
  dsimp only at is
  simp only [Nat.pow_eq] at is
  rw [value]
  split at is
  · next whole =>
    cases is
    rw [Nat.cast_mul, Nat.cast_pow, Nat.cast_ofNat, ← zpow_natCast, Int.toNat_of_nonneg whole]
  · next part =>
    split at is
    · next divides =>
      cases is
      have unit : ((2 ^ (-x.exponent).toNat : Nat) : ℚ) ≠ 0 := by positivity
      have power : ((2 ^ (-x.exponent).toNat : Nat) : ℚ) = (2 ^ x.exponent)⁻¹ := by
        rw [Nat.cast_pow, Nat.cast_ofNat, ← zpow_natCast, Int.toNat_of_nonneg (by omega), zpow_neg]
      rw [Nat.cast_div (Nat.dvd_of_mod_eq_zero divides) unit, power, div_inv_eq_mul]
    · cases is

/-- What is read as a canonical magnitude is read as its bits. -/
theorem Canonical.toFloat_eq {x : Binary} (canonical : x.Canonical) {d : Decimal}
    (reads : x.Reads d.value) (finite : x.toField < Decimal.infinityField) :
    d.toFloat = Float.ofBits (UInt64.ofNat x.toField) := by
  unfold Reads at reads
  split at reads
  · next zero =>
    -- Only at the least exponent is the mantissa of a canonical magnitude zero.
    have bottom : x.exponent = minExponent := by
      have := canonical.normal
      have := canonical.least
      omega
    have field : x.toField = 0 := by rw [toField, bottom, zero, sub_self, Int.toNat_zero, zero_mul]
    rw [Decimal.toFloat, if_pos (Decimal.digits_eq_zero reads), field]
    rfl
  · next nonzero =>
    have positive := Nat.pos_of_ne_zero nonzero
    have digits : d.digits ≠ 0 := by
      intro zero
      have := reads.pos positive
      rw [Decimal.value, zero, Nat.cast_zero, zero_mul] at this
      exact this.false
    rw [Decimal.value_eq] at reads
    rw [Decimal.toFloat, if_neg digits]
    dsimp only
    rw [canonical.nearest positive d.denominator_pos reads, Nat.min_eq_left (Nat.le_of_lt finite)]

end Binary

/-- The magnitude of a finite double. -/
def Number.magnitude (x : Float) : Binary := Binary.ofField x.toBits.toNat

/-- The sign bit of a double is set. -/
def Number.negative (x : Float) : Bool := x.toBits.toNat / twoTo 63 == 1

theorem Reading.of_finite {x : Float} (finite : x.isFinite = true) :
    Reading.of x = .finite (Number.negative x) (Number.magnitude x) := by
  have exponent := (isFinite_iff x).1 finite
  unfold Reading.of
  dsimp only
  simp only [Nat.pow_eq]
  rw [if_neg exponent]
  rfl

theorem Number.negative_eq_false {x : Float} (clear : x.toBits.toNat < 2 ^ 63) :
    Number.negative x = false := by
  have zero : x.toBits.toNat / twoTo 63 = 0 := Nat.div_eq_of_lt clear
  rw [negative, zero]
  rfl

/-- A decimal that reads back as the magnitude of a finite double is read as the double without its
sign; a minus sign puts the sign back. -/
theorem Decimal.toFloat_signed {x : Float} (finite : x.isFinite = true) {d : Decimal}
    (reads : (Number.magnitude x).Reads d.value) :
    (if Number.negative x = true then -d.toFloat else d.toFloat) = x := by
  have exponent := (isFinite_iff x).1 finite
  have bits_lt := x.toBits.toNat_lt
  have field := Binary.toField_ofField x.toBits.toNat
  have below : x.toBits.toNat % 2 ^ 63 < infinityField := by
    have largest : infinityField = 2047 * 2 ^ 52 := rfl
    omega
  have float := (Binary.canonical_ofField x.toBits.toNat).toFloat_eq reads (by rwa [field])
  rw [field] at float
  have low : (UInt64.ofNat (x.toBits.toNat % 2 ^ 63)).toNat = x.toBits.toNat % 2 ^ 63 :=
    UInt64.toNat_ofNat_of_lt' (by rw [UInt64.size]; omega)
  have unsigned : d.toFloat.toBits = UInt64.ofNat (x.toBits.toNat % 2 ^ 63) := by
    rw [float]
    refine toBits_ofBits ?_
    rw [low]
    omega
  have unsigned' : d.toFloat.toBits.toNat = x.toBits.toNat % 2 ^ 63 := by rw [unsigned, low]
  -- The low 63 bits are right; the sign bit is what the minus sign sets.
  apply eq_of_toBits_eq
  apply UInt64.toNat_inj.1
  have sign : Number.negative x = true ↔ x.toBits.toNat / 2 ^ 63 = 1 := beq_iff_eq
  split
  · next set =>
    rw [sign] at set
    have finite' : d.toFloat.isFinite = true := by
      rw [isFinite_iff, unsigned']
      omega
    rw [toNat_toBits_neg finite' (by omega), unsigned']
    omega
  · next clear =>
    rw [sign] at clear
    rw [unsigned']
    omega

end Treewalk
