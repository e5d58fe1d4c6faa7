import Mathlib
import Treewalk.Decimal.Basic

/-!
# The bits of finite doubles

A finite double is its bits: nothing is lost when it is taken apart and put together again, and a
minus sign in front of one whose sign bit is clear sets that bit.
-/

namespace Treewalk

open Float.Model (Format UnpackedFloat)
open Float.Model.UnpackedFloat (Sign packComponents unpackSign unpackExponent unpackMantissa)

section fields

variable (b : BitVec 64)

def signField : Sign := .ofBitVec (@unpackSign .binary64 b)

def exponentField : BitVec 11 := @unpackExponent .binary64 b

def storedField : BitVec 52 := @unpackMantissa .binary64 b

theorem packComponents_fields :
    packComponents .binary64 (signField b) (exponentField b) (storedField b) = b := by
  have sign : (signField b).toBitVec = @unpackSign .binary64 b := by
    unfold signField Sign.ofBitVec
    generalize @unpackSign .binary64 b = bit
    revert bit
    decide
  rw [packComponents, sign]
  simp only [exponentField, storedField, unpackSign, unpackExponent, unpackMantissa,
    BitVec.extractLsb]
  ext i below
  grind

theorem toNat_exponentField : (exponentField b).toNat = b.toNat / 2 ^ 52 % 2 ^ 11 := by
  simp [exponentField, unpackExponent, Nat.shiftRight_eq_div_pow]

/-- A double from its sign, its exponent field and its stored digits. -/
def ofFields (s : Sign) (exponent : BitVec 11) (stored : BitVec 52) : UnpackedFloat :=
  if exponent = 0#11 then
    if h : stored = 0#52 then .zero s
    else .finite s stored.toNat (-1074)
      (by simpa [BitVec.toNat_pos, BitVec.pos_iff_ne_zero] using h)
  else .finite s (2 ^ 52 + stored.toNat) (exponent.toNat - 1075) (by omega)

theorem toNat_one_append (stored : BitVec 52) : (1#1 ++ stored).toNat = 2 ^ 52 + stored.toNat := by
  rw [BitVec.toNat_append, ← Nat.shiftLeft_add_eq_or_of_lt stored.isLt]
  rfl

theorem unpack_eq : UnpackedFloat.unpack .binary64 b =
    if exponentField b = -1#11 then
      if storedField b = 0#52 then .infinity (signField b) else .notANumber
    else ofFields (signField b) (exponentField b) (storedField b) := by
  have whole : UnpackedFloat.unpack .binary64 b =
      if exponentField b = -1#11 then
        if storedField b = 0#52 then .infinity (signField b) else .notANumber
      else if exponentField b = 0#11 then
        if h : storedField b = 0#52 then .zero (signField b)
        else .finite (signField b) (storedField b).toNat ((exponentField b).toNat - 1075 + 1)
          (by simpa [BitVec.toNat_pos, BitVec.pos_iff_ne_zero] using h)
      else .finite (signField b) (1#1 ++ storedField b).toNat ((exponentField b).toNat - 1075)
        (by rw [toNat_one_append]; omega) := rfl
  rw [whole, ofFields]
  split
  · rfl
  · split
    · next subnormal =>
      simp only [subnormal]
      rfl
    · simp only [toNat_one_append]

theorem isFinite_ofFields (s : Sign) (exponent : BitVec 11) (stored : BitVec 52) :
    (ofFields s exponent stored).isFinite = true := by
  unfold ofFields
  split
  · split <;> rfl
  · rfl

theorem neg_ofFields (s : Sign) (exponent : BitVec 11) (stored : BitVec 52) :
    (ofFields s exponent stored).neg = ofFields (-s) exponent stored := by
  unfold ofFields
  split
  · split <;> rfl
  · rfl

theorem pack_finite (s : Sign) (m : Nat) (e : Int) (positive : 0 < m) :
    UnpackedFloat.pack .binary64 (.finite s m e positive) =
      if 2 ^ 11 ≤ (e + 1023 + 52).toNat + 1 then UnpackedFloat.packedInfinity .binary64 s
      else if m.log2 + 1 = 53 then
        packComponents .binary64 s (BitVec.ofNat 11 (e + 1023 + 52).toNat) (BitVec.ofNat 52 m)
      else packComponents .binary64 s 0#11 (BitVec.ofNat 52 m) := rfl

theorem pack_ofFields {s : Sign} {exponent : BitVec 11} {stored : BitVec 52}
    (finite : exponent ≠ -1#11) :
    UnpackedFloat.pack .binary64 (ofFields s exponent stored) =
      packComponents .binary64 s exponent stored := by
  have below : exponent.toNat < 2047 := by
    have : exponent.toNat ≠ 2047 := fun same => finite (BitVec.eq_of_toNat_eq same)
    have := exponent.isLt
    omega
  have stored_lt := stored.isLt
  unfold ofFields
  split
  · next subnormal =>
    subst subnormal
    split
    · next zero =>
      subst zero
      rfl
    · next nonzero =>
      have positive : stored.toNat ≠ 0 := fun same => nonzero (BitVec.eq_of_toNat_eq same)
      have log : ¬ stored.toNat.log2 + 1 = 53 := by
        have := (Nat.log2_lt positive).2 stored_lt
        omega
      rw [pack_finite, if_neg (by decide), if_neg log, BitVec.ofNat_toNat, BitVec.setWidth_eq]
  · next normal =>
    have log : (2 ^ 52 + stored.toNat).log2 = 52 :=
      (Nat.log2_eq_iff (by omega)).2 (by omega)
    have biased : (exponent.toNat - 1075 + 1023 + 52 : Int).toNat = exponent.toNat := by omega
    have digits : BitVec.ofNat 52 (2 ^ 52 + stored.toNat) = stored := by
      apply BitVec.eq_of_toNat_eq
      rw [BitVec.toNat_ofNat]
      omega
    rw [pack_finite, biased, if_neg (by omega), if_pos (by rw [log]), digits, BitVec.ofNat_toNat,
      BitVec.setWidth_eq]

theorem toNat_packComponents (s : Sign) (exponent : BitVec 11) (stored : BitVec 52) :
    (packComponents .binary64 s exponent stored).toNat =
      s.toBitVec.toNat * 2 ^ 63 + (exponent.toNat * 2 ^ 52 + stored.toNat) := by
  rw [packComponents, BitVec.toNat_append, ← Nat.shiftLeft_add_eq_or_of_lt stored.isLt,
    BitVec.toNat_append, ← Nat.shiftLeft_add_eq_or_of_lt exponent.isLt]
  simp only [Nat.shiftLeft_eq]
  omega

end fields

/-- The exponent field of the infinities, and of what is no number. -/
theorem exponentField_eq_ones (b : BitVec 64) :
    exponentField b = -1#11 ↔ b.toNat / 2 ^ 52 % 2 ^ 11 = 2047 := by
  rw [← toNat_exponentField, ← BitVec.toNat_inj]
  rfl

theorem isFinite_iff (x : Float) :
    x.isFinite = true ↔ x.toBits.toNat / 2 ^ 52 % 2 ^ 11 ≠ 2047 := by
  have same : x.isFinite = (UnpackedFloat.unpack .binary64 x.toBits.toBitVec).isFinite := rfl
  have ones := exponentField_eq_ones x.toBits.toBitVec
  rw [UInt64.toNat_toBitVec] at ones
  rw [same, ne_eq, ← ones, unpack_eq]
  split
  · next infinite =>
    refine iff_of_false ?_ fun finite => finite infinite
    split <;> exact Bool.false_ne_true
  · next finite => exact iff_of_true (isFinite_ofFields ..) finite

theorem toBits_ofBits {b : UInt64} (finite : b.toNat / 2 ^ 52 % 2 ^ 11 ≠ 2047) :
    (Float.ofBits b).toBits = b := by
  have fields : exponentField b.toBitVec ≠ -1#11 := by
    rwa [ne_eq, exponentField_eq_ones]
  have same : (Float.ofBits b).toBits = UInt64.ofBitVec
      (UnpackedFloat.pack .binary64 (UnpackedFloat.unpack .binary64 b.toBitVec)) := rfl
  rw [same, unpack_eq, if_neg fields, pack_ofFields fields, packComponents_fields]

/-- A minus sign in front of a double whose sign bit is clear sets that bit. -/
theorem toNat_toBits_neg {x : Float} (finite : x.isFinite = true)
    (clear : x.toBits.toNat < 2 ^ 63) : (-x).toBits.toNat = 2 ^ 63 + x.toBits.toNat := by
  have fields : exponentField x.toBits.toBitVec ≠ -1#11 := by
    rw [ne_eq, exponentField_eq_ones]
    exact (isFinite_iff x).1 finite
  have same : (-x).toBits = UInt64.ofBitVec (UnpackedFloat.pack .binary64
      (UnpackedFloat.unpack .binary64 x.toBits.toBitVec).neg) := rfl
  have whole := toNat_packComponents (signField x.toBits.toBitVec)
    (exponentField x.toBits.toBitVec) (storedField x.toBits.toBitVec)
  have whole' := toNat_packComponents (-signField x.toBits.toBitVec)
    (exponentField x.toBits.toBitVec) (storedField x.toBits.toBitVec)
  rw [packComponents_fields, UInt64.toNat_toBitVec] at whole
  rw [same, unpack_eq, if_neg fields, neg_ofFields, pack_ofFields fields, UInt64.toNat_ofBitVec]
  have zero : Sign.positive.toBitVec.toNat = 0 := rfl
  have one : Sign.negative.toBitVec.toNat = 1 := rfl
  cases sign : signField x.toBits.toBitVec with
  | positive =>
    have flipped : -Sign.positive = .negative := rfl
    rw [sign, zero] at whole
    rw [sign, flipped, one] at whole'
    rw [flipped]
    omega
  | negative =>
    rw [sign, one] at whole
    exact absurd clear (by omega)

theorem eq_of_toBits_eq {x y : Float} (same : x.toBits = y.toBits) : x = y := by
  obtain ⟨⟨bits, valid⟩⟩ := x
  obtain ⟨⟨bits', valid'⟩⟩ := y
  obtain rfl : bits = bits' := same
  rfl

end Treewalk
