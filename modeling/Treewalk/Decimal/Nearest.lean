import Treewalk.Decimal.Basic

/-!
# The double nearest to a decimal

`Decimal.toFloat` rounds to the nearest double, halves to the even mantissa, by one exact division:
the quotient is taken at the exponent where it has 53 binary digits, or at the least exponent.
-/

namespace Treewalk

/-- The natural number nearest to `num / den`, halves to even. -/
def roundQuotient (num den : Nat) : Nat :=
  let quotient := num / den
  let rest := num % den
  if 2 * rest < den then quotient
  else if den < 2 * rest then quotient + 1
  else if quotient % 2 = 0 then quotient else quotient + 1

namespace Decimal

/-- The numerator of the decimal as a fraction. -/
def numerator (d : Decimal) : Nat := d.digits * tenTo d.exponent.toNat

/-- The denominator of the decimal as a fraction. -/
def denominator (d : Decimal) : Nat := tenTo (-d.exponent).toNat

/-- `den * 2 ^ k ≤ num`, for any sign of `k`. -/
def reaches (num den : Nat) (k : Int) : Bool :=
  den * twoTo k.toNat ≤ num * twoTo (-k).toNat

/-- The `k` with `2 ^ k ≤ num / den < 2 ^ (k + 1)`, of a positive fraction. -/
def binaryOrder (num den : Nat) : Int :=
  let estimate : Int := (Nat.log2 num : Int) - Nat.log2 den
  if reaches num den estimate then estimate else estimate - 1

/-- The magnitude nearest to a fraction, at the exponent that leaves it 53 binary digits. -/
def nearestBinary (num den : Nat) : Binary :=
  let exponent := max Binary.minExponent (binaryOrder num den - 52)
  ⟨roundQuotient (num * twoTo (-exponent).toNat) (den * twoTo exponent.toNat), exponent⟩

/-- The bits of infinity, and the end of the finite ones. -/
def infinityField : Nat := (twoTo 11 - 1) * twoTo 52

/-- The double nearest to a decimal; from halfway beyond the largest one on it is infinity. -/
def toFloat (d : Decimal) : Float :=
  if d.digits = 0 then Float.ofBits 0
  else
    let field := (nearestBinary d.numerator d.denominator).toField
    Float.ofBits (UInt64.ofNat (min field infinityField))

end Decimal

end Treewalk
