/-!
# Decimals and doubles, exactly

A `Decimal` is digits times a power of ten and a `Binary` is a mantissa times a power of two;
both are compared over the naturals, without rounding. `Reading.of` takes a double apart into its
sign and its `Binary`, and `Binary.toBits` puts one together again.
-/

namespace Treewalk

/-- The power `2 ^ n`. -/
abbrev twoTo (n : Nat) : Nat := Nat.pow 2 n

/-- The power `10 ^ n`. -/
abbrev tenTo (n : Nat) : Nat := Nat.pow 10 n

/-- The decimal `digits * 10 ^ exponent`. -/
structure Decimal where
  digits : Nat
  exponent : Int
deriving Repr, DecidableEq

/-- The magnitude `mantissa * 2 ^ exponent` of a finite double. -/
structure Binary where
  mantissa : Nat
  exponent : Int
deriving Repr, DecidableEq

/-- What the bits of a double stand for. -/
inductive Reading where
  | nan
  | infinite (negative : Bool)
  | finite (negative : Bool) (magnitude : Binary)
deriving Repr, DecidableEq

namespace Binary

/-- The exponent of the smallest positive double. -/
def minExponent : Int := -1074

/-- The magnitude written in the low 63 bits: an exponent field of zero stands for the numbers
below `2 ^ -1022`, every other one adds the leading bit to the 52 that are stored. -/
def ofField (bits : Nat) : Binary :=
  let field := bits / twoTo 52 % twoTo 11
  let stored := bits % twoTo 52
  if field = 0 then ⟨stored, minExponent⟩
  else ⟨twoTo 52 + stored, minExponent + (field - 1 : Nat)⟩

/-- The low 63 bits of a magnitude whose mantissa is at most `2 ^ 53`, and at least `2 ^ 52` unless
the exponent is the least one: the leading bit of the mantissa carries into the exponent field. -/
def toField (x : Binary) : Nat :=
  (x.exponent - minExponent).toNat * twoTo 52 + x.mantissa

/-- The gap to the next smaller double is half the gap to the next larger one. -/
def narrowBelow (x : Binary) : Bool :=
  x.mantissa == twoTo 52 && decide (minExponent < x.exponent)

/-- The natural number that `x` is, if it is one. -/
def toNat? (x : Binary) : Option Nat :=
  if 0 ≤ x.exponent then some (x.mantissa * twoTo x.exponent.toNat)
  else
    let unit := twoTo (-x.exponent).toNat
    if x.mantissa % unit = 0 then some (x.mantissa / unit) else none

end Binary

/-- The sign, mantissa and exponent of a double. -/
def Reading.of (x : Float) : Reading :=
  let bits := x.toBits.toNat
  let negative := bits / twoTo 63 == 1
  if bits / twoTo 52 % twoTo 11 = twoTo 11 - 1 then
    if bits % twoTo 52 = 0 then .infinite negative else .nan
  else .finite negative (Binary.ofField bits)

namespace Decimal

/-- Compares `a * 10 ^ i` with `n * 2 ^ j`, exactly. -/
def compareScaled (a : Nat) (i : Int) (n : Nat) (j : Int) : Ordering :=
  compare (a * tenTo i.toNat * twoTo (-j).toNat) (n * twoTo j.toNat * tenTo (-i).toNat)

/-- The decimal without its trailing zeros. -/
def strip (d : Decimal) : Decimal :=
  if d.digits ≠ 0 ∧ d.digits % 10 = 0 then strip ⟨d.digits / 10, d.exponent + 1⟩ else d
termination_by d.digits
decreasing_by omega

end Decimal

end Treewalk
