import Treewalk.Decimal.Basic

/-!
# The shortest decimal that reads back

The reals that round to a double form an interval around it. `Binary.holds` tests whether a
decimal lies in it, and `Binary.shortest` takes the first decimal grid, from coarse to fine, of
which a neighbour of the value lies there: no decimal with fewer digits does.
-/

namespace Treewalk

/-- Which of two equally close decimals is taken. -/
inductive Tie where
  | toEven
  | up
deriving Repr, DecidableEq

namespace Binary

/-- Four times the mantissa, less the distance to the lower end of the interval. -/
def lowerEnd (x : Binary) : Nat := if x.narrowBelow then 4 * x.mantissa - 1 else 4 * x.mantissa - 2

/-- Four times the mantissa, and the distance to the upper end of the interval. -/
def upperEnd (x : Binary) : Nat := 4 * x.mantissa + 2

/-- The decimal lies among the reals that round to `x`; the two ends do if the mantissa is even. -/
def holds (x : Binary) (d : Decimal) : Bool :=
  let inclusive := x.mantissa % 2 == 0
  let lower := Decimal.compareScaled d.digits d.exponent x.lowerEnd (x.exponent - 2)
  let upper := Decimal.compareScaled d.digits d.exponent x.upperEnd (x.exponent - 2)
  (lower == .gt || (inclusive && lower == .eq)) && (upper == .lt || (inclusive && upper == .eq))

/-- The largest `n` with `n * 10 ^ grid` at most `x`. -/
def floorAt (x : Binary) (grid : Int) : Nat :=
  (x.mantissa * twoTo x.exponent.toNat * tenTo (-grid).toNat) /
    (twoTo (-x.exponent).toNat * tenTo grid.toNat)

/-- `10 ^ k` is at most `x`. -/
def reachesTen (x : Binary) (k : Int) : Bool :=
  Decimal.compareScaled 1 k x.mantissa x.exponent != .gt

/-- The `k` with `10 ^ k ≤ x < 10 ^ (k + 1)`, of a positive `x`: estimated from the binary order
and put right by comparing. -/
def decimalOrder (x : Binary) : Int :=
  let estimate := ((Nat.log2 x.mantissa : Int) + x.exponent) * 30103 / 100000
  if x.reachesTen (estimate + 1) then estimate + 1
  else if x.reachesTen estimate then estimate
  else estimate - 1

/-- The neighbour of `x` on the grid of step `10 ^ grid` that reads back, of two the nearer. -/
def onGrid (tie : Tie) (x : Binary) (grid : Int) : Option Decimal :=
  let below := x.floorAt grid
  let lower : Decimal := ⟨below, grid⟩
  let upper : Decimal := ⟨below + 1, grid⟩
  match x.holds lower, x.holds upper with
  | false, false => none
  | true, false => some lower
  | false, true => some upper
  | true, true =>
    match Decimal.compareScaled (2 * below + 1) grid (2 * x.mantissa) x.exponent, tie with
    | .gt, _ => some lower
    | .lt, _ => some upper
    | .eq, .up => some upper
    | .eq, .toEven => some (if below % 2 = 0 then lower else upper)

/-- The decimal that `x` is. -/
def exactDecimal (x : Binary) : Decimal :=
  if 0 ≤ x.exponent then ⟨x.mantissa * twoTo x.exponent.toNat, 0⟩
  else ⟨x.mantissa * Nat.pow 5 (-x.exponent).toNat, x.exponent⟩

/-- The decimal with the fewest digits that reads back as `x`, of those the nearest. Seventeen
digits are always enough. -/
def shortest (tie : Tie) (x : Binary) : Decimal :=
  if x.mantissa = 0 then ⟨0, 0⟩
  else
    let order := x.decimalOrder
    let found := (List.range 17).findSome? fun k => x.onGrid tie (order - (k : Nat))
    (found.getD x.exactDecimal).strip

end Binary

end Treewalk
