import Treewalk.Decimal.Basic

/-!
# How a decimal is written

`Decimal.positional` writes all places without an exponent; `Decimal.scientific` writes one digit
before the point and an exponent that always has its sign.
-/

namespace Treewalk.Decimal

/-- The digits of `d`, without leading zeros. -/
def figures (d : Decimal) : List Char := Nat.toDigits 10 d.digits

/-- The exponent of the leading digit of `d`. -/
def order (d : Decimal) : Int := d.exponent + d.figures.length - 1

/-- `d` without an exponent, and without a point where there is no fraction. -/
def positional (d : Decimal) : String :=
  let figures := d.figures
  if 0 ≤ d.exponent then
    String.ofList (figures ++ List.replicate d.exponent.toNat '0')
  else
    let places := (-d.exponent).toNat
    if places < figures.length then
      let whole := figures.length - places
      String.ofList (figures.take whole ++ '.' :: figures.drop whole)
    else
      String.ofList ('0' :: '.' :: List.replicate (places - figures.length) '0' ++ figures)

/-- `d` with one digit before the point, no point after a single digit, and an exponent. -/
def scientific (d : Decimal) : String :=
  let exponent :=
    if 0 ≤ d.order then "e+" ++ Nat.repr d.order.toNat else "e-" ++ Nat.repr (-d.order).toNat
  match d.figures with
  | [] => exponent
  | [figure] => String.ofList [figure] ++ exponent
  | figure :: rest => String.ofList (figure :: '.' :: rest) ++ exponent

end Treewalk.Decimal
