import Treewalk.Decimal.Nearest
import Treewalk.Decimal.Shortest
import Treewalk.Decimal.Layout

/-!
# The texts of a number

A number is a double. It is written in four ways: as a program prints it (`Number.display`), in
the prefix form of a program (`Number.prefixForm`), behind a token (`Number.tokenForm`) and in
JSON (`Number.json`). They differ in how whole numbers, the infinities and extreme exponents are
written; all of them show either the exact value or the fewest digits that read back.
-/

namespace Treewalk.Number

/-- The sign in front of a magnitude. -/
def sign (negative : Bool) : String := if negative then "-" else ""

/-- The fewest digits that read back, without an exponent; halfway between two of them the upper
one is taken. -/
def shortestPositional (magnitude : Binary) : String := (magnitude.shortest .up).positional

/-- The text that `print` writes: whole numbers exactly and without a point. -/
def display (x : Float) : String :=
  match Reading.of x with
  | .nan => "NaN"
  | .infinite negative => sign negative ++ "Infinity"
  | .finite negative magnitude =>
    sign negative ++
      match magnitude.toNat? with
      | some n => Nat.repr n
      | none => shortestPositional magnitude

/-- The text in the prefix form of a program: whole numbers exactly, with `.0`. -/
def prefixForm (x : Float) : String :=
  match Reading.of x with
  | .nan => "NaN"
  | .infinite negative => sign negative ++ "inf"
  | .finite negative magnitude =>
    sign negative ++
      match magnitude.toNat? with
      | some n => Nat.repr n ++ ".0"
      | none => shortestPositional magnitude

/-- The text behind a token: whole numbers below `2 ^ 63` exactly, with `.0` and without a sign of
zero; all others by the fewest digits. -/
def tokenForm (x : Float) : String :=
  match Reading.of x with
  | .nan => "NaN"
  | .infinite negative => sign negative ++ "inf"
  | .finite negative magnitude =>
    match magnitude.toNat? with
    | some n =>
      if n < twoTo 63 then sign (negative && n != 0) ++ Nat.repr n ++ ".0"
      else sign negative ++ shortestPositional magnitude
    | none => sign negative ++ shortestPositional magnitude

/-- The JSON text of a decimal: without an exponent if the leading digit stands between `10 ^ -5`
and `10 ^ 15`, and then with a point. -/
def jsonDecimal (d : Decimal) : String :=
  if -5 ≤ d.order ∧ d.order ≤ 15 then
    if 0 ≤ d.exponent then d.positional ++ ".0" else d.positional
  else d.scientific

/-- The JSON text: the fewest digits, halves to even, and `null` for what is not finite. -/
def json (x : Float) : String :=
  match Reading.of x with
  | .nan => "null"
  | .infinite _ => "null"
  | .finite negative magnitude => sign negative ++ jsonDecimal (magnitude.shortest .toEven)

end Treewalk.Number
