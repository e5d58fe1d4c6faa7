import Treewalk.Token
import Treewalk.Value

/-!
# Operators, and the errors of a run

`unaryOperator` and `binaryOperator` are what the operators do to values. A run stops at its first
error, which carries its cause and the line of the token that the cause is laid to.
-/

namespace Treewalk

/-- Why a run stops. -/
inductive RuntimeError.Cause where
  | undefinedVariable (name : String)
  | undefinedProperty (name : String)
  | superclassNotClass
  | notCallable
  | wrongArity (expected given : Nat)
  | stackOverflow
  | noProperties
  | noFields
  | unresolvedSuper
  | unresolvedThis
  | operandNotNumber
  | operandsNotNumbers
  | operandsNotAddable
  | invalidUnary
  | invalidBinary
deriving Repr, DecidableEq

/-- The message of a cause. -/
def RuntimeError.Cause.message : RuntimeError.Cause → String
  | undefinedVariable name => "Undefined variable '" ++ name ++ "'."
  | undefinedProperty name => "Undefined property '" ++ name ++ "'."
  | superclassNotClass => "Superclass must be a class."
  | notCallable => "Can only call functions and classes."
  | wrongArity expected given =>
    "Expected " ++ Nat.repr expected ++ " arguments but got " ++ Nat.repr given ++ "."
  | stackOverflow => "Stack overflow."
  | noProperties => "Only instances have properties."
  | noFields => "Only instances have fields."
  | unresolvedSuper => "Unresolved 'super'."
  | unresolvedThis => "Unresolved 'this'."
  | operandNotNumber => "Operand must be a number."
  | operandsNotNumbers => "Operands must be numbers."
  | operandsNotAddable => "Operands must be two numbers or two strings."
  | invalidUnary => "Invalid unary operator."
  | invalidBinary => "Invalid binary operator."

/-- The error that ends a run. -/
structure RuntimeError where
  cause : RuntimeError.Cause
  line : Nat
deriving Repr, DecidableEq

/-- The value of a prefix operator. -/
def unaryOperator (operator : TokenKind) (right : Value) : Except RuntimeError.Cause Value :=
  match operator with
  | .minus =>
    match right with
    | .number x => .ok (.number (-x))
    | _ => .error .operandNotNumber
  | .bang => .ok (.bool !right.truthy)
  | _ => .error .invalidUnary

/-- An operator that both operands must be numbers for. -/
def onNumbers (f : Float → Float → Value) (left right : Value) :
    Except RuntimeError.Cause Value :=
  match left, right with
  | .number x, .number y => .ok (f x y)
  | _, _ => .error .operandsNotNumbers

/-- The value of an operator between two operands. -/
def binaryOperator (operator : TokenKind) (left right : Value) :
    Except RuntimeError.Cause Value :=
  match operator with
  | .plus =>
    match left, right with
    | .number x, .number y => .ok (.number (x + y))
    | .text s, .text t => .ok (.text (s ++ t))
    | _, _ => .error .operandsNotAddable
  | .minus => onNumbers (fun x y => .number (x - y)) left right
  | .star => onNumbers (fun x y => .number (x * y)) left right
  | .slash => onNumbers (fun x y => .number (x / y)) left right
  | .greater => onNumbers (fun x y => .bool (decide (y < x))) left right
  | .greaterEqual => onNumbers (fun x y => .bool (decide (y ≤ x))) left right
  | .less => onNumbers (fun x y => .bool (decide (x < y))) left right
  | .lessEqual => onNumbers (fun x y => .bool (decide (x ≤ y))) left right
  | .equalEqual => .ok (.bool (left.equals right))
  | .bangEqual => .ok (.bool !(left.equals right))
  | _ => .error .invalidBinary

end Treewalk
