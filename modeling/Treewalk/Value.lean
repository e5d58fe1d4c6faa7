/-!
# Values

A value is a constant or a reference into the store, by number: two functions, classes or
instances are the same value if they have the same number. The only native function is `clock`.
-/

namespace Treewalk

/-- The number of a function in the store. -/
abbrev FunctionId := Nat

/-- The number of a class in the store. -/
abbrev ClassId := Nat

/-- The number of an instance in the store. -/
abbrev InstanceId := Nat

inductive Value where
  | nil
  | bool (value : Bool)
  | number (value : Float)
  | text (value : String)
  | clock
  | function (id : FunctionId)
  | cls (id : ClassId)
  | object (id : InstanceId)
deriving DecidableEq, Inhabited

namespace Value

/-- Everything counts as true but `nil` and `false`. -/
def truthy : Value → Bool
  | .nil => false
  | .bool value => value
  | _ => true

/-- The equality that programs see. It is never an error, and between numbers it is that of
doubles: no value but a NaN differs from itself. -/
def equals : Value → Value → Bool
  | .number a, .number b => a == b
  | a, b => a == b

end Value

end Treewalk
