import Treewalk.Store
import Treewalk.Text.Json

/-!
# Summaries of objects

What a function, a class or an instance consists of, in one line. Names stand in quotes; methods
and fields are sorted and shown without their values, so a summary always ends.
-/

namespace Treewalk.Store

/-- Names in quotes between brackets, sorted. -/
def nameList (names : List String) : String :=
  let sorted := names.mergeSort fun a b => decide (a ≤ b)
  "[" ++ String.intercalate ", " (sorted.map Json.quote) ++ "]"

def functionSummary (c : Closure) : String :=
  "LoxFunction \x7b name: " ++ Json.quote c.decl.name.lexeme ++ ", arity: " ++
    Nat.repr c.decl.params.length ++ ", is_initializer: " ++
    (if c.isInitializer then "true" else "false") ++ " \x7d"

def classSummary (s : Store) (c : Class) : String :=
  let superclass := match c.superclass with
    | some above => "Some(" ++ Json.quote (s.className above) ++ ")"
    | none => "None"
  "LoxClass \x7b name: " ++ Json.quote c.name ++ ", superclass: " ++ superclass ++ ", methods: " ++
    nameList c.methods.names ++ " \x7d"

def instanceSummary (s : Store) (i : Instance) : String :=
  "LoxInstance \x7b class: " ++ Json.quote (s.className i.ofClass) ++ ", fields: " ++
    nameList i.fields.names ++ " \x7d"

/-- The summary of an object; constants and the native function have none. -/
def summary? (s : Store) : Value → Option String
  | .function id => s.functions[id]?.map functionSummary
  | .cls id => s.classes[id]?.map s.classSummary
  | .object id => s.instances[id]?.map s.instanceSummary
  | _ => none

end Treewalk.Store
