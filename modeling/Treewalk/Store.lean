import Treewalk.Store.Frames
import Treewalk.Syntax

/-!
# The store

The store holds everything that a program creates and shares: frames, functions, classes and
instances, each under a number that is never given twice. A function is a declaration with the
frame it was made in; a method that is read off an instance is a new function, whose frame binds
`this` around the frame of its class.
-/

namespace Treewalk

/-- A declaration with the frame it was made in. -/
structure Closure where
  decl : FunctionDecl
  frame : FrameId
  /-- It starts new instances, and yields the instance whatever its body does. -/
  isInitializer : Bool

/-- A class, with the methods that it declares itself. -/
structure Class where
  name : String
  superclass : Option ClassId
  methods : Bindings Closure

/-- An instance, with the fields that were stored in it. -/
structure Instance where
  ofClass : ClassId
  fields : Bindings Value

structure Store where
  frames : Frames
  functions : Array Closure
  classes : Array Class
  instances : Array Instance

namespace Store

def empty : Store := ⟨.empty, #[], #[], #[]⟩

/-- A new frame around no variables or some. -/
def pushFrame (s : Store) (values : Bindings Value) (parent : Option FrameId) : Store :=
  { s with frames := s.frames.push values parent }

def define (s : Store) (f : FrameId) (name : String) (value : Value) : Store :=
  { s with frames := s.frames.define f name value }

def pushFunction (s : Store) (c : Closure) : Store := { s with functions := s.functions.push c }

def pushClass (s : Store) (c : Class) : Store := { s with classes := s.classes.push c }

def pushInstance (s : Store) (i : Instance) : Store := { s with instances := s.instances.push i }

/-- Stores a field of an instance. -/
def setField (s : Store) (i : InstanceId) (name : String) (value : Value) : Store :=
  { s with instances := s.instances.modify i fun x => { x with fields := x.fields.put name value } }

/-- The method that the next `steps` classes from `c` upwards declare first. -/
def searchMethod (s : Store) (name : String) : Nat → ClassId → Option Closure
  | 0, _ => none
  | steps + 1, c =>
    match s.classes[c]? with
    | none => none
    | some cls =>
      match cls.methods.get? name with
      | some method => some method
      | none =>
        match cls.superclass with
        | some above => s.searchMethod name steps above
        | none => none

/-- The method of a class: its own one, or else that of the nearest superclass that has one. A
chain of superclasses that does not run in a circle is no longer than there are classes. -/
def method? (s : Store) (c : ClassId) (name : String) : Option Closure :=
  s.searchMethod name s.classes.size c

/-- What can be called. -/
inductive Callable where
  | clock
  | function (f : Closure)
  /-- A class, with the method that starts its instances. -/
  | cls (id : ClassId) (initializer : Option Closure)

/-- The number of arguments that a call demands. A class demands those of its initializer. -/
def Callable.arity : Callable → Nat
  | .clock => 0
  | .function f => f.decl.params.length
  | .cls _ (some initializer) => initializer.decl.params.length
  | .cls _ none => 0

/-- What a value is called as. -/
def callable? (s : Store) : Value → Option Callable
  | .clock => some .clock
  | .function id => s.functions[id]?.map .function
  | .cls id => if id < s.classes.size then some (.cls id (s.method? id initializerName)) else none
  | _ => none

def functionName (s : Store) (id : FunctionId) : String :=
  (s.functions[id]?.map (·.decl.name.lexeme)).getD ""

def className (s : Store) (id : ClassId) : String := (s.classes[id]?.map (·.name)).getD ""

/-- The name of the class of an instance. -/
def instanceClassName (s : Store) (id : InstanceId) : String :=
  (s.instances[id]?.map fun i => s.className i.ofClass).getD ""

/-- The text of a value, as `print` writes it. -/
def text (s : Store) : Value → String
  | .nil => "nil"
  | .bool true => "true"
  | .bool false => "false"
  | .number value => Number.display value
  | .text value => value
  | .clock => "<native fn>"
  | .function id => "<fn " ++ s.functionName id ++ ">"
  | .cls id => s.className id
  | .object id => s.instanceClassName id ++ " instance"

end Store

end Treewalk
