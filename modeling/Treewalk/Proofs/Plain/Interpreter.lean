import Treewalk.Proofs.Run.Engine

/-!
# A plain interpreter

Lexical scoping as a book would define it. An environment is an immutable list of names with the
cells of their variables; a declaration extends it with a new cell, and a function keeps the one it
was declared in. There are no frames, no distances and no table: a name is looked for in the
environment, and otherwise among the globals.
-/

namespace Treewalk

namespace Plain

/-- The number of a cell, which holds the value of one variable. -/
abbrev CellId := Nat

/-- Names with their cells; of two entries for a name the first counts. -/
abbrev Names := List (String × CellId)

/-- What the names of a place mean. At the top level all are globals. -/
abbrev Env := Option Names

/-- A declaration with the environment that it was made in. -/
structure Closure where
  decl : FunctionDecl
  env : Env
  isInitializer : Bool

structure Class where
  name : String
  superclass : Option ClassId
  methods : Bindings Closure

structure State where
  cells : Array Value
  globals : Bindings Value
  functions : Array Closure
  classes : Array Class
  instances : Array Instance
  env : Env
  depth : Nat
  depthLimit : Option Nat
  sink : Sink
  clock : Nat → Float
  ticks : Nat

namespace State

def initial (sink : Sink) (clock : Nat → Float) : State where
  cells := #[]
  globals := (∅ : Bindings Value).put clockName .clock
  functions := #[]
  classes := #[]
  instances := #[]
  env := none
  depth := 0
  depthLimit := some maxDepth
  sink := sink
  clock := clock
  ticks := 0

/-- The cell of a name, if it is not a global. -/
def cell? (s : State) (name : String) : Option CellId := (s.env.getD []).lookup name

/-- The value of a variable. -/
def lookup? (s : State) (name : String) : Option Value :=
  match s.cell? name with
  | some cell => some (s.cells[cell]?.getD .nil)
  | none => s.globals.get? name

/-- The first method of this name in the next `steps` classes from `c` upwards. -/
def searchMethod (s : State) (name : String) : Nat → ClassId → Option Closure
  | 0, _ => none
  | steps + 1, c =>
    match s.classes[c]? with
    | none => none
    | some cls =>
      match cls.methods.get? name with
      | some method => some method
      | none =>
        match cls.superclass with
        | some above => s.searchMethod name steps above
        | none => none

def method? (s : State) (c : ClassId) (name : String) : Option Closure :=
  s.searchMethod name s.classes.size c

def callee? (s : State) : Value → Option (Callee Closure)
  | .clock => some .clock
  | .function id => s.functions[id]?.map .function
  | .cls id => if id < s.classes.size then some (.cls id (s.method? id initializerName)) else none
  | _ => none

def className (s : State) (id : ClassId) : String := (s.classes[id]?.map (·.name)).getD ""

/-- The text of a value, as `print` writes it. -/
def text (s : State) : Value → String
  | .nil => "nil"
  | .bool true => "true"
  | .bool false => "false"
  | .number value => Number.display value
  | .text value => value
  | .clock => "<native fn>"
  | .function id => "<fn " ++ (s.functions[id]?.map (·.decl.name.lexeme)).getD "" ++ ">"
  | .cls id => s.className id
  | .object id => (s.instances[id]?.map fun i => s.className i.ofClass).getD "" ++ " instance"

/-- As many calls are in progress as may be. -/
def atDepthLimit (s : State) : Bool :=
  match s.depthLimit with
  | some limit => decide (limit ≤ s.depth)
  | none => false

end State

abbrev Action (α : Type) := EStateM Stop State α

def fault {α : Type} (place : Token) (cause : RuntimeError.Cause) : Action α :=
  throw (.fault ⟨cause, place.line⟩)

def gets {α : Type} (f : State → α) : Action α := fun s => .ok (f s) s

def newCell (value : Value) : Action CellId := fun s =>
  .ok s.cells.size { s with cells := s.cells.push value }

def setCell (cell : CellId) (value : Value) : Action Unit := fun s =>
  .ok () { s with cells := s.cells.setIfInBounds cell value }

def setGlobal (name : String) (value : Value) : Action Unit := fun s =>
  .ok () { s with globals := s.globals.put name value }

/-- An environment with more variables, each in a new cell. -/
def extend (names : Names) : List (String × Value) → Action Names
  | [] => pure names
  | (name, value) :: rest => do
    let cell ← newCell value
    extend ((name, cell) :: names) rest

/-- Extends the environment with a variable; at the top level nothing needs to be done. -/
def announce (name : String) : Action Unit := do
  match ← gets (·.env) with
  | none => pure ()
  | some names =>
    let names ← extend names [(name, .nil)]
    modify fun s => { s with env := some names }

/-- Gives the variable that was announced its value. -/
def define (name : String) (value : Value) : Action Unit := do
  match ← gets (·.env) with
  | none => setGlobal name value
  | some names =>
    match names.lookup name with
    | some cell => setCell cell value
    | none => pure ()

def read (name : Token) : Action Value := do
  match ← gets (·.lookup? name.lexeme) with
  | some value => pure value
  | none => fault name (.undefinedVariable name.lexeme)

/-- Assigns to a variable in the environment, or else to a global that is defined. -/
def assign (name : Token) (value : Value) : Action Unit := do
  match ← gets (·.cell? name.lexeme) with
  | some cell => setCell cell value
  | none =>
    if ← gets (·.globals.binds name.lexeme) then setGlobal name.lexeme value
    else fault name (.undefinedVariable name.lexeme)

def newFunction (f : Closure) : Action Value := fun s =>
  .ok (.function s.functions.size) { s with functions := s.functions.push f }

def newClass (c : Class) : Action Value := fun s =>
  .ok (.cls s.classes.size) { s with classes := s.classes.push c }

def newInstance (c : ClassId) : Action InstanceId := fun s =>
  .ok s.instances.size { s with instances := s.instances.push ⟨c, ∅⟩ }

def setField (i : InstanceId) (name : String) (value : Value) : Action Unit := fun s =>
  .ok () { s with instances :=
    s.instances.modify i fun x => { x with fields := x.fields.put name value } }

/-- The method in an environment with `this`. -/
def bindMethod (method : Closure) (i : InstanceId) : Action Closure := do
  let names ← extend (method.env.getD []) [(thisName, .object i)]
  pure { method with env := some names }

def readProperty (i : InstanceId) (name : Token) : Action Value := do
  let found ← gets fun s => s.instances[i]?.map fun x => (x.fields.get? name.lexeme, x.ofClass)
  match found with
  | some (some value, _) => pure value
  | some (none, c) =>
    match ← gets (·.method? c name.lexeme) with
    | some method => newFunction (← bindMethod method i)
    | none => fault name (.undefinedProperty name.lexeme)
  | none => fault name (.undefinedProperty name.lexeme)

/-- `super` and `this` are looked for by name like any other variables. -/
def readSuper (keyword method : Token) : Action Value := do
  match ← gets (·.lookup? superName) with
  | some (.cls c) =>
    match ← gets (·.lookup? thisName) with
    | some (.object i) =>
      match ← gets (·.method? c method.lexeme) with
      | some found => newFunction (← bindMethod found i)
      | none => fault method (.undefinedProperty method.lexeme)
    | _ => fault keyword .unresolvedThis
  | _ => fault keyword .unresolvedSuper

/-- Declares a function, which sees itself. -/
def declareFunction (decl : FunctionDecl) : Action Unit := do
  announce decl.name.lexeme
  let f ← newFunction ⟨decl, ← gets (·.env), false⟩
  define decl.name.lexeme f

def readSuperclass (superclass : Variable) : Action ClassId := do
  match ← read superclass.name with
  | .cls c => pure c
  | _ => fault superclass.name .superclassNotClass

/-- Declares a class, which sees itself; the methods of a class with a superclass see `super`. -/
def declareClass (name : Token) (superclass : Option Variable) (methods : List FunctionDecl) :
    Action Unit := do
  announce name.lexeme
  define name.lexeme .nil
  let above ← match superclass with
    | none => pure none
    | some ref => some <$> readSuperclass ref
  let outer ← gets (·.env)
  let env ← match above with
    | none => pure outer
    | some c => some <$> extend (outer.getD []) [(superName, .cls c)]
  let closures := methods.map fun decl =>
    (decl.name.lexeme, Closure.mk decl env decl.isInitializer)
  define name.lexeme (← newClass ⟨name.lexeme, above, Bindings.ofList closures⟩)

def oneDeeper {α : Type} (paren : Token) (run : Action α) : Action α := fun s =>
  if s.atDepthLimit then .error (.fault ⟨.stackOverflow, paren.line⟩) s
  else
    match run { s with depth := s.depth + 1 } with
    | .ok a s => .ok a { s with depth := s.depth - 1 }
    | .error e s => .error e { s with depth := s.depth - 1 }

def write (piece : String) : Action Unit := fun s =>
  match s.sink.refusal s.sink.written piece with
  | some r => .error (.output r.message) { s with sink := s.sink.take (r.beginning piece) }
  | none => .ok () { s with sink := s.sink.take piece }

def print (value : Value) : Action Unit := do
  write (← gets (·.text value))
  write "\n"

def flush : Action Unit := fun s =>
  match s.sink.flushRefusal with
  | some message => .error (.output message) s
  | none => .ok () s

def readClock : Action Value := fun s =>
  .ok (.number (s.clock s.ticks)) { s with ticks := s.ticks + 1 }

/-- The plain interpreter as a platform. -/
@[reducible]
def platform : Platform where
  State := State
  Env := Env
  Code := Closure
  env := State.env
  setEnv env s := { s with env }
  decl := Closure.decl
  isInitializer := Closure.isInitializer
  read _ name := read name
  assign _ name value := assign name value
  readSuper _ keyword method := readSuper keyword method
  readProperty := readProperty
  setField := setField
  callee? value := gets (·.callee? value)
  oneDeeper := oneDeeper
  readClock := readClock
  newInstance := newInstance
  bindMethod := bindMethod
  enterCall f arguments :=
    some <$> extend (f.env.getD []) ((f.decl.params.map (·.lexeme)).zip arguments)
  receiver f := gets fun s => (({ s with env := f.env } : State).lookup? thisName).getD .nil
  enterBlock _ := gets fun s => some (s.env.getD [])
  declareFunction := declareFunction
  declareClass := declareClass
  announce := announce
  define := define
  print := print
  flush := flush

theorem platform_env_setEnv (env : Env) (s : State) : platform.env (platform.setEnv env s) = env :=
  rfl

end Plain

/-- The plain interpreter as an engine; it has no use for distances. -/
@[reducible]
def Engine.plain : Engine where
  toPlatform := Plain.platform
  load _ s := s

/-- A session on the plain interpreter that runs batches in order from its start on. -/
def Plain.runAll (sink : Sink) (clock : Nat → Float) (batches : List (Nat × List UInt8)) :
    List (Except Failure Unit) × Engine.plain.Session :=
  Engine.Session.runAll ⟨.initial sink clock, 0⟩ batches

end Treewalk
