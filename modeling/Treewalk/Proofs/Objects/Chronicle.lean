import Treewalk.Proofs.Run.Engine

/-!
# Runs with a chronicle

A machine that keeps a history beside its run: which class statements were executed, what was
stored in the fields of instances, and where function values come from. Functions and environments
carry a `Receiver`: what `this` and `super` of the text refer to there, as fixed when a method is
bound and passed on to the functions declared in its body. Every operation of the run is a moment
on record, with the account that it found. The history is only ever written; the run is that of the
machine.
-/

namespace Treewalk

/-- What the text of a method refers to: the instance that the method is bound to, and the
superclass that its class was declared with. -/
structure Receiver where
  object : InstanceId
  above : Option ClassId

/-- A class statement as it was executed: the class that its superclass named then, its methods,
and the frame that they close over. -/
structure Declaration where
  superclass : Option ClassId
  methods : List FunctionDecl
  frame : FrameId

/-- Where a function value comes from. -/
inductive Origin where
  /-- A function statement, in the body of a method or in none. -/
  | declared (around : Option Receiver)
  /-- A method that was read off an instance, or by way of `super`. -/
  | bound (self : Receiver)

def Origin.receiver? : Origin → Option Receiver
  | .declared around => around
  | .bound self => some self

/-- A value stored in a field. -/
structure Stored where
  object : InstanceId
  name : String
  value : Value

structure History where
  /-- Under the number of each function. -/
  origins : Array Origin
  /-- Under the number of each class. -/
  declarations : Array Declaration
  /-- The last one first. -/
  stores : List Stored

/-- A function with what its text refers to. -/
structure Method where
  closure : Closure
  /-- Its receiver, unless it is in no method or not bound yet. -/
  receiver : Option Receiver
  /-- The superclass that its class was declared with. -/
  above : Option ClassId

/-- The method that a class statement declares under a name: of several the last one. -/
def Declaration.method? (d : Declaration) (name : String) : Option Method :=
  (d.methods.reverse.find? fun decl => decl.name.lexeme == name).map fun decl =>
    ⟨⟨decl, d.frame, decl.isInitializer⟩, none, d.superclass⟩

namespace History

variable (h : History)

def addOrigin (origin : Origin) : History := { h with origins := h.origins.push origin }

def addDeclaration (d : Declaration) : History := { h with declarations := h.declarations.push d }

def addStored (stored : Stored) : History := { h with stores := stored :: h.stores }

/-- The method that the next `steps` classes from `c` upwards declare first. -/
def search (name : String) : Nat → ClassId → Option Method
  | 0, _ => none
  | steps + 1, c =>
    match h.declarations[c]? with
    | none => none
    | some d =>
      match d.method? name with
      | some method => some method
      | none =>
        match d.superclass with
        | some above => search name steps above
        | none => none

def method? (c : ClassId) (name : String) : Option Method := h.search name h.declarations.size c

/-- The value that was stored last under a name in an instance. -/
def lastStored? (i : InstanceId) (name : String) : Option Value :=
  (h.stores.find? fun stored => stored.object == i && stored.name == name).map (·.value)

/-- What the text of a function value refers to. -/
def receiver? : Value → Option Receiver
  | .function f => h.origins[f]?.bind Origin.receiver?
  | _ => none

/-- What is called, with what its text refers to. -/
def describe (value : Value) : Callee Closure → Callee Method
  | .clock => .clock
  | .function f => .function ⟨f, h.receiver? value, none⟩
  | .cls c _ => .cls c (h.method? c initializerName)

/-- What a search for a method comes to, class by class: the method of the nearest class that
declares one, if any does. -/
inductive Nearest (name : String) : ClassId → Option Method → Prop where
  | own {c d method} : h.declarations[c]? = some d → d.method? name = some method →
      Nearest name c (some method)
  | inherited {c d above found} : h.declarations[c]? = some d → d.method? name = none →
      d.superclass = some above → Nearest name above found → Nearest name c found
  | missing {c d} : h.declarations[c]? = some d → d.method? name = none → d.superclass = none →
      Nearest name c none

end History

/-- A machine, what `this` and `super` refer to where it runs, and its history. -/
structure Account where
  machine : Machine
  receiver : Option Receiver
  history : History

/-- What a run is about to do. -/
inductive Doing where
  /-- To read a variable or `this`. -/
  | read (ref : Variable)
  | super (ref : Variable) (method : Token)
  | other

/-- An operation that a run came to, with the account that it found. -/
structure Moment where
  doing : Doing
  account : Account

structure Chronicle where
  now : Account
  /-- The operations so far, the last one first. -/
  moments : List Moment

namespace Chronicle

/-- Every account that a run had, the last one first. -/
def accounts (k : Chronicle) : List Account := k.now :: k.moments.map (·.account)

abbrev Chronicling (α : Type) := EStateM Stop Chronicle α

/-- Runs on the machine, with nothing to write down. -/
def lift {α : Type} (run : Run α) : Chronicling α := fun k =>
  match run k.now.machine with
  | .ok a machine => .ok a { k with now := { k.now with machine } }
  | .error stop machine => .error stop { k with now := { k.now with machine } }

/-- Writes down a moment. -/
def note (doing : Doing) : Chronicling Unit := fun k =>
  .ok () { k with moments := ⟨doing, k.now⟩ :: k.moments }

def record (write : History → History) : Chronicling Unit := fun k =>
  .ok () { k with now := { k.now with history := write k.now.history } }

def consult {α : Type} (f : Account → α) : Chronicling α := fun k => .ok (f k.now) k

def bindMethod (method : Method) (i : InstanceId) : Chronicling Method := do
  let closure ← lift (Run.bindMethod method.closure i)
  pure { method with closure, receiver := some ⟨i, method.above⟩ }

/-- A method that is read off an instance is a new function. -/
def newMethod (method : Method) (i : InstanceId) : Chronicling Value := do
  let bound ← bindMethod method i
  record fun h => h.addOrigin (.bound ⟨i, method.above⟩)
  lift (Run.newFunction bound.closure)

def readProperty (i : InstanceId) (name : Token) : Chronicling Value := do
  let found ← lift <| Run.gets fun m =>
    m.store.instances[i]?.map fun x => (x.fields.get? name.lexeme, x.ofClass)
  match found with
  | some (some value, _) => pure value
  | some (none, c) =>
    match ← consult (·.history.method? c name.lexeme) with
    | some method => newMethod method i
    | none => lift (Run.fault name (.undefinedProperty name.lexeme))
  | none => lift (Run.fault name (.undefinedProperty name.lexeme))

def readSuper (id : NodeId) (keyword method : Token) : Chronicling Value := do
  match ← lift (Run.gets (·.distances.get? id)) with
  | none => lift (Run.fault keyword .unresolvedSuper)
  | some distance =>
    match ← lift (Run.gets fun m => m.store.frames.getAt? m.env distance superName) with
    | some (.cls c) =>
      let this ← lift <| Run.gets fun m =>
        if distance = 0 then none else m.store.frames.getAt? m.env (distance - 1) thisName
      match this with
      | some (.object i) =>
        match ← consult (·.history.method? c method.lexeme) with
        | some found => newMethod found i
        | none => lift (Run.fault method (.undefinedProperty method.lexeme))
      | _ => lift (Run.fault keyword .unresolvedThis)
    | _ => lift (Run.fault keyword .unresolvedSuper)

def declareFunction (decl : FunctionDecl) : Chronicling Unit := do
  let around ← consult (·.receiver)
  record fun h => h.addOrigin (.declared around)
  lift (Platform.machine.declareFunction decl)

def declareClass (name : Token) (superclass : Option Variable) (methods : List FunctionDecl) :
    Chronicling Unit := do
  lift (Run.define name.lexeme .nil)
  let above ← match superclass with
    | none => pure none
    | some ref => some <$> lift (Run.readSuperclass ref)
  let outer ← lift (Run.gets (·.env))
  let frame ← match above with
    | none => pure outer
    | some c => lift (Run.newFrame outer ((∅ : Bindings Value).put superName (.cls c)))
  let closures := methods.map fun decl =>
    (decl.name.lexeme, Closure.mk decl frame decl.isInitializer)
  record fun h => h.addDeclaration ⟨above, methods, frame⟩
  let made ← lift (Run.newClass ⟨name.lexeme, above, Bindings.ofList closures⟩)
  lift (Run.assignName name made)

def setField (i : InstanceId) (name : String) (value : Value) : Chronicling Unit := do
  record fun h => h.addStored ⟨i, name, value⟩
  lift (Run.setField i name value)

def callee? (value : Value) : Chronicling (Option (Callee Method)) := do
  let found ← lift (Platform.machine.callee? value)
  let h ← consult (·.history)
  pure (found.map (h.describe value))

/-- A call that changes how many are in progress. -/
def atDepth (k : Chronicle) (depth : Nat) : Chronicle :=
  { k with now := { k.now with machine := { k.now.machine with depth } } }

def oneDeeper {α : Type} (paren : Token) (run : Chronicling α) : Chronicling α := fun k =>
  if k.now.machine.atDepthLimit then .error (.fault ⟨.stackOverflow, paren.line⟩) k
  else
    match run (k.atDepth (k.now.machine.depth + 1)) with
    | .ok a k => .ok a (k.atDepth (k.now.machine.depth - 1))
    | .error e k => .error e (k.atDepth (k.now.machine.depth - 1))

/-- Runs an operation as a moment of its own. -/
def moment {α : Type} (doing : Doing) (run : Chronicling α) : Chronicling α := do
  note doing
  run

/-- An operation that writes nothing down but its moment. -/
def plain {α : Type} (run : Run α) : Chronicling α := moment .other (lift run)

/-- The machine with its chronicle as a platform. -/
@[reducible]
def platform : Platform where
  State := Chronicle
  Env := FrameId × Option Receiver
  Code := Method
  env k := (k.now.machine.env, k.now.receiver)
  setEnv e k := { k with now := { k.now with
    machine := { k.now.machine with env := e.1 }
    receiver := e.2 } }
  decl f := f.closure.decl
  isInitializer f := f.closure.isInitializer
  read id name := moment (.read ⟨id, name⟩) (lift (Run.readVariable id name))
  assign id name value := plain (Run.assignVariable id name value)
  readSuper id keyword method := moment (.super ⟨id, keyword⟩ method) (readSuper id keyword method)
  readProperty i name := moment .other (readProperty i name)
  setField i name value := moment .other (setField i name value)
  callee? value := moment .other (callee? value)
  oneDeeper := oneDeeper
  readClock := plain Run.readClock
  newInstance c := plain (Run.newInstance c)
  bindMethod f i := moment .other (bindMethod f i)
  enterCall f arguments := do
    let frame ← plain (Platform.machine.enterCall f.closure arguments)
    pure (frame, f.receiver)
  receiver f := plain (Platform.machine.receiver f.closure)
  enterBlock body := do
    let frame ← plain (Platform.machine.enterBlock body)
    let around ← consult (·.receiver)
    pure (frame, around)
  declareFunction decl := moment .other (declareFunction decl)
  declareClass name superclass methods := moment .other (declareClass name superclass methods)
  announce _ := pure ()
  define name value := plain (Run.define name value)
  print value := plain (Run.print value)
  flush := plain Run.flush

end Chronicle

/-- The machine with its chronicle as an engine. -/
@[reducible]
def Engine.chronicle : Engine where
  toPlatform := Chronicle.platform
  load c k := { k with now := { k.now with machine := k.now.machine.addDistances c.distances } }

namespace Chronicle

/-- Before the first batch. -/
def initial (sink : Sink) (clock : Nat → Float) : Chronicle where
  now := ⟨.initial sink clock, none, ⟨#[], #[], []⟩⟩
  moments := []

/-- The chronicle of a session that runs batches in order from its start on. -/
def runAll (sink : Sink) (clock : Nat → Float) (batches : List (Nat × List UInt8)) :
    List (Except Failure Unit) × Engine.chronicle.Session :=
  Engine.Session.runAll ⟨initial sink clock, 0⟩ batches

end Chronicle

end Treewalk
