import Treewalk.Proofs.Run.Engine
import Treewalk.Proofs.Scope.Context

/-!
# Recorded runs

A machine that keeps a record beside its run: for each frame the scope of the text that it was made
for, and at each use of a variable, of `this` or of `super` the machine as the use found it. The
record is only ever written; the run is that of the machine.
-/

namespace Treewalk

/-- A use that a run came to, with what it found. -/
structure Point where
  ref : Variable
  machine : Machine
  /-- The scope that a frame was made for, if it was made for one. -/
  siteOf : FrameId → Option Site

/-- A machine with its record. -/
structure Recorder where
  machine : Machine
  siteOf : FrameId → Option Site
  /-- The uses so far, the last one first. -/
  points : List Point
  /-- The programs that were run, the last one first. -/
  programs : List (List Stmt)

namespace Recorder

abbrev Recording (α : Type) := EStateM Stop Recorder α

/-- Runs on the machine, with nothing to record. -/
def lift {α : Type} (run : Run α) : Recording α := fun r =>
  match run r.machine with
  | .ok a machine => .ok a { r with machine }
  | .error stop machine => .error stop { r with machine }

/-- Records a use. -/
def visit (ref : Variable) : Recording Unit := fun r =>
  .ok () { r with points := ⟨ref, r.machine, r.siteOf⟩ :: r.points }

/-- Records the scope of a frame. -/
def mark (f : FrameId) (site : Site) : Recording Unit := fun r =>
  .ok () { r with siteOf := fun g => if g = f then some site else r.siteOf g }

/-- A new frame for a scope. -/
def openFrame (site : Site) (parent : FrameId) (values : Bindings Value) : Recording FrameId := do
  let frame ← lift (Run.newFrame parent values)
  mark frame site
  pure frame

def bindMethod (method : Closure) (i : InstanceId) : Recording Closure := do
  let frame ← openFrame (.this method.decl) method.frame
    ((∅ : Bindings Value).put thisName (.object i))
  pure { method with frame }

def readProperty (i : InstanceId) (name : Token) : Recording Value := do
  let found ← lift <| Run.gets fun m =>
    m.store.instances[i]?.map fun x => (x.fields.get? name.lexeme, x.ofClass)
  match found with
  | some (some value, _) => pure value
  | some (none, c) =>
    match ← lift (Run.gets (·.store.method? c name.lexeme)) with
    | some method => do
      let bound ← bindMethod method i
      lift (Run.newFunction bound)
    | none => lift (Run.fault name (.undefinedProperty name.lexeme))
  | none => lift (Run.fault name (.undefinedProperty name.lexeme))

/-- `Run.readSuper` with its use and the frame of the bound method on record. -/
def readSuper (id : NodeId) (keyword method : Token) : Recording Value := do
  visit ⟨id, keyword⟩
  match ← lift (Run.gets (·.distances.get? id)) with
  | none => lift (Run.fault keyword .unresolvedSuper)
  | some distance =>
    match ← lift (Run.gets fun m => m.store.frames.getAt? m.env distance superName) with
    | some (.cls c) =>
      let this ← lift <| Run.gets fun m =>
        if distance = 0 then none else m.store.frames.getAt? m.env (distance - 1) thisName
      match this with
      | some (.object i) =>
        match ← lift (Run.gets (·.store.method? c method.lexeme)) with
        | some found => do
          let bound ← bindMethod found i
          lift (Run.newFunction bound)
        | none => lift (Run.fault method (.undefinedProperty method.lexeme))
      | _ => lift (Run.fault keyword .unresolvedThis)
    | _ => lift (Run.fault keyword .unresolvedSuper)

def declareClass (name : Token) (superclass : Option Variable) (methods : List FunctionDecl) :
    Recording Unit := do
  lift (Run.define name.lexeme .nil)
  let above ← match superclass with
    | none => pure none
    | some ref => do
      visit ref
      let c ← lift (Run.readSuperclass ref)
      pure (some (ref, c))
  let outer ← lift (Run.gets (·.env))
  let frame ← match above with
    | none => pure outer
    | some (ref, c) =>
      openFrame (.super name ref methods) outer ((∅ : Bindings Value).put superName (.cls c))
  let closures := methods.map fun decl =>
    (decl.name.lexeme, Closure.mk decl frame decl.isInitializer)
  let made ← lift (Run.newClass ⟨name.lexeme, above.map (·.2), Bindings.ofList closures⟩)
  lift (Run.assignName name made)

def oneDeeper {α : Type} (paren : Token) (run : Recording α) : Recording α := fun r =>
  if r.machine.atDepthLimit then .error (.fault ⟨.stackOverflow, paren.line⟩) r
  else
    match run { r with machine := { r.machine with depth := r.machine.depth + 1 } } with
    | .ok a r => .ok a { r with machine := { r.machine with depth := r.machine.depth - 1 } }
    | .error e r => .error e { r with machine := { r.machine with depth := r.machine.depth - 1 } }

/-- The machine with its record as a platform. -/
@[reducible]
def platform : Platform where
  State := Recorder
  Env := FrameId
  Code := Closure
  env r := r.machine.env
  setEnv f r := { r with machine := { r.machine with env := f } }
  decl := Closure.decl
  isInitializer := Closure.isInitializer
  read id name := do
    visit ⟨id, name⟩
    lift (Run.readVariable id name)
  assign id name value := do
    visit ⟨id, name⟩
    lift (Run.assignVariable id name value)
  readSuper := readSuper
  readProperty := readProperty
  setField i name value := lift (Run.setField i name value)
  callee? value := lift (Platform.machine.callee? value)
  oneDeeper := oneDeeper
  readClock := lift Run.readClock
  newInstance c := lift (Run.newInstance c)
  bindMethod := bindMethod
  enterCall f arguments := openFrame (.function f.decl) f.frame (f.decl.bindArguments arguments)
  receiver f := lift (Platform.machine.receiver f)
  enterBlock body := do
    let outer ← lift (Run.gets (·.env))
    openFrame (.block body) outer ∅
  declareFunction decl := lift (Platform.machine.declareFunction decl)
  declareClass := declareClass
  announce _ := pure ()
  define name value := lift (Run.define name value)
  print value := lift (Run.print value)
  flush := lift Run.flush

end Recorder

/-- The machine with its record as an engine. -/
@[reducible]
def Engine.recorder : Engine where
  toPlatform := Recorder.platform
  load c r := { r with
    machine := r.machine.addDistances c.distances
    programs := c.program :: r.programs }

namespace Recorder

/-- Before the first batch. -/
def initial (sink : Sink) (clock : Nat → Float) : Recorder :=
  ⟨.initial sink clock, fun _ => none, [], []⟩

/-- The record of a session that runs batches in order from its start on. -/
def runAll (sink : Sink) (clock : Nat → Float) (batches : List (Nat × List UInt8)) :
    List (Except Failure Unit) × Engine.recorder.Session :=
  Engine.Session.runAll ⟨initial sink clock, 0⟩ batches

end Recorder

end Treewalk
