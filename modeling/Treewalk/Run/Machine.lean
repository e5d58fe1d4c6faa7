import Std.Data.TreeMap
import Treewalk.Operator
import Treewalk.Sink
import Treewalk.Store

/-!
# The state of a run

A `Machine` is all that a program can read or change while it runs. `Run` is a computation on it
that may stop early: at an error of the program, at an output that refuses to take text, or because
the steps it was given are used up. What a run changed before it stopped stays changed.
-/

namespace Treewalk

/-- The distances of references that are not globals. -/
abbrev Distances := Std.TreeMap NodeId Nat

structure Machine where
  store : Store
  /-- The frame of the globals. -/
  globals : FrameId
  /-- The current frame. -/
  env : FrameId
  distances : Distances
  /-- The calls that are in progress. -/
  depth : Nat
  /-- The most calls that may be in progress, if there is a limit. -/
  depthLimit : Option Nat
  sink : Sink
  /-- What the clock shows when it is read for the first time, the second time, and so on. -/
  clock : Nat → Float
  /-- How often the clock has been read. -/
  ticks : Nat

/-- Why a run stops early. -/
inductive Stop where
  | fault (e : RuntimeError)
  | output (message : String)
  /-- The steps it was given are used up. -/
  | exhausted
deriving Repr, DecidableEq

abbrev Run := EStateM Stop Machine

/-- The name of the native function. -/
def clockName : String := "clock"

/-- The most calls that a session lets be in progress. -/
def maxDepth : Nat := 1024

namespace Machine

/-- A machine before its first batch: a global frame that binds the clock. -/
def initial (sink : Sink) (clock : Nat → Float) : Machine where
  store := Store.empty.pushFrame ((∅ : Bindings Value).put clockName .clock) none
  globals := 0
  env := 0
  distances := ∅
  depth := 0
  depthLimit := some maxDepth
  sink := sink
  clock := clock
  ticks := 0

/-- As many calls are in progress as may be. -/
def atDepthLimit (m : Machine) : Bool :=
  match m.depthLimit with
  | some limit => decide (limit ≤ m.depth)
  | none => false

/-- Adds the distances of a batch. -/
def addDistances (m : Machine) (found : List (NodeId × Nat)) : Machine :=
  { m with distances := found.foldl (fun t p => t.insert p.1 p.2) m.distances }

end Machine

namespace Run

/-- Stops at an error of the program. -/
@[inline] def fault {α : Type} (place : Token) (cause : RuntimeError.Cause) : Run α :=
  throw (.fault ⟨cause, place.line⟩)

/-- The value of an operator, or the error laid to its token. -/
@[inline] def ofExcept {α : Type} (place : Token) : Except RuntimeError.Cause α → Run α
  | .ok a => pure a
  | .error cause => fault place cause

/-- Reads something off the state. -/
@[inline] def gets {α : Type} (f : Machine → α) : Run α := fun m => .ok (f m) m

/-- The value of a variable at its distance, or of a global. -/
def readVariable (id : NodeId) (name : Token) : Run Value := fun m =>
  let found := match m.distances.get? id with
    | some distance => m.store.frames.getAt? m.env distance name.lexeme
    | none => m.store.frames.get? m.globals name.lexeme
  match found with
  | some value => .ok value m
  | none => .error (.fault ⟨.undefinedVariable name.lexeme, name.line⟩) m

/-- The frame that an assignment to a variable writes to. -/
def assignedFrame? (m : Machine) (id : NodeId) (name : String) : Option FrameId :=
  match m.distances.get? id with
  | some distance => m.store.frames.ancestor? m.env distance
  | none => (m.store.frames.find? m.globals name).map (·.1)

/-- Binds a name in a frame. -/
def defineIn (f : FrameId) (name : String) (value : Value) : Run Unit := fun m =>
  .ok () { m with store := m.store.define f name value }

/-- Assigns to a variable at its distance, or to a global. -/
def assignVariable (id : NodeId) (name : Token) (value : Value) : Run Unit := do
  match ← gets (assignedFrame? · id name.lexeme) with
  | some f => defineIn f name.lexeme value
  | none => fault name (.undefinedVariable name.lexeme)

/-- Assigns to a name in the first frame that binds it, from the current one outwards. -/
def assignName (name : Token) (value : Value) : Run Unit := do
  match ← gets fun m => (m.store.frames.find? m.env name.lexeme).map (·.1) with
  | some f => defineIn f name.lexeme value
  | none => fault name (.undefinedVariable name.lexeme)

/-- Declares a name in the current frame. -/
def define (name : String) (value : Value) : Run Unit := fun m =>
  .ok () { m with store := m.store.define m.env name value }

/-- A new frame inside another one. -/
def newFrame (parent : FrameId) (values : Bindings Value) : Run FrameId := fun m =>
  .ok m.store.frames.next { m with store := m.store.pushFrame values (some parent) }

def newFunction (c : Closure) : Run Value := fun m =>
  .ok (.function m.store.functions.size) { m with store := m.store.pushFunction c }

def newClass (c : Class) : Run Value := fun m =>
  .ok (.cls m.store.classes.size) { m with store := m.store.pushClass c }

def newInstance (c : ClassId) : Run InstanceId := fun m =>
  .ok m.store.instances.size { m with store := m.store.pushInstance ⟨c, ∅⟩ }

def setField (i : InstanceId) (name : String) (value : Value) : Run Unit := fun m =>
  .ok () { m with store := m.store.setField i name value }

/-- The method bound to an instance: a frame that binds `this` stands around its calls. -/
def bindMethod (method : Closure) (i : InstanceId) : Run Closure := do
  let frame ← newFrame method.frame ((∅ : Bindings Value).put thisName (.object i))
  pure { method with frame }

/-- Runs in another frame, and comes back to the current one however the run ends. -/
@[inline] def inFrame {α : Type} (f : FrameId) (run : Run α) : Run α := fun m =>
  let outer := m.env
  match run { m with env := f } with
  | .ok a m => .ok a { m with env := outer }
  | .error e m => .error e { m with env := outer }

/-- Runs with one more call in progress, unless there are too many already. -/
@[inline] def oneDeeper {α : Type} (paren : Token) (run : Run α) : Run α := fun m =>
  if m.atDepthLimit then .error (.fault ⟨.stackOverflow, paren.line⟩) m
  else
    match run { m with depth := m.depth + 1 } with
    | .ok a m => .ok a { m with depth := m.depth - 1 }
    | .error e m => .error e { m with depth := m.depth - 1 }

/-- The next reading of the clock. -/
def readClock : Run Value := fun m =>
  .ok (.number (m.clock m.ticks)) { m with ticks := m.ticks + 1 }

/-- Writes a piece of text. -/
def write (piece : String) : Run Unit := fun m =>
  match m.sink.refusal m.sink.written piece with
  | some r => .error (.output r.message) { m with sink := m.sink.take (r.beginning piece) }
  | none => .ok () { m with sink := m.sink.take piece }

/-- Writes a value and ends the line. -/
def print (value : Value) : Run Unit := do
  write (← gets (·.store.text value))
  write "\n"

/-- Flushes the output. -/
def flush : Run Unit := fun m =>
  match m.sink.flushRefusal with
  | some message => .error (.output message) m
  | none => .ok () m

end Run

end Treewalk
