import Treewalk.Run.Evaluate

/-!
# Platforms

The evaluator apart from what it runs on. A `Platform` is a state with the operations that touch
it: variables, frames, functions, classes, instances, the clock and the output. What is left of the
evaluator is the order of evaluation, the same on every platform; on `Platform.machine` it is the
evaluator of programs.
-/

namespace Treewalk

open Run

/-- What a call finds: the clock, a function, or a class with the method that starts instances. -/
inductive Callee (Code : Type) where
  | clock
  | function (f : Code)
  | cls (id : ClassId) (initializer : Option Code)

structure Platform where
  State : Type
  /-- What names mean at a place. -/
  Env : Type
  /-- A function with the environment that it was made in. -/
  Code : Type
  env : State → Env
  setEnv : Env → State → State
  decl : Code → FunctionDecl
  isInitializer : Code → Bool
  /-- The value of a variable, or of `this`. -/
  read : NodeId → Token → EStateM Stop State Value
  assign : NodeId → Token → Value → EStateM Stop State Unit
  readSuper : NodeId → Token → Token → EStateM Stop State Value
  readProperty : InstanceId → Token → EStateM Stop State Value
  setField : InstanceId → String → Value → EStateM Stop State Unit
  callee? : Value → EStateM Stop State (Option (Callee Code))
  oneDeeper : Token → EStateM Stop State Value → EStateM Stop State Value
  readClock : EStateM Stop State Value
  newInstance : ClassId → EStateM Stop State InstanceId
  bindMethod : Code → InstanceId → EStateM Stop State Code
  /-- The environment for a call with these arguments. -/
  enterCall : Code → List Value → EStateM Stop State Env
  /-- The instance that an initializer is bound to. -/
  receiver : Code → EStateM Stop State Value
  /-- The environment for a block. -/
  enterBlock : List Stmt → EStateM Stop State Env
  declareFunction : FunctionDecl → EStateM Stop State Unit
  declareClass : Token → Option Variable → List FunctionDecl → EStateM Stop State Unit
  /-- What happens to the name of a variable before its initializer is evaluated. -/
  announce : String → EStateM Stop State Unit
  define : String → Value → EStateM Stop State Unit
  print : Value → EStateM Stop State Unit
  flush : EStateM Stop State Unit

namespace Platform

variable (P : Platform)

abbrev Action (α : Type) := EStateM Stop P.State α

/-- Stops at an error of the program. -/
def fault {α : Type} (place : Token) (cause : RuntimeError.Cause) : P.Action α :=
  throw (.fault ⟨cause, place.line⟩)

/-- The value of an operator, or the error laid to its token. -/
def ofExcept {α : Type} (place : Token) : Except RuntimeError.Cause α → P.Action α
  | .ok a => pure a
  | .error cause => P.fault place cause

/-- Runs in another environment, and comes back however the run ends. -/
def within {α : Type} (e : P.Env) (run : P.Action α) : P.Action α := fun s =>
  match run (P.setEnv e s) with
  | .ok a s' => .ok a (P.setEnv (P.env s) s')
  | .error stop s' => .error stop (P.setEnv (P.env s) s')

/-- Runs statements in order up to the first that returns. -/
def inOrder {α : Type} (step : α → P.Action Flow) : List α → P.Action Flow
  | [] => pure .normal
  | a :: rest => do
    match ← step a with
    | .normal => inOrder step rest
    | .returned value => pure (.returned value)

/-- The number of arguments that a call demands. -/
def arity : Callee P.Code → Nat
  | .clock => 0
  | .function f => (P.decl f).params.length
  | .cls _ (some initializer) => (P.decl initializer).params.length
  | .cls _ none => 0

mutual

def evaluate : Nat → Expr → P.Action Value
  | 0, _ => throw .exhausted
  | n + 1, e =>
    match e with
    | .sequence items => do
      let values ← items.mapM (evaluate n)
      pure (values.getLast?.getD .nil)
    | .assign id name value => do
      let value ← evaluate n value
      P.assign id name value
      pure value
    | .binary left operator right => do
      let left ← evaluate n left
      let right ← evaluate n right
      P.ofExcept operator (binaryOperator operator.kind left right)
    | .call callee paren arguments => do
      let callee ← evaluate n callee
      let values ← arguments.mapM (evaluate n)
      callValue n callee paren values
    | .get object name => do
      match ← evaluate n object with
      | .object i => P.readProperty i name
      | _ => P.fault name .noProperties
    | .grouping inner => evaluate n inner
    | .constant value => pure value.value
    | .logical left operator right => do
      let left ← evaluate n left
      if left.truthy = (operator.kind == .kwOr) then pure left
      else evaluate n right
    | .set object name value => do
      match ← evaluate n object with
      | .object i =>
        let value ← evaluate n value
        P.setField i name.lexeme value
        pure value
      | _ => P.fault name .noFields
    | .super id keyword method => P.readSuper id keyword method
    | .this id keyword => P.read id keyword
    | .unary operator right => do
      let right ← evaluate n right
      P.ofExcept operator (unaryOperator operator.kind right)
    | .read ref => P.read ref.id ref.name

def callValue : Nat → Value → Token → List Value → P.Action Value
  | 0, _, _, _ => throw .exhausted
  | n + 1, callee, paren, arguments => do
    match ← P.callee? callee with
    | none => P.fault paren .notCallable
    | some callee =>
      if arguments.length ≠ P.arity callee then
        P.fault paren (.wrongArity (P.arity callee) arguments.length)
      else
        P.oneDeeper paren do
          match callee with
          | .clock => P.readClock
          | .function f => invoke n f arguments
          | .cls c initializer =>
            let i ← P.newInstance c
            match initializer with
            | none => pure (.object i)
            | some method =>
              let bound ← P.bindMethod method i
              let _ ← invoke n bound arguments
              pure (.object i)

def invoke : Nat → P.Code → List Value → P.Action Value
  | 0, _, _ => throw .exhausted
  | n + 1, f, arguments => do
    let e ← P.enterCall f arguments
    let flow ← P.within e (P.inOrder (execute n) (P.decl f).body)
    if P.isInitializer f then P.receiver f
    else
      match flow with
      | .normal => pure .nil
      | .returned value => pure value

def declareVariable : Nat → VarDecl → P.Action Flow
  | 0, _ => throw .exhausted
  | n + 1, decl => do
    P.announce decl.name.lexeme
    let value ← match decl.initializer with
      | none => pure .nil
      | some e => evaluate n e
    P.define decl.name.lexeme value
    pure .normal

def execute : Nat → Stmt → P.Action Flow
  | 0, _ => throw .exhausted
  | n + 1, s =>
    match s with
    | .block body => do
      let e ← P.enterBlock body
      P.within e (P.inOrder (execute n) body)
    | .classDecl name superclass methods => do
      P.declareClass name superclass methods
      pure .normal
    | .expression value => do
      let _ ← evaluate n value
      pure .normal
    | .function decl => do
      P.declareFunction decl
      pure .normal
    | .branch condition thenBranch elseBranch => do
      if (← evaluate n condition).truthy then execute n thenBranch
      else
        match elseBranch with
        | some elseBranch => execute n elseBranch
        | none => pure .normal
    | .print value => do
      P.print (← evaluate n value)
      pure .normal
    | .ret _ value => do
      match value with
      | none => pure (.returned .nil)
      | some e => .returned <$> evaluate n e
    | .var decl => declareVariable n decl
    | .varList decls => P.inOrder (declareVariable n) decls
    | .loop condition body => repeatWhile n condition body

def repeatWhile : Nat → Expr → Stmt → P.Action Flow
  | 0, _, _ => throw .exhausted
  | n + 1, condition, body => do
    if (← evaluate n condition).truthy then
      match ← execute n body with
      | .normal => repeatWhile n condition body
      | .returned value => pure (.returned value)
    else pure .normal

end

/-- The statements of a batch; one that returns only ends itself. -/
def executeAll (steps : Nat) (program : List Stmt) : P.Action Unit :=
  program.forM fun s => discard (P.execute steps s)

/-- Runs a batch. The output is flushed at the end, also after an error, and a flush that fails is
the error then. -/
def interpret (steps : Nat) (program : List Stmt) : P.Action Unit := fun s =>
  match P.executeAll steps program s with
  | .ok _ s' => P.flush s'
  | .error .exhausted s' => .error .exhausted s'
  | .error e s' => (do P.flush; throw e : P.Action Unit) s'

end Platform

/-- What the store says can be called. -/
def Store.Callable.callee : Store.Callable → Callee Closure
  | .clock => .clock
  | .function f => .function f
  | .cls id initializer => .cls id initializer

/-- The machine that programs run on. -/
@[reducible]
def Platform.machine : Platform where
  State := Machine
  Env := FrameId
  Code := Closure
  env := Machine.env
  setEnv f m := { m with env := f }
  decl := Closure.decl
  isInitializer := Closure.isInitializer
  read := readVariable
  assign := assignVariable
  readSuper := Run.readSuper
  readProperty := Run.readProperty
  setField := Run.setField
  callee? value := gets fun m => (m.store.callable? value).map Store.Callable.callee
  oneDeeper := Run.oneDeeper
  readClock := Run.readClock
  newInstance := Run.newInstance
  bindMethod := Run.bindMethod
  enterCall f arguments := newFrame f.frame (f.decl.bindArguments arguments)
  receiver f := do pure ((← gets fun m => m.store.frames.getAt? f.frame 0 thisName).getD .nil)
  enterBlock _ := do newFrame (← gets (·.env)) ∅
  declareFunction decl := do
    let f ← newFunction ⟨decl, ← gets (·.env), false⟩
    Run.define decl.name.lexeme f
  declareClass := Run.declareClass
  announce _ := pure ()
  define := Run.define
  print := Run.print
  flush := Run.flush

namespace Platform

theorem machine_env_setEnv (f : FrameId) (m : Machine) : machine.env (machine.setEnv f m) = f := rfl

theorem inOrder_machine {α : Type} (step : α → machine.Action Flow) (xs : List α) :
    machine.inOrder step xs = Run.inOrder step xs := by
  induction xs with
  | nil => rfl
  | cons x xs ih =>
    rw [Platform.inOrder, ih]
    rfl

theorem within_machine {α : Type} (f : FrameId) (run : Treewalk.Run α) :
    machine.within f run = inFrame f run := by
  funext m
  unfold within inFrame
  have inside : machine.setEnv f m = { m with env := f } := rfl
  rw [inside]
  cases run { m with env := f } <;> rfl

/-- The evaluator of programs is the one on the machine, at every number of steps. -/
structure Agrees (n : Nat) : Prop where
  evaluate : machine.evaluate n = Treewalk.evaluate n
  callValue : machine.callValue n = Treewalk.callValue n
  invoke : machine.invoke n = Treewalk.invoke n
  declareVariable : machine.declareVariable n = Treewalk.declareVariable n
  execute : machine.execute n = Treewalk.execute n
  repeatWhile : machine.repeatWhile n = Treewalk.repeatWhile n

variable {n : Nat}

theorem evaluate_machine_succ (ih : Agrees n) (e : Expr) :
    machine.evaluate (n + 1) e = Treewalk.evaluate (n + 1) e := by
  cases e <;> simp only [Platform.evaluate, Treewalk.evaluate, ih.evaluate, ih.callValue] <;> rfl

theorem callValue_machine_succ (ih : Agrees n) (callee : Value) (paren : Token)
    (arguments : List Value) :
    machine.callValue (n + 1) callee paren arguments =
      Treewalk.callValue (n + 1) callee paren arguments := by
  funext m
  simp only [Platform.callValue, Treewalk.callValue, ih.invoke]
  show EStateM.bind _ _ m = EStateM.bind _ _ m
  simp only [EStateM.bind, machine, Run.gets]
  cases m.store.callable? callee with
  | none => rfl
  | some callable =>
    cases callable with
    | clock => rfl
    | function f => rfl
    | cls id initializer => cases initializer <;> rfl

theorem invoke_machine_succ (ih : Agrees n) (f : Closure) (arguments : List Value) :
    machine.invoke (n + 1) f arguments = Treewalk.invoke (n + 1) f arguments := by
  simp only [Platform.invoke, Treewalk.invoke, ih.execute, ← inOrder_machine, ← within_machine] <;>
    rfl

theorem declareVariable_machine_succ (ih : Agrees n) (decl : VarDecl) :
    machine.declareVariable (n + 1) decl = Treewalk.declareVariable (n + 1) decl := by
  simp only [Platform.declareVariable, Treewalk.declareVariable, ih.evaluate]
  rfl

theorem execute_machine_succ (ih : Agrees n) (s : Stmt) :
    machine.execute (n + 1) s = Treewalk.execute (n + 1) s := by
  cases s <;> simp only [Platform.execute, Treewalk.execute, ih.evaluate, ih.execute,
    ih.declareVariable, ih.repeatWhile, ← inOrder_machine,
    ← within_machine] <;> rfl

theorem repeatWhile_machine_succ (ih : Agrees n) (condition : Expr) (body : Stmt) :
    machine.repeatWhile (n + 1) condition body = Treewalk.repeatWhile (n + 1) condition body := by
  simp only [Platform.repeatWhile, Treewalk.repeatWhile, ih.evaluate, ih.execute,
    ih.repeatWhile] <;> rfl

theorem agrees (n : Nat) : Agrees n := by
  induction n with
  | zero => refine ⟨?_, ?_, ?_, ?_, ?_, ?_⟩ <;> funext <;> rfl
  | succ n ih =>
    refine ⟨funext (evaluate_machine_succ ih), ?_, ?_, funext (declareVariable_machine_succ ih),
      funext (execute_machine_succ ih), ?_⟩
    · funext callee paren arguments
      exact callValue_machine_succ ih callee paren arguments
    · funext f arguments
      exact invoke_machine_succ ih f arguments
    · funext condition body
      exact repeatWhile_machine_succ ih condition body

theorem interpret_machine (steps : Nat) (found : List (NodeId × Nat)) (program : List Stmt)
    (m : Machine) :
    Treewalk.interpret steps found program m =
      machine.interpret steps program (m.addDistances found) := by
  unfold Treewalk.interpret Platform.interpret executeAll
  rw [(agrees steps).execute]
  cases program.forM (fun s => discard (Treewalk.execute steps s)) (m.addDistances found) with
  | ok _ m' => rfl
  | error e m' =>
    cases e with
    | exhausted => rfl
    | fault _ | output _ =>
      dsimp only
      show _ = EStateM.bind Run.flush _ m'
      unfold EStateM.bind
      cases Run.flush m' <;> rfl

end Platform

end Treewalk
