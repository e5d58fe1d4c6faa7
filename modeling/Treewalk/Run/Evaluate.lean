import Treewalk.Run.Machine
import Treewalk.Syntax.Resolution

/-!
# Running a program

`evaluate` and `execute` walk the tree of a program. A statement ends normally or with the value of
a `return`, which every statement around it passes on up to the call. The first argument of the
recursive functions bounds the steps that a run may take; a run that is given enough of them ends
in the same way with more.
-/

namespace Treewalk

/-- How a statement ends. -/
inductive Flow where
  | normal
  | returned (value : Value)
deriving DecidableEq

namespace Run

/-- Runs statements in order up to the first that returns. -/
@[specialize] def inOrder {α : Type} (step : α → Run Flow) : List α → Run Flow
  | [] => pure .normal
  | a :: rest => do
    match ← step a with
    | .normal => inOrder step rest
    | .returned value => pure (.returned value)

/-- A property of an instance: a field, or else a method of its class bound to it. -/
def readProperty (i : InstanceId) (name : Token) : Run Value := do
  let found ← gets fun m =>
    m.store.instances[i]?.map fun x => (x.fields.get? name.lexeme, x.ofClass)
  match found with
  | some (some value, _) => pure value
  | some (none, c) =>
    match ← gets (·.store.method? c name.lexeme) with
    | some method => newFunction (← bindMethod method i)
    | none => fault name (.undefinedProperty name.lexeme)
  | none => fault name (.undefinedProperty name.lexeme)

/-- `super.method`: the method is looked for from the superclass that was bound where the class was
declared, and bound to the `this` one frame further in. -/
def readSuper (id : NodeId) (keyword method : Token) : Run Value := do
  match ← gets (·.distances.get? id) with
  | none => fault keyword .unresolvedSuper
  | some distance =>
    match ← gets fun m => m.store.frames.getAt? m.env distance superName with
    | some (.cls c) =>
      let this ← gets fun m =>
        if distance = 0 then none else m.store.frames.getAt? m.env (distance - 1) thisName
      match this with
      | some (.object i) =>
        match ← gets (·.store.method? c method.lexeme) with
        | some found => newFunction (← bindMethod found i)
        | none => fault method (.undefinedProperty method.lexeme)
      | _ => fault keyword .unresolvedThis
    | _ => fault keyword .unresolvedSuper

/-- The class that a class inherits from. -/
def readSuperclass (superclass : Variable) : Run ClassId := do
  match ← readVariable superclass.id superclass.name with
  | .cls c => pure c
  | _ => fault superclass.name .superclassNotClass

/-- Declares a class. Its name is bound before its superclass is looked for, and its methods close
over a frame that binds `super`, if it has one. -/
def declareClass (name : Token) (superclass : Option Variable) (methods : List FunctionDecl) :
    Run Unit := do
  define name.lexeme .nil
  let above ← match superclass with
    | none => pure none
    | some ref => some <$> readSuperclass ref
  let outer ← gets (·.env)
  let frame ← match above with
    | none => pure outer
    | some c => newFrame outer ((∅ : Bindings Value).put superName (.cls c))
  let closures := methods.map fun decl =>
    (decl.name.lexeme, Closure.mk decl frame decl.isInitializer)
  assignName name (← newClass ⟨name.lexeme, above, Bindings.ofList closures⟩)

end Run

/-- The value of a constant. -/
def Constant.value : Constant → Value
  | .number x => .number x
  | .text s => .text s
  | .true => .bool Bool.true
  | .false => .bool Bool.false
  | .nil => .nil

/-- The bindings of a call: each parameter to its argument, of a parameter that comes twice the
last one. -/
def FunctionDecl.bindArguments (f : FunctionDecl) (arguments : List Value) : Bindings Value :=
  Bindings.ofList ((f.params.map (·.lexeme)).zip arguments)

open Run

mutual

/-- The value of an expression. -/
def evaluate : Nat → Expr → Run Value
  | 0, _ => throw .exhausted
  | n + 1, e =>
    match e with
    | .sequence items => do
      let values ← items.mapM (evaluate n)
      pure (values.getLast?.getD .nil)
    | .assign id name value => do
      let value ← evaluate n value
      assignVariable id name value
      pure value
    | .binary left operator right => do
      let left ← evaluate n left
      let right ← evaluate n right
      ofExcept operator (binaryOperator operator.kind left right)
    | .call callee paren arguments => do
      let callee ← evaluate n callee
      let values ← arguments.mapM (evaluate n)
      callValue n callee paren values
    | .get object name => do
      match ← evaluate n object with
      | .object i => readProperty i name
      | _ => fault name .noProperties
    | .grouping inner => evaluate n inner
    | .constant value => pure value.value
    | .logical left operator right => do
      let left ← evaluate n left
      if left.truthy = (operator.kind == .kwOr) then pure left
      else evaluate n right
    | .set object name value => do
      match ← evaluate n object with
      | .object i =>
        let value ← evaluate n value
        setField i name.lexeme value
        pure value
      | _ => fault name .noFields
    | .super id keyword method => readSuper id keyword method
    | .this id keyword => readVariable id keyword
    | .unary operator right => do
      let right ← evaluate n right
      ofExcept operator (unaryOperator operator.kind right)
    | .read ref => readVariable ref.id ref.name

/-- Calls a value: it must be callable, then given the right number of arguments, then not too
deep. A class yields a new instance, on which its initializer has run. -/
def callValue : Nat → Value → Token → List Value → Run Value
  | 0, _, _, _ => throw .exhausted
  | n + 1, callee, paren, arguments => do
    match ← gets (·.store.callable? callee) with
    | none => fault paren .notCallable
    | some callable =>
      if arguments.length ≠ callable.arity then
        fault paren (.wrongArity callable.arity arguments.length)
      else
        oneDeeper paren do
          match callable with
          | .clock => readClock
          | .function f => invoke n f arguments
          | .cls c initializer =>
            let i ← newInstance c
            match initializer with
            | none => pure (.object i)
            | some method =>
              let bound ← bindMethod method i
              let _ ← invoke n bound arguments
              pure (.object i)

/-- Runs the body of a function in a new frame inside its own. An initializer yields the `this`
that it is bound to. -/
def invoke : Nat → Closure → List Value → Run Value
  | 0, _, _ => throw .exhausted
  | n + 1, f, arguments => do
    let frame ← newFrame f.frame (f.decl.bindArguments arguments)
    let flow ← inFrame frame (inOrder (execute n) f.decl.body)
    if f.isInitializer then
      pure ((← gets fun m => m.store.frames.getAt? f.frame 0 thisName).getD .nil)
    else
      match flow with
      | .normal => pure .nil
      | .returned value => pure value

/-- Declares the variable of a `var` item in the current frame. -/
def declareVariable : Nat → VarDecl → Run Flow
  | 0, _ => throw .exhausted
  | n + 1, decl => do
    let value ← match decl.initializer with
      | none => pure .nil
      | some e => evaluate n e
    define decl.name.lexeme value
    pure .normal

/-- Runs a statement. -/
def execute : Nat → Stmt → Run Flow
  | 0, _ => throw .exhausted
  | n + 1, s =>
    match s with
    | .block body => do
      let frame ← newFrame (← gets (·.env)) ∅
      inFrame frame (inOrder (execute n) body)
    | .classDecl name superclass methods => do
      declareClass name superclass methods
      pure .normal
    | .expression value => do
      let _ ← evaluate n value
      pure .normal
    | .function decl => do
      let f ← newFunction ⟨decl, ← gets (·.env), false⟩
      define decl.name.lexeme f
      pure .normal
    | .branch condition thenBranch elseBranch => do
      if (← evaluate n condition).truthy then execute n thenBranch
      else
        match elseBranch with
        | some elseBranch => execute n elseBranch
        | none => pure .normal
    | .print value => do
      print (← evaluate n value)
      pure .normal
    | .ret _ value => do
      match value with
      | none => pure (.returned .nil)
      | some e => .returned <$> evaluate n e
    | .var decl => declareVariable n decl
    | .varList decls => inOrder (declareVariable n) decls
    | .loop condition body => repeatWhile n condition body

/-- Runs a body as long as a condition holds. -/
def repeatWhile : Nat → Expr → Stmt → Run Flow
  | 0, _, _ => throw .exhausted
  | n + 1, condition, body => do
    if (← evaluate n condition).truthy then
      match ← execute n body with
      | .normal => repeatWhile n condition body
      | .returned value => pure (.returned value)
    else pure .normal

end

/-- Runs the statements of a batch; a statement that returns only ends itself. The output is
flushed at the end, also after an error, and a flush that fails is the error then. -/
def interpret (steps : Nat) (found : List (NodeId × Nat)) (program : List Stmt) : Run Unit :=
  fun m =>
    match program.forM (fun s => discard (execute steps s)) (m.addDistances found) with
    | .ok _ m => flush m
    | .error .exhausted m => .error .exhausted m
    | .error e m =>
      match flush m with
      | .ok _ m => .error e m
      | .error flushed m => .error flushed m

end Treewalk
