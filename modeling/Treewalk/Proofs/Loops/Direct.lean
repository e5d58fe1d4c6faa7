import Treewalk.Proofs.Plain.Interpreter
import Treewalk.Proofs.Scope.Context
import Treewalk.Syntax.Parser

/-!
# `for` statements

What a `for` statement means, said of its parts and not of the tree that stands for it. The plain
interpreter is given once more, with one more kind of statement: a `Reading` says which trees are
`for` statements, and those are run by their clauses.
-/

namespace Treewalk

/-- The parts of a `for` statement. Its body is a statement, which declares nothing in the scope
around it. -/
structure ForLoop where
  initializer : Option Stmt
  condition : Option Expr
  increment : Option Expr
  body : Stmt
  undeclared : body.declared = []
  regular : body.Regular

namespace ForLoop

/-- The tree that the parser builds of these parts. -/
def tree (loop : ForLoop) : Stmt :=
  Parser.forLoop loop.initializer loop.condition loop.increment loop.body

/-- A way to read `for` statements in programs: some trees are taken for them, each with parts that
it is built of. -/
structure Reading where
  loop? : Stmt → Option ForLoop
  tree : ∀ {s loop}, loop? s = some loop → loop.tree = s

open Classical in
/-- The reading that takes the tree of this `for` statement for what it is. -/
noncomputable def Reading.taking (reading : Reading) (loop : ForLoop) : Reading where
  loop? s := if loop.tree = s then some loop else reading.loop? s
  tree := by
    intro s found read
    split at read
    next same =>
      cases read
      exact same
    next => exact reading.tree read

theorem Reading.taking_tree (reading : Reading) (loop : ForLoop) :
    (reading.taking loop).loop? loop.tree = some loop :=
  if_pos rfl

/-! The number of steps bounds how deep a run may go into a tree. The parts of a `for` statement are
given those that are left at their places in its tree, where an initializer and an increment each
come with a block. -/

/-- The steps that are left for the rounds. -/
def roundSteps (loop : ForLoop) (n : Nat) : Nat := if loop.initializer.isSome then n - 1 else n

/-- The steps that are left for the body in a round. -/
def bodySteps (loop : ForLoop) (n : Nat) : Nat := if loop.increment.isSome then n - 1 else n

/-- The steps that are left for the increment, which stands behind the body in a statement. -/
def incrementSteps (_ : ForLoop) (n : Nat) : Nat := n - 2

theorem roundSteps_le (loop : ForLoop) (n : Nat) : loop.roundSteps n ≤ n := by
  unfold roundSteps
  split <;> omega

theorem bodySteps_le (loop : ForLoop) (n : Nat) : loop.bodySteps n ≤ n := by
  unfold bodySteps
  split <;> omega

theorem incrementSteps_le (loop : ForLoop) (n : Nat) : loop.incrementSteps n ≤ n := Nat.sub_le n 2

end ForLoop

namespace Plain

/-! ### A `for` statement by the runs of its parts -/

/-- The scope of a loop: the initializer runs in it once, and then the rounds. -/
def inLoopScope (initializer rounds : Action Flow) : Action Flow := do
  let scope ← gets fun s => s.env.getD []
  platform.within (some scope) do
    match ← initializer with
    | .normal => rounds
    | .returned value => pure (.returned value)

/-- One round and those that follow it. The body is shut off: what it declares is gone when the
increment is evaluated, and that happens only behind a body that did not return. -/
def oneRound (condition : Action Bool) (body : Action Flow) (increment : Action Unit)
    (others : Action Flow) : Action Flow := do
  if ← condition then
    match ← platform.within (← gets (·.env)) body with
    | .normal => do
      increment
      others
    | .returned value => pure (.returned value)
  else pure .normal

/-- An initializer that is absent does nothing. -/
def initialize? (execute : Stmt → Action Flow) : Option Stmt → Action Flow
  | none => pure .normal
  | some first => execute first

/-- A condition that is absent is a true one. -/
def holds? (evaluate : Expr → Action Value) : Option Expr → Action Bool
  | none => pure true
  | some condition => Value.truthy <$> evaluate condition

/-- An increment that is absent does nothing, and one that is there is evaluated for its effects. -/
def advance? (evaluate : Expr → Action Value) : Option Expr → Action Unit
  | none => pure ()
  | some increment => discard (evaluate increment)

namespace Direct

variable (reading : ForLoop.Reading)

mutual

def evaluate : Nat → Expr → Action Value
  | 0, _ => throw .exhausted
  | n + 1, e =>
    match e with
    | .sequence items => do
      let values ← items.mapM (evaluate n)
      pure (values.getLast?.getD .nil)
    | .assign _ name value => do
      let value ← evaluate n value
      assign name value
      pure value
    | .binary left operator right => do
      let left ← evaluate n left
      let right ← evaluate n right
      platform.ofExcept operator (binaryOperator operator.kind left right)
    | .call callee paren arguments => do
      let callee ← evaluate n callee
      let values ← arguments.mapM (evaluate n)
      callValue n callee paren values
    | .get object name => do
      match ← evaluate n object with
      | .object i => readProperty i name
      | _ => fault name .noProperties
    | .grouping inner => evaluate n inner
    | .constant value => pure value.value
    | .logical left operator right => do
      let left ← evaluate n left
      if left.truthy = (operator.kind == .kwOr) then pure left
      else evaluate n right
    | .set object name value => do
      match ← evaluate n object with
      | .object i =>
        let value ← evaluate n value
        setField i name.lexeme value
        pure value
      | _ => fault name .noFields
    | .super _ keyword method => readSuper keyword method
    | .this _ keyword => read keyword
    | .unary operator right => do
      let right ← evaluate n right
      platform.ofExcept operator (unaryOperator operator.kind right)
    | .read ref => read ref.name
termination_by n => n

def callValue : Nat → Value → Token → List Value → Action Value
  | 0, _, _, _ => throw .exhausted
  | n + 1, callee, paren, arguments => do
    match ← gets (·.callee? callee) with
    | none => fault paren .notCallable
    | some callee =>
      if arguments.length ≠ platform.arity callee then
        fault paren (.wrongArity (platform.arity callee) arguments.length)
      else
        oneDeeper paren do
          match callee with
          | .clock => readClock
          | .function f => invoke n f arguments
          | .cls c initializer =>
            let i ← newInstance c
            match initializer with
            | none => pure (.object i)
            | some method =>
              let bound ← bindMethod method i
              let _ ← invoke n bound arguments
              pure (.object i)
termination_by n => n

def invoke : Nat → Closure → List Value → Action Value
  | 0, _, _ => throw .exhausted
  | n + 1, f, arguments => do
    let env ← platform.enterCall f arguments
    let flow ← platform.within env (platform.inOrder (execute n) f.decl.body)
    if f.isInitializer then platform.receiver f
    else
      match flow with
      | .normal => pure .nil
      | .returned value => pure value
termination_by n => n

def declareVariable : Nat → VarDecl → Action Flow
  | 0, _ => throw .exhausted
  | n + 1, decl => do
    announce decl.name.lexeme
    let value ← match decl.initializer with
      | none => pure .nil
      | some e => evaluate n e
    define decl.name.lexeme value
    pure .normal
termination_by n => n

/-- Runs a statement; one that is read as a `for` statement runs by its parts. -/
def execute : Nat → Stmt → Action Flow
  | 0, _ => throw .exhausted
  | n + 1, s =>
    match reading.loop? s with
    | some loop =>
      inLoopScope (initialize? (execute n) loop.initializer) (runRounds (loop.roundSteps n) loop)
    | none =>
      match s with
      | .block body => do
        let env ← platform.enterBlock body
        platform.within env (platform.inOrder (execute n) body)
      | .classDecl name superclass methods => do
        declareClass name superclass methods
        pure .normal
      | .expression value => do
        let _ ← evaluate n value
        pure .normal
      | .function decl => do
        declareFunction decl
        pure .normal
      | .branch condition thenBranch elseBranch => do
        if (← evaluate n condition).truthy then execute n thenBranch
        else
          match elseBranch with
          | some elseBranch => execute n elseBranch
          | none => pure .normal
      | .print value => do
        print (← evaluate n value)
        pure .normal
      | .ret _ value => do
        match value with
        | none => pure (.returned .nil)
        | some e => .returned <$> evaluate n e
      | .var decl => declareVariable n decl
      | .varList decls => platform.inOrder (declareVariable n) decls
      | .loop condition body => repeatWhile n condition body
termination_by n => n
decreasing_by all_goals first | decreasing_tactic | exact Nat.lt_succ_of_le (loop.roundSteps_le n)

def repeatWhile : Nat → Expr → Stmt → Action Flow
  | 0, _, _ => throw .exhausted
  | n + 1, condition, body => do
    if (← evaluate n condition).truthy then
      match ← execute n body with
      | .normal => repeatWhile n condition body
      | .returned value => pure (.returned value)
    else pure .normal
termination_by n => n

/-- The rounds of a `for` statement in its scope. -/
def runRounds : Nat → ForLoop → Action Flow
  | 0, _ => throw .exhausted
  | n + 1, loop =>
    oneRound (holds? (evaluate n) loop.condition) (execute (loop.bodySteps n) loop.body)
      (advance? (evaluate (loop.incrementSteps n)) loop.increment) (runRounds n loop)
termination_by n => n
decreasing_by
  all_goals first
    | decreasing_tactic
    | exact Nat.lt_succ_of_le (loop.bodySteps_le n)
    | exact Nat.lt_succ_of_le (loop.incrementSteps_le n)

end

/-- The statements of a batch; one that returns only ends itself. -/
def executeAll (steps : Nat) (program : List Stmt) : Action Unit :=
  program.forM fun s => discard (execute reading steps s)

/-- Runs a batch, and flushes the output at its end. -/
def interpret (steps : Nat) (program : List Stmt) : Action Unit := fun s =>
  match executeAll reading steps program s with
  | .ok _ s' => flush s'
  | .error .exhausted s' => .error .exhausted s'
  | .error e s' => (do flush; throw e : Action Unit) s'

/-- Runs one batch of source with so many steps for each of its statements. -/
def run (steps : Nat) (s : Engine.plain.Session) (source : List UInt8) :
    Except Failure Unit × Engine.plain.Session :=
  match compile source s.nextId with
  | (.error diagnostics, nextId) => (.error (.rejected diagnostics), { s with nextId })
  | (.ok c, nextId) =>
    match interpret reading steps c.program s.state with
    | .ok _ state => (.ok (), ⟨state, nextId⟩)
    | .error stop state => (.error (.stopped stop.diagnostic), ⟨state, nextId⟩)

/-- Runs batches in order, each with its number of steps. -/
def runFrom (s : Engine.plain.Session) :
    List (Nat × List UInt8) → List (Except Failure Unit) × Engine.plain.Session
  | [] => ([], s)
  | batch :: rest =>
    let first := run reading batch.1 s batch.2
    let others := runFrom first.2 rest
    (first.1 :: others.1, others.2)

/-- A session that runs batches in order from its start on. -/
def runAll (sink : Sink) (clock : Nat → Float) (batches : List (Nat × List UInt8)) :
    List (Except Failure Unit) × Engine.plain.Session :=
  runFrom reading ⟨.initial sink clock, 0⟩ batches

end Direct

end Plain

end Treewalk
