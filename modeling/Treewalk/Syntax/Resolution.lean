import Treewalk.Syntax.Error
import Treewalk.Syntax.Reference

/-!
# Resolution

`resolve` walks a program once, in the order in which it runs, with the scopes that are open at
each place. It finds how many scopes lie between a reference and its declaration, and reports the
uses of names, `return`, `this` and `super` that no run could make sense of. A reference that no
open scope declares is left to the globals.

The scopes are those for which a run creates frames: blocks, functions (parameters and body
together), `super` around the methods of a class that has a superclass, and `this` inside it.
-/

namespace Treewalk

/-- What is wrong with a name, a `return`, a `this` or a `super`. -/
inductive ScopeError.Cause where
  | inheritsFromItself
  | returnOutside
  | returnValueFromInitializer
  | superOutside
  | superWithoutSuperclass
  | thisOutside
  | ownInitializer
  | declaredTwice
deriving Repr, DecidableEq

/-- The message of a cause. -/
def ScopeError.Cause.message : ScopeError.Cause → String
  | inheritsFromItself => "A class can't inherit from itself."
  | returnOutside => "Can't return from top-level code."
  | returnValueFromInitializer => "Can't return a value from an initializer."
  | superOutside => "Can't use 'super' outside of a class."
  | superWithoutSuperclass => "Can't use 'super' in a class with no superclass."
  | thisOutside => "Can't use 'this' outside of a class."
  | ownInitializer => "Can't read local variable in its own initializer."
  | declaredTwice => "Already a variable with this name in this scope."

/-- A token that breaks a rule of scopes, and the rule. -/
structure ScopeError where
  token : Token
  cause : ScopeError.Cause
deriving DecidableEq

/-- The names declared in a scope, newest first, each with whether its declaration is complete. -/
abbrev Scope := List (String × Bool)

/-- The function around a place, the innermost one. -/
inductive FunctionKind where
  | none
  | function
  | initializer
  | method
deriving Repr, DecidableEq

/-- The class around a place, the innermost one. -/
inductive ClassKind where
  | none
  | base
  | subclass
deriving Repr, DecidableEq

/-- What surrounds a place in a program. -/
structure Surroundings where
  inFunction : FunctionKind
  inClass : ClassKind
deriving Repr, DecidableEq

/-- Something that resolution finds: an error, or a reference with the number of scopes between it
and its declaration. -/
inductive Finding where
  | error (e : ScopeError)
  | distance (id : NodeId) (scopes : Nat)
deriving DecidableEq

namespace Resolution

/-- The number of scopes, from the innermost one out, before the one that declares a name. -/
def distance? (name : String) : List Scope → Option Nat
  | [] => none
  | scope :: outer =>
    if (scope.lookup name).isSome then some 0 else (distance? name outer).map (· + 1)

/-- The distance of a reference, if it is not a global. -/
def locate (scopes : List Scope) (id : NodeId) (name : Token) : List Finding :=
  match distance? name.lexeme scopes with
  | some n => [.distance id n]
  | none => []

def fault (token : Token) (cause : ScopeError.Cause) : List Finding := [.error ⟨token, cause⟩]

/-- Declares a name in the innermost scope, incomplete as yet. Globals are not kept. -/
def declare (scopes : List Scope) (name : Token) : List Finding × List Scope :=
  match scopes with
  | [] => ([], [])
  | scope :: outer =>
    if (scope.lookup name.lexeme).isSome then (fault name .declaredTwice, scope :: outer)
    else ([], ((name.lexeme, false) :: scope) :: outer)

/-- Completes the declaration of a name in the innermost scope. -/
def define (scopes : List Scope) (name : Token) : List Scope :=
  match scopes with
  | [] => []
  | scope :: outer => ((name.lexeme, true) :: scope) :: outer

/-- A name is read in its own initializer: its declaration in the innermost scope is incomplete, or
it is the global that is being initialized. -/
def inOwnInitializer (scopes : List Scope) (initializing : Option String) (name : String) : Bool :=
  match scopes with
  | scope :: _ => scope.lookup name == some false
  | [] => initializing == some name

end Resolution

open Resolution

mutual

/-- The findings in an expression. `initializing` is the global that it initializes. -/
def Expr.resolve (scopes : List Scope) (inClass : ClassKind) (initializing : Option String) :
    Expr → List Finding
  | .sequence items => Expr.resolveAll scopes inClass initializing items
  | .assign id name value => value.resolve scopes inClass initializing ++ locate scopes id name
  | .binary left _ right =>
    left.resolve scopes inClass initializing ++ right.resolve scopes inClass initializing
  | .call callee _ arguments =>
    callee.resolve scopes inClass initializing ++
      Expr.resolveAll scopes inClass initializing arguments
  | .get object _ => object.resolve scopes inClass initializing
  | .grouping inner => inner.resolve scopes inClass initializing
  | .constant _ => []
  | .logical left _ right =>
    left.resolve scopes inClass initializing ++ right.resolve scopes inClass initializing
  | .set object _ value =>
    value.resolve scopes inClass initializing ++ object.resolve scopes inClass initializing
  | .super id keyword _ =>
    (match inClass with
      | .none => fault keyword .superOutside
      | .base => fault keyword .superWithoutSuperclass
      | .subclass => []) ++ locate scopes id keyword
  | .this id keyword =>
    match inClass with
    | .none => fault keyword .thisOutside
    | _ => locate scopes id keyword
  | .unary _ right => right.resolve scopes inClass initializing
  | .read ref =>
    (if inOwnInitializer scopes initializing ref.name.lexeme then
      fault ref.name .ownInitializer else []) ++ locate scopes ref.id ref.name

def Expr.resolveAll (scopes : List Scope) (inClass : ClassKind) (initializing : Option String) :
    List Expr → List Finding
  | [] => []
  | e :: rest =>
    e.resolve scopes inClass initializing ++ Expr.resolveAll scopes inClass initializing rest

end

/-- The findings in one item of a `var` declaration, and the scopes after it. The name is declared
before its initializer is looked at, and complete behind it. -/
def VarDecl.resolve (around : Surroundings) (scopes : List Scope) (decl : VarDecl) :
    List Finding × List Scope :=
  let (found, declared) := declare scopes decl.name
  let initializing := if scopes.isEmpty then some decl.name.lexeme else none
  let inside := match decl.initializer with
    | some value => value.resolve declared around.inClass initializing
    | none => []
  (found ++ inside, define declared decl.name)

def VarDecl.resolveAll (around : Surroundings) (scopes : List Scope) :
    List VarDecl → List Finding × List Scope
  | [] => ([], scopes)
  | decl :: rest =>
    let (found, scopes) := decl.resolve around scopes
    let (more, scopes) := VarDecl.resolveAll around scopes rest
    (found ++ more, scopes)

/-- Declares a name and completes its declaration at once. -/
def Resolution.introduce (scopes : List Scope) (name : Token) : List Finding × List Scope :=
  let (found, scopes) := declare scopes name
  (found, define scopes name)

def Resolution.introduceAll (scopes : List Scope) : List Token → List Finding × List Scope
  | [] => ([], scopes)
  | name :: rest =>
    let (found, scopes) := introduce scopes name
    let (more, scopes) := introduceAll scopes rest
    (found ++ more, scopes)

/-- What a name finds about its class: it is not its own superclass, and the superclass is a
reference like any other. -/
def Resolution.resolveSuperclass (scopes : List Scope) (name : Token) (superclass : Variable) :
    List Finding :=
  (if superclass.name.lexeme = name.lexeme then
    fault superclass.name .inheritsFromItself else []) ++
    locate scopes superclass.id superclass.name

mutual

/-- The findings in a statement, and the scopes after it. -/
def Stmt.resolve (around : Surroundings) (scopes : List Scope) : Stmt → List Finding × List Scope
  | .block body => (Stmt.resolveAll around ([] :: scopes) body, scopes)
  | .classDecl name none methods =>
    let (found, scopes) := introduce scopes name
    let around := { around with inClass := .base }
    (found ++ FunctionDecl.resolveAll around ([(thisName, true)] :: scopes) methods, scopes)
  | .classDecl name (some superclass) methods =>
    let (found, scopes) := introduce scopes name
    let around := { around with inClass := .subclass }
    (found ++ resolveSuperclass scopes name superclass ++
      FunctionDecl.resolveAll around ([(thisName, true)] :: [(superName, true)] :: scopes) methods,
      scopes)
  | .expression value => (value.resolve scopes around.inClass none, scopes)
  | .function ⟨name, params, body⟩ =>
    let (found, scopes) := introduce scopes name
    let (declared, inner) := introduceAll ([] :: scopes) params
    (found ++ declared ++ Stmt.resolveAll { around with inFunction := .function } inner body,
      scopes)
  | .branch condition thenBranch none =>
    let (found, scopes') := thenBranch.resolve around scopes
    (condition.resolve scopes around.inClass none ++ found, scopes')
  | .branch condition thenBranch (some elseBranch) =>
    let (found, scopes') := thenBranch.resolve around scopes
    let (more, scopes'') := elseBranch.resolve around scopes'
    (condition.resolve scopes around.inClass none ++ found ++ more, scopes'')
  | .print value => (value.resolve scopes around.inClass none, scopes)
  | .ret keyword value =>
    let outside := if around.inFunction = .none then fault keyword .returnOutside else []
    match value with
    | none => (outside, scopes)
    | some value =>
      let given :=
        if around.inFunction = .initializer then fault keyword .returnValueFromInitializer else []
      (outside ++ given ++ value.resolve scopes around.inClass none, scopes)
  | .var decl => decl.resolve around scopes
  | .varList decls => VarDecl.resolveAll around scopes decls
  | .loop condition body =>
    let (found, scopes') := body.resolve around scopes
    (condition.resolve scopes around.inClass none ++ found, scopes')

/-- The findings in the statements of one scope, the innermost one. -/
def Stmt.resolveAll (around : Surroundings) (scopes : List Scope) : List Stmt → List Finding
  | [] => []
  | s :: rest =>
    let (found, scopes) := s.resolve around scopes
    found ++ Stmt.resolveAll around scopes rest

/-- The findings in the methods of a class, each in a scope of its own. -/
def FunctionDecl.resolveAll (around : Surroundings) (scopes : List Scope) :
    List FunctionDecl → List Finding
  | [] => []
  | ⟨name, params, body⟩ :: rest =>
    let kind := if name.lexeme = initializerName then .initializer else .method
    let (declared, inner) := introduceAll ([] :: scopes) params
    declared ++ Stmt.resolveAll { around with inFunction := kind } inner body ++
      FunctionDecl.resolveAll around scopes rest

end

/-- All findings in a program, in the order of the walk. -/
def findings (program : List Stmt) : List Finding := Stmt.resolveAll ⟨.none, .none⟩ [] program

def Finding.error? : Finding → Option ScopeError
  | .error e => some e
  | .distance _ _ => none

def Finding.distance? : Finding → Option (NodeId × Nat)
  | .error _ => none
  | .distance id n => some (id, n)

/-- The distances of all references that are not globals, or all errors. -/
def resolve (program : List Stmt) : Except (List ScopeError) (List (NodeId × Nat)) :=
  let found := findings program
  let errors := found.filterMap Finding.error?
  if errors.isEmpty then .ok (found.filterMap Finding.distance?) else .error errors

end Treewalk
