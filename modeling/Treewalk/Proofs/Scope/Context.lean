import Treewalk.Syntax

/-!
# Scopes around a place

The scopes that a program writes down: a block, a function with its parameters, `this` around a
method, `super` around the methods of a class. `Stmt.occurrences` lists every mention of a name
with the scopes around it, innermost first, and with the names declared in them before the mention.
It speaks of the text alone: neither of distances found by a walk nor of frames made in a run.
-/

namespace Treewalk

/-- A scope in the text of a program. -/
inductive Site where
  | block (body : List Stmt)
  | function (decl : FunctionDecl)
  | this (method : FunctionDecl)
  | super (name : Token) (superclass : Variable) (methods : List FunctionDecl)

/-- A scope as a place inside it finds it. -/
structure LexicalScope where
  site : Site
  /-- The names declared before the place, newest first. -/
  names : List String
  /-- The variable in whose initializer the place stands. -/
  pending : Option String

/-- The scopes around a place, innermost first. Globals are in none of them. -/
abbrev Context := List LexicalScope

/-- The name is declared before the place. -/
def LexicalScope.Declares (s : LexicalScope) (name : String) : Prop :=
  name ∈ s.names ∨ s.pending = some name

instance (s : LexicalScope) (name : String) : Decidable (s.Declares name) :=
  inferInstanceAs (Decidable (_ ∨ _))

namespace Context

/-- A scope that nothing is declared in so far. -/
def enter (c : Context) (site : Site) : Context := ⟨site, [], none⟩ :: c

/-- The scope around a method of a class, in which `this` is declared. -/
def enterThis (c : Context) (method : FunctionDecl) : Context :=
  ⟨.this method, [thisName], none⟩ :: c

/-- The scopes around the methods of a class, one more than around the class if it has a
superclass. -/
def enterClass (c : Context) (name : Token) (superclass : Option Variable)
    (methods : List FunctionDecl) : Context :=
  match superclass with
  | some ref => ⟨.super name ref methods, [superName], none⟩ :: c
  | none => c

/-- Declares a name in the innermost scope. -/
def declare (c : Context) (name : String) : Context :=
  match c with
  | [] => []
  | s :: outer => { s with names := name :: s.names, pending := none } :: outer

/-- Begins the initializer of a variable of the innermost scope. -/
def announce (c : Context) (name : String) : Context :=
  match c with
  | [] => []
  | s :: outer => { s with pending := some name } :: outer

def declareAll (c : Context) (names : List Token) : Context :=
  names.foldl (fun c name => c.declare name.lexeme) c

/-- The number of scopes before the innermost one that declares a name. -/
def distance? (name : String) : Context → Option Nat
  | [] => none
  | s :: outer => if s.Declares name then some 0 else (distance? name outer).map (· + 1)

@[simp] theorem length_declare (c : Context) (name : String) :
    (c.declare name).length = c.length := by
  cases c <;> rfl

@[simp] theorem length_announce (c : Context) (name : String) :
    (c.announce name).length = c.length := by
  cases c <;> rfl

@[simp] theorem length_declareAll (c : Context) (names : List Token) :
    (c.declareAll names).length = c.length := by
  induction names generalizing c with
  | nil => rfl
  | cons name names ih => exact (ih _).trans (length_declare c _)

@[simp] theorem declareAll_nil (names : List Token) : declareAll [] names = [] :=
  List.length_eq_zero_iff.1 (length_declareAll [] names)

/-- A declaration completes the one that is being initialized. -/
@[simp] theorem declare_announce (c : Context) (name other : String) :
    (c.announce other).declare name = c.declare name := by
  cases c <;> rfl

end Context

/-- How a name is used. -/
inductive Role where
  | read
  | write
  | this
  | super
deriving DecidableEq

/-- A name in a program: used for a variable, or declared. -/
inductive Mention where
  | use (role : Role) (ref : Variable)
  | declare (name : Token)
deriving DecidableEq

/-- A mention and the scopes around it. -/
structure Occurrence where
  mention : Mention
  context : Context

mutual

/-- The variables that an expression uses, each behind those of its operands. -/
def Expr.uses : Expr → List (Role × Variable)
  | .sequence items => Expr.allUses items
  | .assign id name value => value.uses ++ [(.write, ⟨id, name⟩)]
  | .binary left _ right => left.uses ++ right.uses
  | .call callee _ arguments => callee.uses ++ Expr.allUses arguments
  | .get object _ => object.uses
  | .grouping inner => inner.uses
  | .constant _ => []
  | .logical left _ right => left.uses ++ right.uses
  | .set object _ value => value.uses ++ object.uses
  | .super id keyword _ => [(.super, ⟨id, keyword⟩)]
  | .this id keyword => [(.this, ⟨id, keyword⟩)]
  | .unary _ right => right.uses
  | .read ref => [(.read, ref)]

def Expr.allUses : List Expr → List (Role × Variable)
  | [] => []
  | e :: rest => e.uses ++ Expr.allUses rest

end

/-- The mentions in an expression; all have the same scopes around them. -/
def Expr.occurrences (c : Context) (e : Expr) : List Occurrence :=
  e.uses.map fun u => ⟨.use u.1 u.2, c⟩

def Expr.optionalOccurrences (c : Context) : Option Expr → List Occurrence
  | some e => e.occurrences c
  | none => []

/-- The initializer of a variable stands behind its name. -/
def VarDecl.occurrences (c : Context) (decl : VarDecl) : List Occurrence :=
  ⟨.declare decl.name, c⟩ ::
    Expr.optionalOccurrences (c.announce decl.name.lexeme) decl.initializer

def VarDecl.allOccurrences (c : Context) : List VarDecl → List Occurrence
  | [] => []
  | decl :: rest => decl.occurrences c ++ VarDecl.allOccurrences (c.declare decl.name.lexeme) rest

/-- The parameters of a function are declared one after the other. -/
def parameterOccurrences (c : Context) : List Token → List Occurrence
  | [] => []
  | name :: rest => ⟨.declare name, c⟩ :: parameterOccurrences (c.declare name.lexeme) rest

/-- The names that a statement declares in the scope around it. -/
def Stmt.declared : Stmt → List Token
  | .classDecl name _ _ => [name]
  | .function decl => [decl.name]
  | .var decl => [decl.name]
  | .varList decls => decls.map (·.name)
  | _ => []

mutual

def Stmt.occurrences (c : Context) : Stmt → List Occurrence
  | .block body => Stmt.allOccurrences (c.enter (.block body)) body
  | .classDecl name superclass methods =>
    ⟨.declare name, c⟩ ::
      (superclass.toList.map (⟨.use .read ·, c.declare name.lexeme⟩) ++
        FunctionDecl.allOccurrences
          ((c.declare name.lexeme).enterClass name superclass methods) methods)
  | .expression value => value.occurrences c
  | .function decl => ⟨.declare decl.name, c⟩ :: decl.occurrences (c.declare decl.name.lexeme)
  | .branch condition thenBranch none =>
    condition.occurrences c ++ thenBranch.occurrences c
  | .branch condition thenBranch (some elseBranch) =>
    condition.occurrences c ++ (thenBranch.occurrences c ++ elseBranch.occurrences c)
  | .print value => value.occurrences c
  | .ret _ value => Expr.optionalOccurrences c value
  | .var decl => decl.occurrences c
  | .varList decls => VarDecl.allOccurrences c decls
  | .loop condition body => condition.occurrences c ++ body.occurrences c

/-- The mentions in the statements of one scope. -/
def Stmt.allOccurrences (c : Context) : List Stmt → List Occurrence
  | [] => []
  | s :: rest => s.occurrences c ++ Stmt.allOccurrences (c.declareAll s.declared) rest

/-- The mentions in a function, with the scopes around the function. -/
def FunctionDecl.occurrences (c : Context) : FunctionDecl → List Occurrence
  | ⟨name, params, body⟩ =>
    parameterOccurrences (c.enter (.function ⟨name, params, body⟩)) params ++
      Stmt.allOccurrences ((c.enter (.function ⟨name, params, body⟩)).declareAll params) body

/-- The mentions in the methods of a class, with the scopes around its `this`. -/
def FunctionDecl.allOccurrences (c : Context) : List FunctionDecl → List Occurrence
  | [] => []
  | decl :: rest =>
    decl.occurrences (c.enterThis decl) ++ FunctionDecl.allOccurrences c rest

end

mutual

/-- No branch and no body of a loop is a declaration, so that a scope only grows by the statements
that stand in it. -/
def Stmt.Regular : Stmt → Prop
  | .block body => Stmt.AllRegular body
  | .classDecl _ _ methods => FunctionDecl.AllRegular methods
  | .function decl => decl.Regular
  | .branch _ thenBranch none => thenBranch.declared = [] ∧ thenBranch.Regular
  | .branch _ thenBranch (some elseBranch) =>
    (thenBranch.declared = [] ∧ thenBranch.Regular) ∧ elseBranch.declared = [] ∧ elseBranch.Regular
  | .loop _ body => body.declared = [] ∧ body.Regular
  | .expression _ | .print _ | .ret _ _ | .var _ | .varList _ => True

def Stmt.AllRegular : List Stmt → Prop
  | [] => True
  | s :: rest => s.Regular ∧ Stmt.AllRegular rest

def FunctionDecl.Regular : FunctionDecl → Prop
  | ⟨_, _, body⟩ => Stmt.AllRegular body

def FunctionDecl.AllRegular : List FunctionDecl → Prop
  | [] => True
  | decl :: rest => decl.Regular ∧ FunctionDecl.AllRegular rest

end

theorem FunctionDecl.occurrences_eq (c : Context) (decl : FunctionDecl) :
    decl.occurrences c =
      parameterOccurrences (c.enter (.function decl)) decl.params ++
        Stmt.allOccurrences ((c.enter (.function decl)).declareAll decl.params) decl.body := by
  cases decl
  rw [FunctionDecl.occurrences]

theorem FunctionDecl.mem_allOccurrences {c : Context} {decls : List FunctionDecl}
    {decl : FunctionDecl} {o : Occurrence} (member : decl ∈ decls)
    (h : o ∈ decl.occurrences (c.enterThis decl)) : o ∈ FunctionDecl.allOccurrences c decls := by
  induction decls with
  | nil => cases member
  | cons first rest ih =>
    rw [FunctionDecl.allOccurrences, List.mem_append]
    rcases List.mem_cons.1 member with rfl | member
    · exact .inl h
    · exact .inr (ih member)

/-- All mentions of names in a program. -/
def occurrences (program : List Stmt) : List Occurrence := Stmt.allOccurrences [] program

end Treewalk
