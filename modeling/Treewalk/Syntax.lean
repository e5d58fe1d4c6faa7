import Treewalk.Token

/-!
# Programs

Expressions and statements as trees of tokens. Every node that refers to a variable (a name that
is read or assigned, `this`, `super`, the name of a superclass) carries a number of its own, under
which the distance to its declaration is kept. There is no node for `for`: it is a `while` loop
inside blocks.
-/

namespace Treewalk

/-- The number of a node that refers to a variable. -/
abbrev NodeId := Nat

/-- A reference to a variable. -/
structure Variable where
  id : NodeId
  name : Token
deriving DecidableEq

/-- A constant in a program. -/
inductive Constant where
  | number (value : Float)
  | text (value : String)
  | true
  | false
  | nil
deriving DecidableEq

inductive Expr where
  /-- `a, b, c`: the value is that of the last. -/
  | sequence (items : List Expr)
  | assign (id : NodeId) (name : Token) (value : Expr)
  | binary (left : Expr) (operator : Token) (right : Expr)
  /-- A call, with the parenthesis that closes it. -/
  | call (callee : Expr) (paren : Token) (arguments : List Expr)
  | get (object : Expr) (name : Token)
  | grouping (inner : Expr)
  | constant (value : Constant)
  /-- `and` and `or`, which may leave the right side alone. -/
  | logical (left : Expr) (operator : Token) (right : Expr)
  | set (object : Expr) (name : Token) (value : Expr)
  | super (id : NodeId) (keyword : Token) (method : Token)
  | this (id : NodeId) (keyword : Token)
  | unary (operator : Token) (right : Expr)
  | read (ref : Variable)

/-- One item of a `var` declaration. -/
structure VarDecl where
  name : Token
  initializer : Option Expr

mutual

inductive Stmt where
  | block (body : List Stmt)
  | classDecl (name : Token) (superclass : Option Variable) (methods : List FunctionDecl)
  | expression (value : Expr)
  | function (decl : FunctionDecl)
  | branch (condition : Expr) (thenBranch : Stmt) (elseBranch : Option Stmt)
  | print (value : Expr)
  | ret (keyword : Token) (value : Option Expr)
  | var (decl : VarDecl)
  /-- `var a = 1, b;`: two items or more, declared from left to right. -/
  | varList (decls : List VarDecl)
  | loop (condition : Expr) (body : Stmt)

/-- A function or a method. Its parameters and its body share one scope. -/
structure FunctionDecl where
  name : Token
  params : List Token
  body : List Stmt

end

instance : Inhabited Expr := ⟨.constant .nil⟩

instance : Inhabited Stmt := ⟨.block []⟩

/-- The name of the method that a new instance starts with. -/
def initializerName : String := "init"

/-- The name that is declared around the methods of a class with a superclass. -/
def superName : String := "super"

/-- The name that is declared around a method. -/
def thisName : String := "this"

/-- A method that starts new instances. -/
def FunctionDecl.isInitializer (f : FunctionDecl) : Bool := f.name.lexeme == initializerName

end Treewalk
