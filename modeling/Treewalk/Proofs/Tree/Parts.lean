import Treewalk.Syntax

/-!
# What trees are made of

`MadeOf token constant` says of a tree that each of its tokens is as `token` asks of the place where
it stands, and each of its constants as `constant` asks.
-/

namespace Treewalk

/-- The places where tokens stand in a tree. -/
inductive TokenRole where
  | name
  | binary
  | logical
  | unary
  | closing
  | superWord
  | thisWord
  | returnWord

section

variable (token : TokenRole → Token → Prop) (constant : Constant → Prop)

mutual

def Expr.MadeOf : Expr → Prop
  | .sequence items => Expr.AllMadeOf items
  | .assign _ name value => token .name name ∧ value.MadeOf
  | .binary left operator right => left.MadeOf ∧ token .binary operator ∧ right.MadeOf
  | .call callee paren arguments =>
    callee.MadeOf ∧ token .closing paren ∧ Expr.AllMadeOf arguments
  | .get object name => object.MadeOf ∧ token .name name
  | .grouping inner => inner.MadeOf
  | .constant value => constant value
  | .logical left operator right => left.MadeOf ∧ token .logical operator ∧ right.MadeOf
  | .set object name value => object.MadeOf ∧ token .name name ∧ value.MadeOf
  | .super _ keyword method => token .superWord keyword ∧ token .name method
  | .this _ keyword => token .thisWord keyword
  | .unary operator right => token .unary operator ∧ right.MadeOf
  | .read ref => token .name ref.name

def Expr.AllMadeOf : List Expr → Prop
  | [] => True
  | e :: rest => e.MadeOf ∧ Expr.AllMadeOf rest

end

def VarDecl.MadeOf (decl : VarDecl) : Prop :=
  token .name decl.name ∧ ∀ e ∈ decl.initializer, e.MadeOf token constant

mutual

def Stmt.MadeOf : Stmt → Prop
  | .block body => Stmt.AllMadeOf body
  | .classDecl name superclass methods =>
    token .name name ∧ (∀ v ∈ superclass, token .name v.name) ∧ FunctionDecl.AllMadeOf methods
  | .expression value => value.MadeOf token constant
  | .function decl => decl.MadeOf
  | .branch condition thenBranch none =>
    condition.MadeOf token constant ∧ thenBranch.MadeOf
  | .branch condition thenBranch (some elseBranch) =>
    condition.MadeOf token constant ∧ thenBranch.MadeOf ∧ elseBranch.MadeOf
  | .print value => value.MadeOf token constant
  | .ret keyword value =>
    token .returnWord keyword ∧ ∀ e ∈ value, e.MadeOf token constant
  | .var decl => decl.MadeOf token constant
  | .varList decls => ∀ decl ∈ decls, decl.MadeOf token constant
  | .loop condition body => condition.MadeOf token constant ∧ body.MadeOf

def Stmt.AllMadeOf : List Stmt → Prop
  | [] => True
  | s :: rest => s.MadeOf ∧ Stmt.AllMadeOf rest

def FunctionDecl.MadeOf : FunctionDecl → Prop
  | ⟨name, params, body⟩ =>
    token .name name ∧ (∀ p ∈ params, token .name p) ∧ Stmt.AllMadeOf body

def FunctionDecl.AllMadeOf : List FunctionDecl → Prop
  | [] => True
  | decl :: rest => decl.MadeOf ∧ FunctionDecl.AllMadeOf rest

end

end

end Treewalk
