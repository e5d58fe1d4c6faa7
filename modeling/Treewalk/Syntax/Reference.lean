import Treewalk.Syntax

/-!
# The references of a program

Every node with a number of its own, with the token that names what it refers to. Sorted by number
they stand in the order of their tokens in the source; in the tree they do not, since the increment
of a `for` loop is read before its body and kept behind it.
-/

namespace Treewalk

mutual

def Expr.references : Expr → List Variable
  | .sequence items => Expr.allReferences items
  | .assign id name value => ⟨id, name⟩ :: value.references
  | .binary left _ right => left.references ++ right.references
  | .call callee _ arguments => callee.references ++ Expr.allReferences arguments
  | .get object _ => object.references
  | .grouping inner => inner.references
  | .constant _ => []
  | .logical left _ right => left.references ++ right.references
  | .set object _ value => object.references ++ value.references
  | .super id keyword _ => [⟨id, keyword⟩]
  | .this id keyword => [⟨id, keyword⟩]
  | .unary _ right => right.references
  | .read ref => [ref]

def Expr.allReferences : List Expr → List Variable
  | [] => []
  | e :: rest => e.references ++ Expr.allReferences rest

end

def VarDecl.references (decl : VarDecl) : List Variable :=
  match decl.initializer with
  | some value => value.references
  | none => []

mutual

def Stmt.references : Stmt → List Variable
  | .block body => Stmt.allReferences body
  | .classDecl _ superclass methods => superclass.toList ++ FunctionDecl.allReferences methods
  | .expression value => value.references
  | .function ⟨_, _, body⟩ => Stmt.allReferences body
  | .branch condition thenBranch none => condition.references ++ thenBranch.references
  | .branch condition thenBranch (some elseBranch) =>
    condition.references ++ thenBranch.references ++ elseBranch.references
  | .print value => value.references
  | .ret _ none => []
  | .ret _ (some value) => value.references
  | .var decl => decl.references
  | .varList decls => decls.flatMap VarDecl.references
  | .loop condition body => condition.references ++ body.references

def Stmt.allReferences : List Stmt → List Variable
  | [] => []
  | s :: rest => s.references ++ Stmt.allReferences rest

def FunctionDecl.allReferences : List FunctionDecl → List Variable
  | [] => []
  | ⟨_, _, body⟩ :: rest => Stmt.allReferences body ++ FunctionDecl.allReferences rest

end

/-- All references of a program, by their numbers. -/
def references (program : List Stmt) : List Variable :=
  (Stmt.allReferences program).mergeSort fun a b => a.id ≤ b.id

end Treewalk
