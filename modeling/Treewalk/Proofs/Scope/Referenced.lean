import Treewalk.Proofs.Scope.Context
import Treewalk.Syntax.Reference

/-!
# References are uses

A program has a reference for each use of a name. The two are listed in different orders: references
as they stand in the tree, uses in the order in which they are resolved, where a value comes before
what it is assigned to.
-/

namespace Treewalk

/-- The reference of a use. -/
def Occurrence.ref? : Occurrence → Option Variable
  | ⟨.use _ ref, _⟩ => some ref
  | ⟨.declare _, _⟩ => none

mutual

theorem Expr.refs_uses : (e : Expr) → (e.uses.map (·.2)).Perm e.references
  | .sequence items => Expr.refs_allUses items
  | .assign id name value => by
    rw [Expr.uses, Expr.references, List.map_append]
    exact ((Expr.refs_uses value).append_right [⟨id, name⟩]).trans List.perm_append_comm
  | .binary left _ right | .logical left _ right => by
    rw [Expr.uses, Expr.references, List.map_append]
    exact (Expr.refs_uses left).append (Expr.refs_uses right)
  | .call callee _ arguments => by
    rw [Expr.uses, Expr.references, List.map_append]
    exact (Expr.refs_uses callee).append (Expr.refs_allUses arguments)
  | .get object _ => Expr.refs_uses object
  | .grouping inner => Expr.refs_uses inner
  | .set object _ value => by
    rw [Expr.uses, Expr.references, List.map_append]
    exact ((Expr.refs_uses value).append (Expr.refs_uses object)).trans List.perm_append_comm
  | .unary _ right => Expr.refs_uses right
  | .constant _ | .super _ _ _ | .this _ _ | .read _ => .refl _

theorem Expr.refs_allUses : (es : List Expr) →
    ((Expr.allUses es).map (·.2)).Perm (Expr.allReferences es)
  | [] => .refl _
  | e :: rest => by
    rw [Expr.allUses, Expr.allReferences, List.map_append]
    exact (Expr.refs_uses e).append (Expr.refs_allUses rest)

end

theorem Expr.refs_occurrences (c : Context) (e : Expr) :
    ((e.occurrences c).filterMap Occurrence.ref?).Perm e.references := by
  have used : (e.occurrences c).filterMap Occurrence.ref? = e.uses.map (·.2) := by
    rw [Expr.occurrences, List.filterMap_map]
    exact congrFun List.filterMap_eq_map e.uses
  rw [used]
  exact e.refs_uses

theorem VarDecl.refs_occurrences (c : Context) (decl : VarDecl) :
    ((decl.occurrences c).filterMap Occurrence.ref?).Perm decl.references := by
  obtain ⟨name, initializer⟩ := decl
  cases initializer with
  | none => exact .refl _
  | some e => exact e.refs_occurrences _

theorem VarDecl.refs_allOccurrences (c : Context) (decls : List VarDecl) :
    ((VarDecl.allOccurrences c decls).filterMap Occurrence.ref?).Perm
      (decls.flatMap VarDecl.references) := by
  induction decls generalizing c with
  | nil => exact .refl _
  | cons decl rest ih =>
    rw [VarDecl.allOccurrences, List.filterMap_append, List.flatMap_cons]
    exact (decl.refs_occurrences c).append (ih _)

/-- Parameters are declared and not used. -/
theorem refs_parameterOccurrences (c : Context) (params : List Token) :
    (parameterOccurrences c params).filterMap Occurrence.ref? = [] := by
  induction params generalizing c with
  | nil => rfl
  | cons name rest ih => exact ih _

mutual

theorem Stmt.refs_occurrences (c : Context) : (s : Stmt) →
    ((s.occurrences c).filterMap Occurrence.ref?).Perm s.references
  | .block body => Stmt.refs_allOccurrences _ body
  | .classDecl name superclass methods => by
    have above : (superclass.toList.map fun ref : Variable =>
        (⟨.use .read ref, c.declare name.lexeme⟩ : Occurrence)).filterMap Occurrence.ref? =
        superclass.toList := by
      cases superclass <;> rfl
    rw [Stmt.occurrences, List.filterMap_cons_none rfl, List.filterMap_append, above,
      Stmt.references]
    exact (FunctionDecl.refs_allOccurrences _ methods).append_left _
  | .expression value | .print value => value.refs_occurrences c
  | .function ⟨name, params, body⟩ => by
    rw [Stmt.occurrences, List.filterMap_cons_none rfl, FunctionDecl.occurrences,
      List.filterMap_append, refs_parameterOccurrences, Stmt.references]
    exact Stmt.refs_allOccurrences _ body
  | .branch condition thenBranch none => by
    rw [Stmt.occurrences, List.filterMap_append, Stmt.references]
    exact (condition.refs_occurrences c).append (Stmt.refs_occurrences c thenBranch)
  | .branch condition thenBranch (some elseBranch) => by
    rw [Stmt.occurrences, List.filterMap_append, List.filterMap_append, Stmt.references,
      List.append_assoc]
    exact (condition.refs_occurrences c).append
      ((Stmt.refs_occurrences c thenBranch).append (Stmt.refs_occurrences c elseBranch))
  | .ret _ none => .refl _
  | .ret _ (some value) => value.refs_occurrences c
  | .var decl => decl.refs_occurrences c
  | .varList decls => VarDecl.refs_allOccurrences c decls
  | .loop condition body => by
    rw [Stmt.occurrences, List.filterMap_append, Stmt.references]
    exact (condition.refs_occurrences c).append (Stmt.refs_occurrences c body)

theorem Stmt.refs_allOccurrences (c : Context) : (body : List Stmt) →
    ((Stmt.allOccurrences c body).filterMap Occurrence.ref?).Perm (Stmt.allReferences body)
  | [] => .refl _
  | s :: rest => by
    rw [Stmt.allOccurrences, List.filterMap_append, Stmt.allReferences]
    exact (Stmt.refs_occurrences c s).append (Stmt.refs_allOccurrences _ rest)

theorem FunctionDecl.refs_allOccurrences (c : Context) : (decls : List FunctionDecl) →
    ((FunctionDecl.allOccurrences c decls).filterMap Occurrence.ref?).Perm
      (FunctionDecl.allReferences decls)
  | [] => .refl _
  | ⟨name, params, body⟩ :: rest => by
    rw [FunctionDecl.allOccurrences, FunctionDecl.occurrences, List.filterMap_append,
      List.filterMap_append, refs_parameterOccurrences, FunctionDecl.allReferences]
    exact (Stmt.refs_allOccurrences _ body).append (FunctionDecl.refs_allOccurrences c rest)

end

/-- Each reference in the body of a function is used there. -/
theorem FunctionDecl.exists_use {decl : FunctionDecl} (c : Context) {ref : Variable}
    (member : ref ∈ Stmt.allReferences decl.body) :
    ∃ role c', ⟨.use role ref, c'⟩ ∈ decl.occurrences c := by
  rw [FunctionDecl.occurrences_eq]
  have used := (Stmt.refs_allOccurrences ((c.enter (.function decl)).declareAll decl.params)
    decl.body).mem_iff.2 member
  obtain ⟨⟨mention, c'⟩, occurs, same⟩ := List.mem_filterMap.1 used
  cases mention with
  | declare name => cases same
  | use role ref' =>
    cases same
    exact ⟨role, c', List.mem_append_right _ occurs⟩

end Treewalk
