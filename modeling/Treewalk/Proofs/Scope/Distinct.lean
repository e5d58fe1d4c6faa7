import Treewalk.Proofs.Scope.Resolved

/-!
# The names around a place

In one scope no name is declared twice. So a name that is declared in a scope has one place among
the names around a mention, and this is the place that a run finds it at.
-/

namespace Treewalk

/-- The names that a scope declares before a place, newest first. -/
def LexicalScope.own (s : LexicalScope) : List String := s.pending.toList ++ s.names

theorem LexicalScope.declares_iff {s : LexicalScope} {name : String} :
    s.Declares name ↔ name ∈ s.own := by
  unfold LexicalScope.Declares LexicalScope.own
  rw [List.mem_append, Option.mem_toList]
  exact or_comm

theorem LexicalScope.own_settled {s : LexicalScope} (settled : s.pending = none) :
    s.own = s.names := by
  rw [LexicalScope.own, settled]
  rfl

namespace Context

/-- The names declared around a place, innermost first. -/
def names (c : Context) : List String := c.flatMap LexicalScope.own

/-- No scope declares a name twice. -/
def Distinct (c : Context) : Prop := ∀ s ∈ c, s.own.Nodup

variable {c : Context} {name : Token}

namespace Distinct

/-- The names of the innermost scope are distinct, and the one to be declared is another one. -/
theorem fresh {s : LexicalScope} {outer : Context} (h : Distinct (s :: outer))
    (admissible : Occurrence.Admissible ⟨.declare name, s :: outer⟩) :
    (name.lexeme :: s.names).Nodup ∧ Distinct outer := by
  obtain ⟨-, new⟩ := admissible s rfl
  obtain ⟨own, others⟩ := List.forall_mem_cons.1 h
  refine ⟨List.nodup_cons.2 ⟨fun member => new (.inl member), ?_⟩, others⟩
  exact (List.nodup_append.1 own).2.1

theorem declare (h : c.Distinct) (admissible : Occurrence.Admissible ⟨.declare name, c⟩) :
    (c.declare name.lexeme).Distinct := by
  cases c with
  | nil => exact h
  | cons s outer =>
    obtain ⟨names, others⟩ := h.fresh admissible
    exact List.forall_mem_cons.2 ⟨names, others⟩

theorem announce (h : c.Distinct) (admissible : Occurrence.Admissible ⟨.declare name, c⟩) :
    (c.announce name.lexeme).Distinct := by
  cases c with
  | nil => exact h
  | cons s outer =>
    obtain ⟨names, others⟩ := h.fresh admissible
    exact List.forall_mem_cons.2 ⟨names, others⟩

theorem enter (h : c.Distinct) (site : Site) : (c.enter site).Distinct :=
  List.forall_mem_cons.2 ⟨.nil, h⟩

theorem enterThis (h : c.Distinct) (method : FunctionDecl) : (c.enterThis method).Distinct :=
  List.forall_mem_cons.2 ⟨List.pairwise_singleton _ _, h⟩

theorem enterClass (h : c.Distinct) (name : Token) (superclass : Option Variable)
    (methods : List FunctionDecl) : (c.enterClass name superclass methods).Distinct := by
  cases superclass with
  | none => exact h
  | some ref => exact List.forall_mem_cons.2 ⟨List.pairwise_singleton _ _, h⟩

end Distinct

end Context

open Context

variable {c : Context}

theorem Expr.distinct (distinct : c.Distinct) (e : Expr) :
    ∀ o ∈ e.occurrences c, o.context.Distinct := by
  intro o member
  obtain ⟨u, -, rfl⟩ := List.mem_map.1 member
  exact distinct

theorem Expr.optional_distinct (distinct : c.Distinct) (e : Option Expr) :
    ∀ o ∈ Expr.optionalOccurrences c e, o.context.Distinct := by
  cases e with
  | none => exact List.forall_mem_nil _
  | some e => exact Expr.distinct distinct e

theorem VarDecl.distinct (distinct : c.Distinct) (decl : VarDecl)
    (h : ∀ o ∈ decl.occurrences c, o.Admissible) :
    (∀ o ∈ decl.occurrences c, o.context.Distinct) ∧ (c.declare decl.name.lexeme).Distinct := by
  rw [VarDecl.occurrences, List.forall_mem_cons] at h
  refine ⟨?_, distinct.declare h.1⟩
  rw [VarDecl.occurrences, List.forall_mem_cons]
  exact ⟨distinct, Expr.optional_distinct (distinct.announce h.1) _⟩

theorem VarDecl.all_distinct (distinct : c.Distinct) (decls : List VarDecl)
    (h : ∀ o ∈ VarDecl.allOccurrences c decls, o.Admissible) :
    (∀ o ∈ VarDecl.allOccurrences c decls, o.context.Distinct) ∧
      (c.declareAll (decls.map (·.name))).Distinct := by
  induction decls generalizing c with
  | nil => exact ⟨List.forall_mem_nil _, distinct⟩
  | cons decl rest ih =>
    simp only [VarDecl.allOccurrences, List.forall_mem_append] at h ⊢
    obtain ⟨first, behind⟩ := VarDecl.distinct distinct decl h.1
    obtain ⟨others, after⟩ := ih behind h.2
    exact ⟨⟨first, others⟩, after⟩

theorem parameters_all_distinct (distinct : c.Distinct) (params : List Token)
    (h : ∀ o ∈ parameterOccurrences c params, o.Admissible) :
    (∀ o ∈ parameterOccurrences c params, o.context.Distinct) ∧ (c.declareAll params).Distinct := by
  induction params generalizing c with
  | nil => exact ⟨List.forall_mem_nil _, distinct⟩
  | cons param rest ih =>
    simp only [parameterOccurrences, List.forall_mem_cons] at h ⊢
    obtain ⟨others, after⟩ := ih (distinct.declare h.1) h.2
    exact ⟨⟨distinct, others⟩, after⟩

mutual

theorem Stmt.distinct {c : Context} (distinct : c.Distinct) : (s : Stmt) →
    (∀ o ∈ s.occurrences c, o.Admissible) →
    (∀ o ∈ s.occurrences c, o.context.Distinct) ∧ (c.declareAll s.declared).Distinct
  | .block body, h => ⟨Stmt.all_distinct (distinct.enter _) body h, distinct⟩
  | .classDecl name superclass methods, h => by
    simp only [Stmt.occurrences, List.forall_mem_cons, List.forall_mem_append] at h ⊢
    have behind := distinct.declare h.1
    refine ⟨⟨distinct, ?_, ?_⟩, behind⟩
    · intro o member
      obtain ⟨ref, -, rfl⟩ := List.mem_map.1 member
      exact behind
    · exact FunctionDecl.all_distinct (behind.enterClass _ _ _) methods h.2.2
  | .expression value, _ => ⟨Expr.distinct distinct value, distinct⟩
  | .function decl, h => by
    simp only [Stmt.occurrences, List.forall_mem_cons] at h ⊢
    have behind := distinct.declare h.1
    exact ⟨⟨distinct, FunctionDecl.distinct behind decl h.2⟩, behind⟩
  | .branch condition thenBranch none, h => by
    simp only [Stmt.occurrences, List.forall_mem_append] at h ⊢
    exact ⟨⟨Expr.distinct distinct condition, (Stmt.distinct distinct thenBranch h.2).1⟩, distinct⟩
  | .branch condition thenBranch (some elseBranch), h => by
    simp only [Stmt.occurrences, List.forall_mem_append] at h ⊢
    exact ⟨⟨Expr.distinct distinct condition, (Stmt.distinct distinct thenBranch h.2.1).1,
      (Stmt.distinct distinct elseBranch h.2.2).1⟩, distinct⟩
  | .print value, _ => ⟨Expr.distinct distinct value, distinct⟩
  | .ret _ value, _ => ⟨Expr.optional_distinct distinct value, distinct⟩
  | .var decl, h => VarDecl.distinct distinct decl h
  | .varList decls, h => VarDecl.all_distinct distinct decls h
  | .loop condition body, h => by
    simp only [Stmt.occurrences, List.forall_mem_append] at h ⊢
    exact ⟨⟨Expr.distinct distinct condition, (Stmt.distinct distinct body h.2).1⟩, distinct⟩

theorem Stmt.all_distinct {c : Context} (distinct : c.Distinct) : (body : List Stmt) →
    (∀ o ∈ Stmt.allOccurrences c body, o.Admissible) →
    ∀ o ∈ Stmt.allOccurrences c body, o.context.Distinct
  | [], _ => List.forall_mem_nil _
  | s :: rest, h => by
    simp only [Stmt.allOccurrences, List.forall_mem_append] at h ⊢
    obtain ⟨first, behind⟩ := Stmt.distinct distinct s h.1
    exact ⟨first, Stmt.all_distinct behind rest h.2⟩

theorem FunctionDecl.distinct {c : Context} (distinct : c.Distinct) : (decl : FunctionDecl) →
    (∀ o ∈ decl.occurrences c, o.Admissible) → ∀ o ∈ decl.occurrences c, o.context.Distinct
  | ⟨name, params, body⟩, h => by
    simp only [FunctionDecl.occurrences, List.forall_mem_append] at h ⊢
    obtain ⟨parameters, inside⟩ := parameters_all_distinct (distinct.enter _) params h.1
    exact ⟨parameters, Stmt.all_distinct inside body h.2⟩

theorem FunctionDecl.all_distinct {c : Context} (distinct : c.Distinct) :
    (decls : List FunctionDecl) →
    (∀ o ∈ FunctionDecl.allOccurrences c decls, o.Admissible) →
    ∀ o ∈ FunctionDecl.allOccurrences c decls, o.context.Distinct
  | [], _ => List.forall_mem_nil _
  | decl :: rest, h => by
    simp only [FunctionDecl.allOccurrences, List.forall_mem_append] at h ⊢
    exact ⟨FunctionDecl.distinct (distinct.enterThis decl) decl h.1,
      FunctionDecl.all_distinct distinct rest h.2⟩

end

/-- Around every mention of a program that resolves each scope declares its names once. -/
theorem occurrences_distinct {program : List Stmt}
    (h : ∀ o ∈ occurrences program, o.Admissible) :
    ∀ o ∈ occurrences program, o.context.Distinct :=
  Stmt.all_distinct (List.forall_mem_nil _) program h

end Treewalk
