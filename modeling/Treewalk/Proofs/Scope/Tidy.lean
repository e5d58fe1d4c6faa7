import Treewalk.Proofs.Scope.Context

/-!
# Tidy programs

A run needs to know two things of the statements that it comes to, whatever stands around them:
that no branch and no body of a loop is a declaration, and something about the names of the
functions and classes that are declared, which a program can print.
-/

namespace Treewalk

variable (named : String → Prop)

mutual

/-- The statement is regular, and so are the names of the functions and classes in it. -/
def Stmt.Tidy : Stmt → Prop
  | .block body => Stmt.AllTidy body
  | .classDecl name _ methods => named name.lexeme ∧ FunctionDecl.AllTidy methods
  | .function decl => named decl.name.lexeme ∧ decl.Tidy
  | .branch _ thenBranch none => thenBranch.declared = [] ∧ thenBranch.Tidy
  | .branch _ thenBranch (some elseBranch) =>
    (thenBranch.declared = [] ∧ thenBranch.Tidy) ∧ elseBranch.declared = [] ∧ elseBranch.Tidy
  | .loop _ body => body.declared = [] ∧ body.Tidy
  | .expression _ | .print _ | .ret _ _ | .var _ | .varList _ => True

def Stmt.AllTidy : List Stmt → Prop
  | [] => True
  | s :: rest => s.Tidy ∧ Stmt.AllTidy rest

def FunctionDecl.Tidy : FunctionDecl → Prop
  | ⟨_, _, body⟩ => Stmt.AllTidy body

def FunctionDecl.AllTidy : List FunctionDecl → Prop
  | [] => True
  | decl :: rest => decl.Tidy ∧ FunctionDecl.AllTidy rest

end

variable {named}

theorem FunctionDecl.tidy_iff (decl : FunctionDecl) :
    decl.Tidy named ↔ Stmt.AllTidy named decl.body := by
  cases decl
  rw [FunctionDecl.Tidy]

theorem FunctionDecl.tidy_of_mem {decls : List FunctionDecl} {decl : FunctionDecl}
    (member : decl ∈ decls) (h : FunctionDecl.AllTidy named decls) : decl.Tidy named := by
  induction decls with
  | nil => cases member
  | cons first rest ih =>
    rw [FunctionDecl.AllTidy] at h
    rcases List.mem_cons.1 member with rfl | member
    · exact h.1
    · exact ih member h.2

/-- The name of something that is declared. -/
def Occurrence.Declares (o : Occurrence) (name : String) : Prop :=
  ∃ token : Token, o.mention = .declare token ∧ token.lexeme = name

mutual

/-- A regular program is tidy if all names that it declares are as wanted. -/
theorem Stmt.tidy_of_regular (c : Context) :
    (s : Stmt) → s.Regular → (∀ o ∈ s.occurrences c, ∀ name, o.Declares name → named name) →
      s.Tidy named
  | .block body, regular, h => by
    rw [Stmt.Regular] at regular
    rw [Stmt.Tidy]
    rw [Stmt.occurrences] at h
    exact Stmt.allTidy_of_regular _ body regular h
  | .classDecl name superclass methods, regular, h => by
    rw [Stmt.Regular] at regular
    rw [Stmt.Tidy]
    simp only [Stmt.occurrences, List.forall_mem_cons, List.forall_mem_append] at h
    exact ⟨h.1 _ ⟨name, rfl, rfl⟩, FunctionDecl.allTidy_of_regular _ methods regular h.2.2⟩
  | .function decl, regular, h => by
    rw [Stmt.Regular] at regular
    rw [Stmt.Tidy]
    simp only [Stmt.occurrences, List.forall_mem_cons] at h
    exact ⟨h.1 _ ⟨decl.name, rfl, rfl⟩, FunctionDecl.tidy_of_regular _ decl regular h.2⟩
  | .branch condition thenBranch none, regular, h => by
    rw [Stmt.Regular] at regular
    rw [Stmt.Tidy]
    simp only [Stmt.occurrences, List.forall_mem_append] at h
    exact ⟨regular.1, Stmt.tidy_of_regular c thenBranch regular.2 h.2⟩
  | .branch condition thenBranch (some elseBranch), regular, h => by
    rw [Stmt.Regular] at regular
    rw [Stmt.Tidy]
    simp only [Stmt.occurrences, List.forall_mem_append] at h
    exact ⟨⟨regular.1.1, Stmt.tidy_of_regular c thenBranch regular.1.2 h.2.1⟩, regular.2.1,
      Stmt.tidy_of_regular c elseBranch regular.2.2 h.2.2⟩
  | .loop condition body, regular, h => by
    rw [Stmt.Regular] at regular
    rw [Stmt.Tidy]
    simp only [Stmt.occurrences, List.forall_mem_append] at h
    exact ⟨regular.1, Stmt.tidy_of_regular c body regular.2 h.2⟩
  | .expression _, _, _ | .print _, _, _ | .ret _ _, _, _ | .var _, _, _ | .varList _, _, _ => by
    rw [Stmt.Tidy]
    trivial

theorem Stmt.allTidy_of_regular (c : Context) :
    (body : List Stmt) → Stmt.AllRegular body →
      (∀ o ∈ Stmt.allOccurrences c body, ∀ name, o.Declares name → named name) →
      Stmt.AllTidy named body
  | [], _, _ => by
    rw [Stmt.AllTidy]
    trivial
  | s :: rest, regular, h => by
    rw [Stmt.AllRegular] at regular
    rw [Stmt.AllTidy]
    simp only [Stmt.allOccurrences, List.forall_mem_append] at h
    exact ⟨Stmt.tidy_of_regular c s regular.1 h.1, Stmt.allTidy_of_regular _ rest regular.2 h.2⟩

theorem FunctionDecl.tidy_of_regular (c : Context) :
    (decl : FunctionDecl) → decl.Regular →
      (∀ o ∈ decl.occurrences c, ∀ name, o.Declares name → named name) → decl.Tidy named
  | ⟨name, params, body⟩, regular, h => by
    rw [FunctionDecl.Regular] at regular
    rw [FunctionDecl.Tidy]
    simp only [FunctionDecl.occurrences, List.forall_mem_append] at h
    exact Stmt.allTidy_of_regular _ body regular h.2

theorem FunctionDecl.allTidy_of_regular (c : Context) :
    (decls : List FunctionDecl) → FunctionDecl.AllRegular decls →
      (∀ o ∈ FunctionDecl.allOccurrences c decls, ∀ name, o.Declares name → named name) →
      FunctionDecl.AllTidy named decls
  | [], _, _ => by
    rw [FunctionDecl.AllTidy]
    trivial
  | decl :: rest, regular, h => by
    rw [FunctionDecl.AllRegular] at regular
    rw [FunctionDecl.AllTidy]
    simp only [FunctionDecl.allOccurrences, List.forall_mem_append] at h
    exact ⟨FunctionDecl.tidy_of_regular _ decl regular.1 h.1,
      FunctionDecl.allTidy_of_regular c rest regular.2 h.2⟩

end

mutual

/-- A tidy program is regular. -/
theorem Stmt.regular_of_tidy : (s : Stmt) → s.Tidy named → s.Regular
  | .block body, tidy => by
    rw [Stmt.Tidy] at tidy
    rw [Stmt.Regular]
    exact Stmt.allRegular_of_tidy body tidy
  | .classDecl _ _ methods, tidy => by
    rw [Stmt.Tidy] at tidy
    rw [Stmt.Regular]
    exact FunctionDecl.allRegular_of_tidy methods tidy.2
  | .function decl, tidy => by
    rw [Stmt.Tidy] at tidy
    rw [Stmt.Regular]
    exact FunctionDecl.regular_of_tidy decl tidy.2
  | .branch _ thenBranch none, tidy => by
    rw [Stmt.Tidy] at tidy
    rw [Stmt.Regular]
    exact ⟨tidy.1, Stmt.regular_of_tidy thenBranch tidy.2⟩
  | .branch _ thenBranch (some elseBranch), tidy => by
    rw [Stmt.Tidy] at tidy
    rw [Stmt.Regular]
    exact ⟨⟨tidy.1.1, Stmt.regular_of_tidy thenBranch tidy.1.2⟩, tidy.2.1,
      Stmt.regular_of_tidy elseBranch tidy.2.2⟩
  | .loop _ body, tidy => by
    rw [Stmt.Tidy] at tidy
    rw [Stmt.Regular]
    exact ⟨tidy.1, Stmt.regular_of_tidy body tidy.2⟩
  | .expression _, _ | .print _, _ | .ret _ _, _ | .var _, _ | .varList _, _ => by
    rw [Stmt.Regular]
    trivial

theorem Stmt.allRegular_of_tidy :
    (body : List Stmt) → Stmt.AllTidy named body → Stmt.AllRegular body
  | [], _ => by
    rw [Stmt.AllRegular]
    trivial
  | s :: rest, tidy => by
    rw [Stmt.AllTidy] at tidy
    rw [Stmt.AllRegular]
    exact ⟨Stmt.regular_of_tidy s tidy.1, Stmt.allRegular_of_tidy rest tidy.2⟩

theorem FunctionDecl.regular_of_tidy : (decl : FunctionDecl) → decl.Tidy named → decl.Regular
  | ⟨_, _, body⟩, tidy => by
    rw [FunctionDecl.Tidy] at tidy
    rw [FunctionDecl.Regular]
    exact Stmt.allRegular_of_tidy body tidy

theorem FunctionDecl.allRegular_of_tidy :
    (decls : List FunctionDecl) → FunctionDecl.AllTidy named decls → FunctionDecl.AllRegular decls
  | [], _ => by
    rw [FunctionDecl.AllRegular]
    trivial
  | decl :: rest, tidy => by
    rw [FunctionDecl.AllTidy] at tidy
    rw [FunctionDecl.AllRegular]
    exact ⟨FunctionDecl.regular_of_tidy decl tidy.1, FunctionDecl.allRegular_of_tidy rest tidy.2⟩

end

end Treewalk
