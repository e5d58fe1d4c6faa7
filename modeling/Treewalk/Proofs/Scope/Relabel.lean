import Treewalk.Syntax

/-!
# Other numbers, other lines, other names

A program stays the same program when its references get other numbers, its tokens other lines and
its variables other names. `Relabel` says which. The names of functions, classes and properties
stay: a program can print them, or ask an instance for them.
-/

namespace Treewalk

/-- New numbers for references, new lines for tokens, and new names for variables. -/
structure Relabel where
  id : NodeId → NodeId
  line : Nat → Nat
  name : String → String

/-- Everything as it was. -/
def Relabel.identity : Relabel := ⟨fun i => i, fun line => line, fun name => name⟩

variable (r : Relabel)

def Token.relabel (t : Token) : Token := { t with line := r.line t.line }

/-- A token that names a variable. -/
def Token.rename (t : Token) : Token :=
  { t with lexeme := r.name t.lexeme, line := r.line t.line }

def Variable.relabel (v : Variable) : Variable := ⟨r.id v.id, v.name.rename r⟩

mutual

def Expr.relabel : Expr → Expr
  | .sequence items => .sequence (Expr.relabelAll items)
  | .assign id name value => .assign (r.id id) (name.rename r) value.relabel
  | .binary left operator right => .binary left.relabel (operator.relabel r) right.relabel
  | .call callee paren arguments =>
    .call callee.relabel (paren.relabel r) (Expr.relabelAll arguments)
  | .get object name => .get object.relabel (name.relabel r)
  | .grouping inner => .grouping inner.relabel
  | .constant value => .constant value
  | .logical left operator right => .logical left.relabel (operator.relabel r) right.relabel
  | .set object name value => .set object.relabel (name.relabel r) value.relabel
  | .super id keyword method => .super (r.id id) (keyword.relabel r) (method.relabel r)
  | .this id keyword => .this (r.id id) (keyword.relabel r)
  | .unary operator right => .unary (operator.relabel r) right.relabel
  | .read ref => .read (ref.relabel r)

def Expr.relabelAll : List Expr → List Expr
  | [] => []
  | e :: rest => e.relabel :: Expr.relabelAll rest

end

def VarDecl.relabel (decl : VarDecl) : VarDecl :=
  ⟨decl.name.rename r, decl.initializer.map (Expr.relabel r)⟩

mutual

def Stmt.relabel : Stmt → Stmt
  | .block body => .block (Stmt.relabelAll body)
  | .classDecl name superclass methods =>
    .classDecl (name.relabel r) (superclass.map (Variable.relabel r))
      (FunctionDecl.relabelAll methods)
  | .expression value => .expression (value.relabel r)
  | .function decl => .function decl.relabel
  | .branch condition thenBranch none => .branch (condition.relabel r) thenBranch.relabel none
  | .branch condition thenBranch (some elseBranch) =>
    .branch (condition.relabel r) thenBranch.relabel (some elseBranch.relabel)
  | .print value => .print (value.relabel r)
  | .ret keyword value => .ret (keyword.relabel r) (value.map (Expr.relabel r))
  | .var decl => .var (decl.relabel r)
  | .varList decls => .varList (decls.map (VarDecl.relabel r))
  | .loop condition body => .loop (condition.relabel r) body.relabel

def Stmt.relabelAll : List Stmt → List Stmt
  | [] => []
  | s :: rest => s.relabel :: Stmt.relabelAll rest

def FunctionDecl.relabel : FunctionDecl → FunctionDecl
  | ⟨name, params, body⟩ =>
    ⟨name.relabel r, params.map (Token.rename r), Stmt.relabelAll body⟩

def FunctionDecl.relabelAll : List FunctionDecl → List FunctionDecl
  | [] => []
  | decl :: rest => decl.relabel :: FunctionDecl.relabelAll rest

end

@[simp] theorem Token.relabel_kind (t : Token) : (t.relabel r).kind = t.kind := rfl

@[simp] theorem Token.relabel_lexeme (t : Token) : (t.relabel r).lexeme = t.lexeme := rfl

@[simp] theorem Token.relabel_line (t : Token) : (t.relabel r).line = r.line t.line := rfl

@[simp] theorem Token.rename_kind (t : Token) : (t.rename r).kind = t.kind := rfl

@[simp] theorem Token.rename_lexeme (t : Token) : (t.rename r).lexeme = r.name t.lexeme := rfl

@[simp] theorem Token.rename_line (t : Token) : (t.rename r).line = r.line t.line := rfl

@[simp] theorem Variable.relabel_id (v : Variable) : (v.relabel r).id = r.id v.id := rfl

@[simp] theorem Variable.relabel_name (v : Variable) : (v.relabel r).name = v.name.rename r := rfl

@[simp] theorem VarDecl.relabel_name (decl : VarDecl) :
    (decl.relabel r).name = decl.name.rename r := rfl

theorem Expr.relabelAll_eq_map (es : List Expr) :
    Expr.relabelAll r es = es.map (Expr.relabel r) := by
  induction es with
  | nil => rfl
  | cons e es ih => rw [Expr.relabelAll, ih, List.map_cons]

theorem Stmt.relabelAll_eq_map (body : List Stmt) :
    Stmt.relabelAll r body = body.map (Stmt.relabel r) := by
  induction body with
  | nil => rfl
  | cons s body ih => rw [Stmt.relabelAll, ih, List.map_cons]

theorem FunctionDecl.relabelAll_eq_map (decls : List FunctionDecl) :
    FunctionDecl.relabelAll r decls = decls.map (FunctionDecl.relabel r) := by
  induction decls with
  | nil => rfl
  | cons decl decls ih => rw [FunctionDecl.relabelAll, ih, List.map_cons]

theorem FunctionDecl.relabel_name (decl : FunctionDecl) :
    (decl.relabel r).name = decl.name.relabel r := by
  cases decl
  rw [FunctionDecl.relabel]

theorem FunctionDecl.relabel_params (decl : FunctionDecl) :
    (decl.relabel r).params = decl.params.map (Token.rename r) := by
  cases decl
  rw [FunctionDecl.relabel]

theorem FunctionDecl.relabel_body (decl : FunctionDecl) :
    (decl.relabel r).body = decl.body.map (Stmt.relabel r) := by
  cases decl
  rw [FunctionDecl.relabel, Stmt.relabelAll_eq_map]

theorem FunctionDecl.relabel_isInitializer (decl : FunctionDecl) :
    (decl.relabel r).isInitializer = decl.isInitializer := by
  cases decl
  rw [FunctionDecl.relabel]
  rfl

/-! With the numbers, lines and names that a program has it stays as it is. -/

theorem Token.rename_identity (t : Token) : t.rename .identity = t := rfl

theorem Variable.relabel_identity (v : Variable) : v.relabel .identity = v := rfl

mutual

theorem Expr.relabel_identity : (e : Expr) → e.relabel .identity = e
  | .sequence items => by rw [Expr.relabel, Expr.relabelAll_identity items]
  | .assign _ _ value => by rw [Expr.relabel, Expr.relabel_identity value]; rfl
  | .binary left _ right => by
    rw [Expr.relabel, Expr.relabel_identity left, Expr.relabel_identity right]; rfl
  | .call callee _ arguments => by
    rw [Expr.relabel, Expr.relabel_identity callee, Expr.relabelAll_identity arguments]; rfl
  | .get object _ => by rw [Expr.relabel, Expr.relabel_identity object]; rfl
  | .grouping inner => by rw [Expr.relabel, Expr.relabel_identity inner]
  | .constant _ => rfl
  | .logical left _ right => by
    rw [Expr.relabel, Expr.relabel_identity left, Expr.relabel_identity right]; rfl
  | .set object _ value => by
    rw [Expr.relabel, Expr.relabel_identity object, Expr.relabel_identity value]; rfl
  | .super .. => rfl
  | .this .. => rfl
  | .unary _ right => by rw [Expr.relabel, Expr.relabel_identity right]; rfl
  | .read _ => rfl

theorem Expr.relabelAll_identity : (es : List Expr) → Expr.relabelAll .identity es = es
  | [] => rfl
  | e :: rest => by
    rw [Expr.relabelAll, Expr.relabel_identity e, Expr.relabelAll_identity rest]

end

theorem Expr.map_relabel_identity (o : Option Expr) : o.map (Expr.relabel .identity) = o := by
  cases o with
  | none => rfl
  | some e => rw [Option.map_some, Expr.relabel_identity]

theorem VarDecl.relabel_identity (decl : VarDecl) : decl.relabel .identity = decl := by
  rw [VarDecl.relabel, Expr.map_relabel_identity]
  rfl

mutual

theorem Stmt.relabel_identity : (s : Stmt) → s.relabel .identity = s
  | .block body => by rw [Stmt.relabel, Stmt.relabelAll_identity body]
  | .classDecl _ superclass methods => by
    rw [Stmt.relabel, FunctionDecl.relabelAll_identity methods]
    cases superclass <;> rfl
  | .expression value => by rw [Stmt.relabel, Expr.relabel_identity value]
  | .function decl => by rw [Stmt.relabel, FunctionDecl.relabel_identity decl]
  | .branch condition thenBranch none => by
    rw [Stmt.relabel, Expr.relabel_identity condition, Stmt.relabel_identity thenBranch]
  | .branch condition thenBranch (some elseBranch) => by
    rw [Stmt.relabel, Expr.relabel_identity condition, Stmt.relabel_identity thenBranch,
      Stmt.relabel_identity elseBranch]
  | .print value => by rw [Stmt.relabel, Expr.relabel_identity value]
  | .ret _ value => by rw [Stmt.relabel, Expr.map_relabel_identity]; rfl
  | .var decl => by rw [Stmt.relabel, VarDecl.relabel_identity]
  | .varList decls => by
    rw [Stmt.relabel, List.map_congr_left (fun decl _ => VarDecl.relabel_identity decl),
      List.map_id']
  | .loop condition body => by
    rw [Stmt.relabel, Expr.relabel_identity condition, Stmt.relabel_identity body]

theorem Stmt.relabelAll_identity : (body : List Stmt) → Stmt.relabelAll .identity body = body
  | [] => rfl
  | s :: rest => by
    rw [Stmt.relabelAll, Stmt.relabel_identity s, Stmt.relabelAll_identity rest]

theorem FunctionDecl.relabel_identity : (decl : FunctionDecl) → decl.relabel .identity = decl
  | ⟨_, params, body⟩ => by
    rw [FunctionDecl.relabel, Stmt.relabelAll_identity body,
      List.map_congr_left (fun t _ => Token.rename_identity t), List.map_id']
    rfl

theorem FunctionDecl.relabelAll_identity :
    (decls : List FunctionDecl) → FunctionDecl.relabelAll .identity decls = decls
  | [] => rfl
  | decl :: rest => by
    rw [FunctionDecl.relabelAll, FunctionDecl.relabel_identity decl,
      FunctionDecl.relabelAll_identity rest]

end

/-! One change after the other is one change. -/

/-- First one change, then another. -/
def Relabel.andThen (r r' : Relabel) : Relabel :=
  ⟨fun i => r'.id (r.id i), fun line => r'.line (r.line line), fun name => r'.name (r.name name)⟩

variable (r' : Relabel)

mutual

theorem Expr.relabel_relabel : (e : Expr) → (e.relabel r).relabel r' = e.relabel (r.andThen r')
  | .sequence items => by simp only [Expr.relabel, Expr.relabelAll_relabelAll items]
  | .assign _ _ value => by simp only [Expr.relabel, Expr.relabel_relabel value]; rfl
  | .binary left _ right => by
    simp only [Expr.relabel, Expr.relabel_relabel left, Expr.relabel_relabel right]; rfl
  | .call callee _ arguments => by
    simp only [Expr.relabel, Expr.relabel_relabel callee, Expr.relabelAll_relabelAll arguments]; rfl
  | .get object _ => by simp only [Expr.relabel, Expr.relabel_relabel object]; rfl
  | .grouping inner => by simp only [Expr.relabel, Expr.relabel_relabel inner]
  | .constant _ => rfl
  | .logical left _ right => by
    simp only [Expr.relabel, Expr.relabel_relabel left, Expr.relabel_relabel right]; rfl
  | .set object _ value => by
    simp only [Expr.relabel, Expr.relabel_relabel object, Expr.relabel_relabel value]; rfl
  | .super .. => rfl
  | .this .. => rfl
  | .unary _ right => by simp only [Expr.relabel, Expr.relabel_relabel right]; rfl
  | .read _ => rfl

theorem Expr.relabelAll_relabelAll : (es : List Expr) →
    Expr.relabelAll r' (Expr.relabelAll r es) = Expr.relabelAll (r.andThen r') es
  | [] => rfl
  | e :: rest => by
    simp only [Expr.relabelAll, Expr.relabel_relabel e, Expr.relabelAll_relabelAll rest]

end

theorem Expr.map_relabel_relabel (o : Option Expr) :
    (o.map (Expr.relabel r)).map (Expr.relabel r') = o.map (Expr.relabel (r.andThen r')) := by
  cases o with
  | none => rfl
  | some e => exact congrArg some (Expr.relabel_relabel r r' e)

theorem VarDecl.relabel_relabel (decl : VarDecl) :
    (decl.relabel r).relabel r' = decl.relabel (r.andThen r') := by
  simp only [VarDecl.relabel, Expr.map_relabel_relabel]
  rfl

theorem Token.map_rename_rename (params : List Token) :
    (params.map (Token.rename r)).map (Token.rename r') =
      params.map (Token.rename (r.andThen r')) := by
  rw [List.map_map]
  rfl

mutual

theorem Stmt.relabel_relabel : (s : Stmt) → (s.relabel r).relabel r' = s.relabel (r.andThen r')
  | .block body => by simp only [Stmt.relabel, Stmt.relabelAll_relabelAll body]
  | .classDecl _ superclass methods => by
    simp only [Stmt.relabel, FunctionDecl.relabelAll_relabelAll methods]
    cases superclass <;> rfl
  | .expression value => by simp only [Stmt.relabel, Expr.relabel_relabel]
  | .function decl => by simp only [Stmt.relabel, FunctionDecl.relabel_relabel decl]
  | .branch condition thenBranch none => by
    simp only [Stmt.relabel, Expr.relabel_relabel, Stmt.relabel_relabel thenBranch]
  | .branch condition thenBranch (some elseBranch) => by
    simp only [Stmt.relabel, Expr.relabel_relabel, Stmt.relabel_relabel thenBranch,
      Stmt.relabel_relabel elseBranch]
  | .print value => by simp only [Stmt.relabel, Expr.relabel_relabel]
  | .ret _ value => by simp only [Stmt.relabel, Expr.map_relabel_relabel]; rfl
  | .var decl => by simp only [Stmt.relabel, VarDecl.relabel_relabel]
  | .varList decls => by
    simp only [Stmt.relabel, List.map_map, Stmt.varList.injEq]
    exact List.map_congr_left fun decl _ => VarDecl.relabel_relabel r r' decl
  | .loop condition body => by
    simp only [Stmt.relabel, Expr.relabel_relabel, Stmt.relabel_relabel body]

theorem Stmt.relabelAll_relabelAll : (body : List Stmt) →
    Stmt.relabelAll r' (Stmt.relabelAll r body) = Stmt.relabelAll (r.andThen r') body
  | [] => rfl
  | s :: rest => by
    simp only [Stmt.relabelAll, Stmt.relabel_relabel s, Stmt.relabelAll_relabelAll rest]

theorem FunctionDecl.relabel_relabel : (decl : FunctionDecl) →
    (decl.relabel r).relabel r' = decl.relabel (r.andThen r')
  | ⟨_, params, body⟩ => by
    simp only [FunctionDecl.relabel, Stmt.relabelAll_relabelAll body, Token.map_rename_rename]
    rfl

theorem FunctionDecl.relabelAll_relabelAll : (decls : List FunctionDecl) →
    FunctionDecl.relabelAll r' (FunctionDecl.relabelAll r decls) =
      FunctionDecl.relabelAll (r.andThen r') decls
  | [] => rfl
  | decl :: rest => by
    simp only [FunctionDecl.relabelAll, FunctionDecl.relabel_relabel decl,
      FunctionDecl.relabelAll_relabelAll rest]

end

end Treewalk
