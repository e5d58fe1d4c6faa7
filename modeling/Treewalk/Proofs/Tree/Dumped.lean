import Treewalk.Proofs.Text.Pretty
import Treewalk.Proofs.Tree.Parts
import Treewalk.Syntax.Dump

/-!
# What a dump keeps

A tree is told by the JSON value that stands for it: the one field of a node names its kind, and
what may be missing is `null` if it is. As the texts of a value tell the value, the dump of a
program tells the program, with the numbers of its references and the lines of its tokens.
-/

namespace Treewalk

theorem ofOption_eq_iff {α : Type} {f : α → Json} (some : ∀ a, f a ≠ .null)
    (inj : ∀ a b, f a = f b ↔ a = b) (o o' : Option α) :
    Json.ofOption (o.map f) = Json.ofOption (o'.map f) ↔ o = o' := by
  cases o with
  | none =>
    cases o' with
    | none => simp
    | some b => simpa [Json.ofOption] using (some b).symm
  | some a =>
    cases o' with
    | none => simpa [Json.ofOption] using some a
    | some b => simp [Json.ofOption, inj]

theorem TokenKind.ofName?_name (k : TokenKind) : ofName? k.name = some k := by
  cases k <;> rfl

/-- The names of kinds differ, since a kind is found by its name. -/
@[simp] theorem TokenKind.name_eq_iff (k l : TokenKind) : k.name = l.name ↔ k = l := by
  constructor
  · intro same
    have found := congrArg ofName? same
    rw [ofName?_name, ofName?_name] at found
    exact Option.some.inj found
  · exact congrArg _

@[simp] theorem Token.Literal.json_eq_iff (a b : Token.Literal) : a.json = b.json ↔ a = b := by
  cases a <;> cases b <;> simp [Token.Literal.json, Json.tagged]

theorem Token.Literal.json_ne_null (a : Token.Literal) : a.json ≠ .null := by
  cases a <;> simp [Token.Literal.json, Json.tagged]

@[simp] theorem Token.json_eq_iff (t u : Token) : t.json = u.json ↔ t = u := by
  have literals :=
    ofOption_eq_iff Token.Literal.json_ne_null Token.Literal.json_eq_iff t.literal u.literal
  cases t
  cases u
  simp [Token.json, literals]

@[simp] theorem Variable.json_eq_iff (v w : Variable) : v.json = w.json ↔ v = w := by
  cases v
  cases w
  simp [Variable.json]

@[simp] theorem Constant.json_eq_iff (c d : Constant) : c.json = d.json ↔ c = d := by
  cases c <;> cases d <;> simp [Constant.json, Json.tagged]

theorem Variable.json_ne_null (v : Variable) : v.json ≠ .null := nofun

mutual

theorem Expr.json_eq_iff : (a b : Expr) → (a.json = b.json ↔ a = b)
  | .sequence items, b => by
    cases b <;> simp [Expr.json, Json.tagged, Expr.jsons_eq_iff items]
  | .assign id name value, b => by
    cases b <;> simp [Expr.json, Json.tagged, Expr.json_eq_iff value]
  | .binary left operator right, b => by
    cases b <;> simp [Expr.json, Json.tagged, Expr.json_eq_iff left, Expr.json_eq_iff right]
  | .call callee paren arguments, b => by
    cases b <;> simp [Expr.json, Json.tagged, Expr.json_eq_iff callee, Expr.jsons_eq_iff arguments]
  | .get object name, b => by
    cases b <;> simp [Expr.json, Json.tagged, Expr.json_eq_iff object]
  | .grouping inner, b => by
    cases b <;> simp [Expr.json, Json.tagged, Expr.json_eq_iff inner]
  | .constant value, b => by
    cases b <;> simp [Expr.json, Json.tagged]
  | .logical left operator right, b => by
    cases b <;> simp [Expr.json, Json.tagged, Expr.json_eq_iff left, Expr.json_eq_iff right]
  | .set object name value, b => by
    cases b <;> simp [Expr.json, Json.tagged, Expr.json_eq_iff object, Expr.json_eq_iff value]
  | .super id keyword method, b => by
    cases b <;> simp [Expr.json, Json.tagged]
  | .this id keyword, b => by
    cases b <;> simp [Expr.json, Json.tagged]
  | .unary operator right, b => by
    cases b <;> simp [Expr.json, Json.tagged, Expr.json_eq_iff right]
  | .read ref, b => by
    cases b <;> simp [Expr.json, Json.tagged]

theorem Expr.jsons_eq_iff : (as bs : List Expr) → (Expr.jsons as = Expr.jsons bs ↔ as = bs)
  | [], bs => by cases bs <;> simp [Expr.jsons]
  | a :: as, bs => by
    cases bs <;> simp [Expr.jsons, Expr.json_eq_iff a, Expr.jsons_eq_iff as]

end

theorem Expr.json_ne_null (e : Expr) : e.json ≠ .null := by
  cases e <;> simp [Expr.json, Json.tagged]

@[simp] theorem VarDecl.json_eq_iff (a b : VarDecl) : a.json = b.json ↔ a = b := by
  have initializers :=
    ofOption_eq_iff Expr.json_ne_null Expr.json_eq_iff a.initializer b.initializer
  cases a
  cases b
  simp [VarDecl.json, initializers]

/-- A branch that is missing is `null`. -/
theorem Stmt.json_branch (condition : Expr) (thenBranch : Stmt) (elseBranch : Option Stmt) :
    (Stmt.branch condition thenBranch elseBranch).json = .tagged "If"
      (.object [("condition", condition.json), ("then_branch", thenBranch.json),
        ("else_branch", .ofOption (elseBranch.map Stmt.json))]) := by
  cases elseBranch <;> rw [Stmt.json] <;> rfl

theorem Stmt.json_ne_null (s : Stmt) : s.json ≠ .null := by
  cases s <;> simp [Stmt.json, Stmt.json_branch, VarDecl.json, Json.tagged]

mutual

theorem Stmt.json_eq_iff : (a b : Stmt) → (a.json = b.json ↔ a = b)
  | .block body, b => by
    cases b <;> simp [Stmt.json, Stmt.json_branch, Json.tagged, Stmt.jsons_eq_iff body]
  | .classDecl name superclass methods, b => by
    have superclasses := ofOption_eq_iff Variable.json_ne_null Variable.json_eq_iff superclass
    cases b <;> simp [Stmt.json, Stmt.json_branch, Json.tagged, superclasses,
      FunctionDecl.jsons_eq_iff methods]
  | .expression value, b => by
    cases b <;> simp [Stmt.json, Stmt.json_branch, Json.tagged, Expr.json_eq_iff value]
  | .function decl, b => by
    cases b <;> simp [Stmt.json, Stmt.json_branch, Json.tagged, FunctionDecl.json_eq_iff decl]
  | .branch condition thenBranch none, b => by
    cases b with
    | branch condition' thenBranch' elseBranch =>
      cases elseBranch <;> simp [Stmt.json, Json.tagged, Expr.json_eq_iff condition,
        Stmt.json_eq_iff thenBranch, (Stmt.json_ne_null _).symm]
    | _ => simp [Stmt.json, Json.tagged]
  | .branch condition thenBranch (some elseBranch), b => by
    cases b with
    | branch condition' thenBranch' elseBranch' =>
      cases elseBranch' <;> simp [Stmt.json, Json.tagged, Expr.json_eq_iff condition,
        Stmt.json_eq_iff thenBranch, Stmt.json_eq_iff elseBranch, Stmt.json_ne_null]
    | _ => simp [Stmt.json, Json.tagged]
  | .print value, b => by
    cases b <;> simp [Stmt.json, Stmt.json_branch, Json.tagged, Expr.json_eq_iff value]
  | .ret keyword value, b => by
    have values := ofOption_eq_iff Expr.json_ne_null Expr.json_eq_iff value
    cases b <;> simp [Stmt.json, Stmt.json_branch, Json.tagged, values]
  | .var decl, b => by
    cases b <;> simp [Stmt.json, Stmt.json_branch, Json.tagged]
  | .varList decls, b => by
    have items (decls' : List VarDecl) : decls.map VarDecl.json = decls'.map VarDecl.json ↔
        decls = decls' := List.map_inj_right fun a b => (VarDecl.json_eq_iff a b).1
    cases b <;> simp [Stmt.json, Stmt.json_branch, Json.tagged, items]
  | .loop condition body, b => by
    cases b <;> simp [Stmt.json, Stmt.json_branch, Json.tagged, Expr.json_eq_iff condition,
      Stmt.json_eq_iff body]

theorem Stmt.jsons_eq_iff : (as bs : List Stmt) → (Stmt.jsons as = Stmt.jsons bs ↔ as = bs)
  | [], bs => by cases bs <;> simp [Stmt.jsons]
  | a :: as, bs => by
    cases bs <;> simp [Stmt.jsons, Stmt.json_eq_iff a, Stmt.jsons_eq_iff as]

theorem FunctionDecl.json_eq_iff : (a b : FunctionDecl) → (a.json = b.json ↔ a = b)
  | ⟨name, params, body⟩, b => by
    have items (params' : List Token) : params.map Token.json = params'.map Token.json ↔
        params = params' := List.map_inj_right fun a b => (Token.json_eq_iff a b).1
    cases b
    simp [FunctionDecl.json, items, Stmt.jsons_eq_iff body]

theorem FunctionDecl.jsons_eq_iff : (as bs : List FunctionDecl) →
    (FunctionDecl.jsons as = FunctionDecl.jsons bs ↔ as = bs)
  | [], bs => by cases bs <;> simp [FunctionDecl.jsons]
  | a :: as, bs => by
    cases bs <;>
      simp [FunctionDecl.jsons, FunctionDecl.json_eq_iff a, FunctionDecl.jsons_eq_iff as]

end

/-- The token has no number that is not finite. -/
def Token.Finite (t : Token) : Prop := ∀ x, t.literal = some (.number x) → x.isFinite

/-- The constant is no number that is not finite. -/
def Constant.Finite (c : Constant) : Prop := ∀ x, c = .number x → x.isFinite

@[simp] theorem Token.json_finite_iff (t : Token) : t.json.Finite ↔ t.Finite := by
  rcases t with ⟨kind, lexeme, _ | _ | _, line⟩ <;>
    simp [Token.json, Token.Finite, Token.Literal.json, Json.tagged]

@[simp] theorem Variable.json_finite_iff (v : Variable) : v.json.Finite ↔ v.name.Finite := by
  simp [Variable.json]

@[simp] theorem Constant.json_finite_iff (c : Constant) : c.json.Finite ↔ c.Finite := by
  cases c <;> simp [Constant.json, Constant.Finite, Json.tagged]

mutual

theorem Expr.json_finite_iff :
    (e : Expr) → (e.json.Finite ↔ e.MadeOf (fun _ => Token.Finite) Constant.Finite)
  | .sequence items => by
    simp [Expr.json, Expr.MadeOf, Json.tagged, Expr.jsons_finite_iff items]
  | .assign id name value => by
    simp [Expr.json, Expr.MadeOf, Json.tagged, Expr.json_finite_iff value]
  | .binary left operator right => by
    simp [Expr.json, Expr.MadeOf, Json.tagged, Expr.json_finite_iff left,
      Expr.json_finite_iff right]
  | .call callee paren arguments => by
    simp [Expr.json, Expr.MadeOf, Json.tagged, Expr.json_finite_iff callee,
      Expr.jsons_finite_iff arguments]
  | .get object name => by
    simp [Expr.json, Expr.MadeOf, Json.tagged, Expr.json_finite_iff object]
  | .grouping inner => by
    simp [Expr.json, Expr.MadeOf, Json.tagged, Expr.json_finite_iff inner]
  | .constant value => by
    simp [Expr.json, Expr.MadeOf, Json.tagged]
  | .logical left operator right => by
    simp [Expr.json, Expr.MadeOf, Json.tagged, Expr.json_finite_iff left,
      Expr.json_finite_iff right]
  | .set object name value => by
    simp [Expr.json, Expr.MadeOf, Json.tagged, Expr.json_finite_iff object,
      Expr.json_finite_iff value]
  | .super id keyword method => by
    simp [Expr.json, Expr.MadeOf, Json.tagged]
  | .this id keyword => by
    simp [Expr.json, Expr.MadeOf, Json.tagged]
  | .unary operator right => by
    simp [Expr.json, Expr.MadeOf, Json.tagged, Expr.json_finite_iff right]
  | .read ref => by
    simp [Expr.json, Expr.MadeOf, Json.tagged]

theorem Expr.jsons_finite_iff : (es : List Expr) → ((∀ a ∈ Expr.jsons es, a.Finite) ↔
    Expr.AllMadeOf (fun _ => Token.Finite) Constant.Finite es)
  | [] => by simp [Expr.jsons, Expr.AllMadeOf]
  | e :: es => by
    simp [Expr.jsons, Expr.AllMadeOf, Expr.json_finite_iff e, Expr.jsons_finite_iff es]

end

@[simp] theorem VarDecl.json_finite_iff (decl : VarDecl) :
    decl.json.Finite ↔ decl.MadeOf (fun _ => Token.Finite) Constant.Finite := by
  simp [VarDecl.json, VarDecl.MadeOf, Expr.json_finite_iff]

mutual

theorem Stmt.json_finite_iff :
    (s : Stmt) → (s.json.Finite ↔ s.MadeOf (fun _ => Token.Finite) Constant.Finite)
  | .block body => by
    simp [Stmt.json, Stmt.MadeOf, Json.tagged, Stmt.jsons_finite_iff body]
  | .classDecl name superclass methods => by
    simp [Stmt.json, Stmt.MadeOf, Json.tagged, FunctionDecl.jsons_finite_iff methods]
  | .expression value => by
    simp [Stmt.json, Stmt.MadeOf, Json.tagged, Expr.json_finite_iff value]
  | .function decl => by
    simp [Stmt.json, Stmt.MadeOf, Json.tagged, FunctionDecl.json_finite_iff decl]
  | .branch condition thenBranch none => by
    simp [Stmt.json, Stmt.MadeOf, Json.tagged, Expr.json_finite_iff condition,
      Stmt.json_finite_iff thenBranch]
  | .branch condition thenBranch (some elseBranch) => by
    simp [Stmt.json, Stmt.MadeOf, Json.tagged, Expr.json_finite_iff condition,
      Stmt.json_finite_iff thenBranch, Stmt.json_finite_iff elseBranch]
  | .print value => by
    simp [Stmt.json, Stmt.MadeOf, Json.tagged, Expr.json_finite_iff value]
  | .ret keyword value => by
    simp [Stmt.json, Stmt.MadeOf, Json.tagged, Expr.json_finite_iff]
  | .var decl => by
    simp [Stmt.json, Stmt.MadeOf, Json.tagged]
  | .varList decls => by
    simp [Stmt.json, Stmt.MadeOf, Json.tagged]
  | .loop condition body => by
    simp [Stmt.json, Stmt.MadeOf, Json.tagged, Expr.json_finite_iff condition,
      Stmt.json_finite_iff body]

theorem Stmt.jsons_finite_iff : (body : List Stmt) → ((∀ a ∈ Stmt.jsons body, a.Finite) ↔
    Stmt.AllMadeOf (fun _ => Token.Finite) Constant.Finite body)
  | [] => by simp [Stmt.jsons, Stmt.AllMadeOf]
  | s :: body => by
    simp [Stmt.jsons, Stmt.AllMadeOf, Stmt.json_finite_iff s, Stmt.jsons_finite_iff body]

theorem FunctionDecl.json_finite_iff : (decl : FunctionDecl) →
    (decl.json.Finite ↔ decl.MadeOf (fun _ => Token.Finite) Constant.Finite)
  | ⟨name, params, body⟩ => by
    simp [FunctionDecl.json, FunctionDecl.MadeOf, Stmt.jsons_finite_iff body]

theorem FunctionDecl.jsons_finite_iff : (decls : List FunctionDecl) →
    ((∀ a ∈ FunctionDecl.jsons decls, a.Finite) ↔
      FunctionDecl.AllMadeOf (fun _ => Token.Finite) Constant.Finite decls)
  | [] => by simp [FunctionDecl.jsons, FunctionDecl.AllMadeOf]
  | decl :: decls => by
    simp [FunctionDecl.jsons, FunctionDecl.AllMadeOf, FunctionDecl.json_finite_iff decl,
      FunctionDecl.jsons_finite_iff decls]

end

/-- All numbers of the program, those of its tokens included, are finite. -/
def FiniteProgram (program : List Stmt) : Prop :=
  Stmt.AllMadeOf (fun _ => Token.Finite) Constant.Finite program

theorem finite_programJson {program : List Stmt} (finite : FiniteProgram program) :
    (programJson program).Finite := by
  rw [programJson, Json.finite_array_iff]
  exact (Stmt.jsons_finite_iff program).2 finite

theorem programJson_eq_iff (p q : List Stmt) : programJson p = programJson q ↔ p = q := by
  rw [programJson, programJson, Json.array.injEq]
  exact Stmt.jsons_eq_iff p q

end Treewalk
