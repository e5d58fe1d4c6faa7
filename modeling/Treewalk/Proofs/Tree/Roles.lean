import Treewalk.Proofs.Grammar.Derivation
import Treewalk.Proofs.Tree.Parts

/-!
# The tokens of derived trees

Every token of a tree that the grammar derives is one of the source, and of a kind that its place
asks for.
-/

namespace Treewalk

/-- The kinds of the tokens that stand in a place. -/
def TokenRole.kinds : TokenRole → List TokenKind
  | .name => [.identifier]
  | .binary =>
    [.bangEqual, .equalEqual, .greater, .greaterEqual, .less, .lessEqual, .minus, .plus, .slash,
      .star]
  | .logical => [.kwOr, .kwAnd]
  | .unary => [.bang, .minus]
  | .closing => [.rightParen]
  | .superWord => [.kwSuper]
  | .thisWord => [.kwThis]
  | .returnWord => [.kwReturn]

/-- The token is of a kind that its place asks for, and `p` holds of it. -/
structure Token.Plays (p : Token → Prop) (role : TokenRole) (t : Token) : Prop where
  kind : t.kind ∈ role.kinds
  holds : p t

namespace Grammar

variable {p : Token → Prop} {constant : Constant → Prop} {i j k : NodeId} {ts : List Token}

theorem plays_of_kind {t : Token} {kind : TokenKind} {role : TokenRole} (is : t.kind = kind)
    (asked : kind ∈ role.kinds) (holds : p t) : t.Plays p role :=
  ⟨is ▸ asked, holds⟩

/-- The operators of one rule stand in one place. -/
theorem node_role {r : Rule} {b : BinaryRule} (rule : r.binary? = some b) :
    ∃ role : TokenRole, (∀ kind ∈ b.operators, kind ∈ role.kinds) ∧
      ∀ (token : TokenRole → Token → Prop) (constant : Constant → Prop) (left : Expr)
        (operator : Token) (right : Expr),
        (b.node left operator right).MadeOf token constant ↔
          left.MadeOf token constant ∧ token role operator ∧ right.MadeOf token constant := by
  cases r <;> cases rule
  · exact ⟨.logical, by decide, fun _ _ _ _ _ => Iff.rfl⟩
  · exact ⟨.logical, by decide, fun _ _ _ _ _ => Iff.rfl⟩
  all_goals exact ⟨.binary, by decide, fun _ _ _ _ _ => Iff.rfl⟩

mutual

theorem Derives.roles {r : Rule} {i j : NodeId} {ts : List Token} {e : Expr} :
    Derives r i ts e j → (∀ t ∈ ts, p t) → e.MadeOf (fun _ _ => True) constant →
      e.MadeOf (Token.Plays p) constant
  | .single h, all, made => h.roles all made
  | .sequence h _ hs, all, made => by
    simp only [List.forall_mem_append, List.forall_mem_cons] at all
    exact ⟨h.roles all.1 made.1, hs.roles all.2.2 made.2⟩
  | .operation h, all, made => h.roles all made
  | .assign isName _ h, all, made => by
    simp only [List.forall_mem_cons] at all
    exact ⟨plays_of_kind isName (by decide) all.1, h.roles all.2.2 made.2⟩
  | .set h _ isName _ h', all, made => by
    simp only [List.forall_mem_append, List.forall_mem_cons] at all
    exact ⟨h.roles all.1 made.1, plays_of_kind isName (by decide) all.2.2.1,
      h'.roles all.2.2.2.2 made.2.2⟩
  | .operand _ h, all, made => h.roles all made
  | .binary rule h operator h', all, made => by
    simp only [List.forall_mem_append, List.forall_mem_cons] at all
    obtain ⟨role, kinds, node⟩ := node_role rule
    rw [node] at made ⊢
    exact ⟨h.roles all.1 made.1, ⟨kinds _ operator, all.2.1⟩, h'.roles all.2.2 made.2.2⟩
  | .unary operator h, all, made => by
    simp only [List.forall_mem_cons] at all
    refine ⟨?_, h.roles all.2 made.2⟩
    rcases operator with is | is
    · exact plays_of_kind is (by decide) all.1
    · exact plays_of_kind is (by decide) all.1
  | .operatorless h, all, made => h.roles all made
  | .atom h, all, made => h.roles all made
  | .call h _ hs isClosing, all, made => by
    simp only [List.forall_mem_append, List.forall_mem_cons] at all
    exact ⟨h.roles all.1 made.1, plays_of_kind isClosing (by decide) all.2.2.2.1,
      hs.roles all.2.2.1 made.2.2⟩
  | .get h _ isName, all, made => by
    simp only [List.forall_mem_append, List.forall_mem_cons] at all
    exact ⟨h.roles all.1 made.1, plays_of_kind isName (by decide) all.2.2.1⟩
  | .constant _, _, made => made
  | .super isSuper _ isName, all, _ => by
    simp only [List.forall_mem_cons] at all
    exact ⟨plays_of_kind isSuper (by decide) all.1, plays_of_kind isName (by decide) all.2.2.1⟩
  | .this isThis, all, _ => plays_of_kind isThis (by decide) (all _ (.head _))
  | .name isName, all, _ => plays_of_kind isName (by decide) (all _ (.head _))
  | .grouping _ h _, all, made => by
    simp only [List.forall_mem_append, List.forall_mem_cons] at all
    exact h.roles all.2.1 made

theorem Assignments.roles {i j : NodeId} {ts : List Token} {es : List Expr} :
    Assignments i ts es j → (∀ t ∈ ts, p t) → Expr.AllMadeOf (fun _ _ => True) constant es →
      Expr.AllMadeOf (Token.Plays p) constant es
  | .one h, all, made => ⟨h.roles all made.1, trivial⟩
  | .more h _ hs, all, made => by
    simp only [List.forall_mem_append, List.forall_mem_cons] at all
    exact ⟨h.roles all.1 made.1, hs.roles all.2.2 made.2⟩

theorem Arguments.roles {i j : NodeId} {ts : List Token} {es : List Expr} :
    Arguments i ts es j → (∀ t ∈ ts, p t) → Expr.AllMadeOf (fun _ _ => True) constant es →
      Expr.AllMadeOf (Token.Plays p) constant es
  | .none, _, _ => trivial
  | .some hs _, all, made => hs.roles all made

end

theorem OptionalExpr.roles {o : Option Expr} (h : OptionalExpr i ts o j) (all : ∀ t ∈ ts, p t)
    (made : ∀ e ∈ o, e.MadeOf (fun _ _ => True) constant) :
    ∀ e ∈ o, e.MadeOf (Token.Plays p) constant := by
  cases h with
  | none => exact nofun
  | some h =>
    rintro _ ⟨⟩
    exact h.roles all (made _ rfl)

theorem VarItem.roles {decl : VarDecl} (h : VarItem i ts decl j) (all : ∀ t ∈ ts, p t)
    (made : decl.MadeOf (fun _ _ => True) constant) : decl.MadeOf (Token.Plays p) constant := by
  cases h with
  | bare isName => exact ⟨plays_of_kind isName (by decide) (all _ (.head _)), nofun⟩
  | initialized isName _ h =>
    simp only [List.forall_mem_cons] at all
    refine ⟨plays_of_kind isName (by decide) all.1, ?_⟩
    rintro _ ⟨⟩
    exact h.roles all.2.2 (made.2 _ rfl)

theorem VarItems.roles {decls : List VarDecl} (h : VarItems i ts decls j)
    (all : ∀ t ∈ ts, p t) (made : ∀ decl ∈ decls, decl.MadeOf (fun _ _ => True) constant) :
    ∀ decl ∈ decls, decl.MadeOf (Token.Plays p) constant := by
  induction h with
  | one item => exact List.forall_mem_singleton.2 (item.roles all (made _ (.head _)))
  | more item _ _ ih =>
    simp only [List.forall_mem_append, List.forall_mem_cons] at all made ⊢
    exact ⟨item.roles all.1 made.1, ih all.2.2 made.2⟩

theorem madeOf_varStatement {token : TokenRole → Token → Prop} (decls : List VarDecl) :
    (varStatement decls).MadeOf token constant ↔ ∀ decl ∈ decls, decl.MadeOf token constant := by
  rcases decls with _ | ⟨decl, _ | ⟨decl', decls⟩⟩
  · exact Iff.rfl
  · rw [List.forall_mem_singleton]
    exact Iff.rfl
  · exact Iff.rfl

theorem VarDeclaration.roles {s : Stmt} (h : VarDeclaration i ts s j) (all : ∀ t ∈ ts, p t)
    (made : s.MadeOf (fun _ _ => True) constant) : s.MadeOf (Token.Plays p) constant := by
  cases h with
  | mk _ items _ =>
    simp only [List.forall_mem_append, List.forall_mem_cons] at all
    rw [madeOf_varStatement] at made ⊢
    exact items.roles all.2.1 made

theorem ExpressionStatement.roles {s : Stmt} (h : ExpressionStatement i ts s j)
    (all : ∀ t ∈ ts, p t) (made : s.MadeOf (fun _ _ => True) constant) :
    s.MadeOf (Token.Plays p) constant := by
  cases h with
  | mk h _ => exact h.roles (List.forall_mem_append.1 all).1 made

theorem ForInitializer.roles {o : Option Stmt} (h : ForInitializer i ts o j)
    (all : ∀ t ∈ ts, p t) (made : ∀ s ∈ o, s.MadeOf (fun _ _ => True) constant) :
    ∀ s ∈ o, s.MadeOf (Token.Plays p) constant := by
  cases h with
  | none => exact nofun
  | var h =>
    rintro _ ⟨⟩
    exact h.roles all (made _ rfl)
  | expression h =>
    rintro _ ⟨⟩
    exact h.roles all (made _ rfl)

theorem names_roles {names : List Token} (h : Names ts names) (all : ∀ t ∈ ts, p t) :
    ∀ t ∈ names, t.Plays p .name := by
  induction h with
  | one isName =>
    exact List.forall_mem_singleton.2 (plays_of_kind isName (by decide) (all _ (.head _)))
  | more isName _ _ ih =>
    simp only [List.forall_mem_cons] at all ⊢
    exact ⟨plays_of_kind isName (by decide) all.1, ih all.2.2⟩

theorem parameters_roles {names : List Token} (h : Parameters ts names) (all : ∀ t ∈ ts, p t) :
    ∀ t ∈ names, t.Plays p .name := by
  cases h with
  | none => exact nofun
  | some h _ => exact names_roles h all

theorem Superclass.roles {o : Option Variable} (h : Superclass i ts o j) (all : ∀ t ∈ ts, p t) :
    ∀ v ∈ o, v.name.Plays p .name := by
  cases h with
  | none => exact nofun
  | some _ isName =>
    rintro _ ⟨⟩
    exact plays_of_kind isName (by decide) (all _ (.tail _ (.head _)))

section ForLoop

variable {token : TokenRole → Token → Prop}

theorem madeOf_withIncrement (increment : Option Expr) (body : Stmt) :
    (withIncrement increment body).MadeOf token constant ↔
      (∀ e ∈ increment, e.MadeOf token constant) ∧ body.MadeOf token constant := by
  cases increment with
  | none => simp [withIncrement]
  | some e => simp [withIncrement, Stmt.MadeOf, Stmt.AllMadeOf, and_comm]

theorem madeOf_withInitializer (initializer : Option Stmt) (loop : Stmt) :
    (withInitializer initializer loop).MadeOf token constant ↔
      (∀ s ∈ initializer, s.MadeOf token constant) ∧ loop.MadeOf token constant := by
  cases initializer with
  | none => simp [withInitializer]
  | some first => simp [withInitializer, Stmt.MadeOf, Stmt.AllMadeOf]

theorem madeOf_condition (condition : Option Expr) :
    (condition.getD (.constant .true)).MadeOf token constant ↔
      (∀ e ∈ condition, e.MadeOf token constant) ∧ (condition = none → constant .true) := by
  cases condition with
  | none => simp [Expr.MadeOf]
  | some e => simp

end ForLoop

mutual

theorem Declaration.roles {choice : ElseRule} {i j : NodeId} {ts : List Token} {s : Stmt} :
    Declaration choice i ts s j → (∀ t ∈ ts, p t) → s.MadeOf (fun _ _ => True) constant →
      s.MadeOf (Token.Plays p) constant
  | .classDecl _ isName above _ hs _, all, made => by
    simp only [List.forall_mem_append, List.forall_mem_cons] at all
    exact ⟨plays_of_kind isName (by decide) all.2.1, above.roles all.2.2.1,
      hs.roles all.2.2.2.2.1 made.2.2⟩
  | .function _ h, all, made => by
    simp only [List.forall_mem_cons] at all
    exact h.roles all.2 made
  | .var h, all, made => h.roles all made
  | .statement h, all, made => h.roles all made

theorem Statement.roles {choice : ElseRule} {i j : NodeId} {ts : List Token} {s : Stmt}
    {isOpen : Bool} : Statement choice i ts s isOpen j → (∀ t ∈ ts, p t) →
      s.MadeOf (fun _ _ => True) constant → s.MadeOf (Token.Plays p) constant
  | .expression h, all, made => h.roles all made
  | .forLoop _ _ initializer condition _ increment _ body, all, made => by
    simp only [List.forall_mem_append, List.forall_mem_cons] at all
    simp only [madeOf_withInitializer, Stmt.MadeOf, madeOf_condition, madeOf_withIncrement]
      at made ⊢
    obtain ⟨first, ⟨before, default⟩, after, inside⟩ := made
    exact ⟨initializer.roles all.2.2.1 first, ⟨condition.roles all.2.2.2.1 before, default⟩,
      increment.roles all.2.2.2.2.2.1 after, body.roles all.2.2.2.2.2.2.2 inside⟩
  | .branch _ _ condition _ thenBranch, all, made => by
    simp only [List.forall_mem_append, List.forall_mem_cons] at all
    exact ⟨condition.roles all.2.2.1 made.1, thenBranch.roles all.2.2.2.2 made.2⟩
  | .branchElse _ _ condition _ thenBranch _ _ elseBranch, all, made => by
    simp only [List.forall_mem_append, List.forall_mem_cons] at all
    exact ⟨condition.roles all.2.2.1 made.1, thenBranch.roles all.2.2.2.2.1 made.2.1,
      elseBranch.roles all.2.2.2.2.2.2 made.2.2⟩
  | .print _ h _, all, made => by
    simp only [List.forall_mem_append, List.forall_mem_cons] at all
    exact h.roles all.2.1 made
  | .ret isReturn h _, all, made => by
    simp only [List.forall_mem_append, List.forall_mem_cons] at all
    exact ⟨plays_of_kind isReturn (by decide) all.1, h.roles all.2.1 made.2⟩
  | .loop _ _ condition _ body, all, made => by
    simp only [List.forall_mem_append, List.forall_mem_cons] at all
    exact ⟨condition.roles all.2.2.1 made.1, body.roles all.2.2.2.2 made.2⟩
  | .block _ body, all, made => by
    simp only [List.forall_mem_cons] at all
    exact body.roles all.2 made

theorem Block.roles {choice : ElseRule} {i j : NodeId} {ts : List Token} {body : List Stmt} :
    Block choice i ts body j → (∀ t ∈ ts, p t) → Stmt.AllMadeOf (fun _ _ => True) constant body →
      Stmt.AllMadeOf (Token.Plays p) constant body
  | .mk h _, all, made => h.roles (List.forall_mem_append.1 all).1 made

theorem Declarations.roles {choice : ElseRule} {i j : NodeId} {ts : List Token}
    {body : List Stmt} : Declarations choice i ts body j → (∀ t ∈ ts, p t) →
      Stmt.AllMadeOf (fun _ _ => True) constant body →
      Stmt.AllMadeOf (Token.Plays p) constant body
  | .nil, _, _ => trivial
  | .cons h hs, all, made => by
    simp only [List.forall_mem_append] at all
    exact ⟨h.roles all.1 made.1, hs.roles all.2 made.2⟩

theorem Routine.roles {choice : ElseRule} {i j : NodeId} {ts : List Token}
    {decl : FunctionDecl} : Routine choice i ts decl j → (∀ t ∈ ts, p t) →
      decl.MadeOf (fun _ _ => True) constant → decl.MadeOf (Token.Plays p) constant
  | .mk isName _ params _ _ body, all, made => by
    simp only [List.forall_mem_append, List.forall_mem_cons] at all
    exact ⟨plays_of_kind isName (by decide) all.1, parameters_roles params all.2.2.1,
      body.roles all.2.2.2.2.2 made.2.2⟩

theorem Methods.roles {choice : ElseRule} {i j : NodeId} {ts : List Token}
    {decls : List FunctionDecl} : Methods choice i ts decls j → (∀ t ∈ ts, p t) →
      FunctionDecl.AllMadeOf (fun _ _ => True) constant decls →
      FunctionDecl.AllMadeOf (Token.Plays p) constant decls
  | .nil, _, _ => trivial
  | .cons h hs, all, made => by
    simp only [List.forall_mem_append] at all
    exact ⟨h.roles all.1 made.1, hs.roles all.2 made.2⟩

end

end Grammar

end Treewalk
