import Treewalk.Proofs.Grammar.SoundExpr

/-!
# Parsing statements is sound

What the parsers of declarations and statements read without an error is derived by the rule of
their name, each `else` belonging to the nearest `if`. That is seen from what a statement leaves:
one that ends in an `if` without `else` leaves no `else`.
-/

namespace Treewalk.Grammar

open Treewalk.Parser

variable {i : NodeId} {n : Nat}

/-- A whole statement, which has taken every `else` it can have. -/
def WholeStatement (i : NodeId) (ts : List Token) (s : Stmt) (j : NodeId) (rest : List Token) :
    Prop :=
  ∃ isOpen, Statement .nearest i ts s isOpen j ∧
    (isOpen = true → ∀ t ∈ rest.head?, t.kind ≠ .kwElse)

theorem WholeStatement.closed {j : NodeId} {ts rest : List Token} {s : Stmt}
    (h : Statement .nearest i ts s false j) : WholeStatement i ts s j rest :=
  ⟨false, h, by simp⟩

/-- What `varItems` does behind an item. -/
theorem reads_moreVarItems {n : Nat}
    (ih : ∀ i done, Reads i (varItems n done) fun ts decls j _ =>
      ∃ more, decls = done.reverse ++ more ∧ VarItems i ts more j)
    (done : List VarDecl) (decl : VarDecl) (k : NodeId) :
    Reads k
      (do
        match ← accept .comma with
        | none => pure (decl :: done).reverse
        | some _ => varItems n (decl :: done))
      fun ts decls j _ => ∀ h us, VarItem h us decl k →
        ∃ more, decls = done.reverse ++ more ∧ VarItems h (us ++ ts) more j := by
  refine reads_accept.bind fun ws o k' => ?_
  cases o with
  | none =>
    refine .pure ?_
    rintro rest ⟨rfl, rfl, -⟩ h us item
    exact ⟨[decl], by simp, by simpa using .one item⟩
  | some comma =>
    refine (ih k' (decl :: done)).mono ?_
    rintro ts decls j rest ⟨more, rfl, hs⟩ ⟨rfl, rfl, kind⟩ h us item
    exact ⟨decl :: more, by simp, .more item kind hs⟩

theorem reads_varItems (n : Nat) (i : NodeId) (done : List VarDecl) :
    Reads i (varItems n done) fun ts decls j _ =>
      ∃ more, decls = done.reverse ++ more ∧ VarItems i ts more j := by
  induction n generalizing i done with
  | zero => exact reads_stop
  | succ n ih =>
    have behind := reads_moreVarItems ih done
    rw [varItems]
    refine reads_expect.bind fun us name k => ?_
    refine reads_accept.bind fun vs o k' => ?_
    cases o with
    | none =>
      dsimp only
      rw [pure_bind]
      refine (behind ⟨name, none⟩ k').mono ?_
      rintro ts decls j rest more ⟨rfl, rfl, -⟩ ⟨rfl, identifier, rfl⟩
      exact more _ [name] (.bare identifier)
    | some equals =>
      refine ((readsExpr n).assignment k').mapBind fun ws value k'' => ?_
      refine (behind ⟨name, some value⟩ k'').mono ?_
      rintro ts decls j rest more hvalue ⟨rfl, rfl, kind⟩ ⟨rfl, identifier, rfl⟩
      exact more _ (name :: equals :: ws) (.initialized identifier kind hvalue)

theorem reads_varDeclaration (n : Nat) (i : NodeId) :
    Reads i (varDeclaration n) fun ts s j _ =>
      ∀ keyword : Token, keyword.kind = .kwVar → VarDeclaration i (keyword :: ts) s j := by
  refine (reads_varItems n i []).bind fun us decls k => ?_
  refine reads_expect.bind fun vs semicolon k' => ?_
  have built : Reads k' (pure (varStatement decls)) fun ts s j rest =>
      vs = [semicolon] ∧ semicolon.kind = .semicolon ∧ k' = k →
      (∃ more, decls = [].reverse ++ more ∧ VarItems i us more k) →
      ∀ keyword : Token, keyword.kind = .kwVar →
        VarDeclaration i (keyword :: (us ++ (vs ++ ts))) s j := by
    refine .pure ?_
    rintro rest ⟨rfl, isSemicolon, rfl⟩ ⟨more, rfl, items⟩ keyword kind
    simpa using VarDeclaration.mk kind items isSemicolon
  rcases decls with _ | ⟨decl, _ | ⟨decl', decls⟩⟩
  · exact built
  · exact built
  · exact built

theorem reads_expressionStatement (n : Nat) (i : NodeId) :
    Reads i (expressionStatement n) fun ts s j _ => ExpressionStatement i ts s j := by
  refine ((readsExpr n).expression i).bind fun us e k => ?_
  refine reads_expect.bind fun vs semicolon k' => .pure ?_
  rintro rest ⟨rfl, isSemicolon, rfl⟩ he
  simpa using ExpressionStatement.mk he isSemicolon

theorem reads_printStatement (n : Nat) (i : NodeId) :
    Reads i (printStatement n) fun ts s j rest =>
      ∀ keyword : Token, keyword.kind = .kwPrint → WholeStatement i (keyword :: ts) s j rest := by
  refine ((readsExpr n).expression i).bind fun us e k => ?_
  refine reads_expect.bind fun vs semicolon k' => .pure ?_
  rintro rest ⟨rfl, isSemicolon, rfl⟩ he keyword kind
  exact .closed (by simpa using Statement.print kind he isSemicolon)

/-- An expression that is left out if the next token has a given kind. -/
theorem reads_optional {α : Type} {kind : TokenKind} {n : Nat} {f : Option Expr → Parser α}
    {Q : ReadRelation α} (next : ∀ us o j, Reads j (f o) fun ts a k rest =>
      OptionalExpr i us o j → Q (us ++ ts) a k rest) :
    Reads i (check kind >>= fun b =>
      if b then pure none >>= f else some <$> expression n >>= f) Q := by
  refine reads_check.bind fun us b k => ?_
  split
  · rw [pure_bind]
    refine (next [] none k).mono ?_
    rintro ts a j rest holds ⟨rfl, rfl, -⟩
    exact holds .none
  · refine ((readsExpr n).expression k).mapBind fun vs e k' => ?_
    refine (next vs (some e) k').mono ?_
    rintro ts a j rest holds he ⟨rfl, rfl, -⟩
    exact holds (.some he)

theorem reads_returnStatement (n : Nat) (i : NodeId) {keyword : Token}
    (kind : keyword.kind = .kwReturn) :
    Reads i (returnStatement n keyword) fun ts s j rest =>
      WholeStatement i (keyword :: ts) s j rest := by
  refine reads_optional fun us value k => ?_
  refine reads_expect.bind fun vs semicolon k' => .pure ?_
  rintro rest ⟨rfl, isSemicolon, rfl⟩ hvalue
  exact .closed (by simpa using Statement.ret kind hvalue isSemicolon)

/-- What `parameters` does where there is room. -/
theorem reads_parameterAndMore {n : Nat}
    (ih : ∀ i done, Reads i (parameters n done) fun ts names j _ =>
      ∃ more, names = done.reverse ++ more ∧ j = i ∧ Names ts more ∧
        done.length + more.length ≤ listLimit)
    (done : List Token) (i : NodeId) :
    Reads i
      (do
        let name ← expect .identifier .parameterName
        match ← accept .comma with
        | none => pure (name :: done).reverse
        | some _ => parameters n (name :: done))
      fun ts names j _ => done.length < listLimit →
        ∃ more, names = done.reverse ++ more ∧ j = i ∧ Names ts more ∧
          done.length + more.length ≤ listLimit := by
  refine reads_expect.bind fun us name k => ?_
  refine reads_accept.bind fun vs o k' => ?_
  cases o with
  | none =>
    refine .pure ?_
    rintro rest ⟨rfl, rfl, -⟩ ⟨rfl, identifier, rfl⟩ short
    exact ⟨[name], by simp, rfl, by simpa using Names.one identifier, short⟩
  | some comma =>
    refine (ih k' (name :: done)).mono ?_
    rintro ts names j rest ⟨more, rfl, rfl, hs, short⟩ ⟨rfl, rfl, kind⟩ ⟨rfl, identifier, rfl⟩ -
    refine ⟨name :: more, by simp, rfl, .more identifier kind hs, ?_⟩
    simp only [List.length_cons] at short ⊢
    omega

theorem reads_parameters (n : Nat) (i : NodeId) (done : List Token) :
    Reads i (parameters n done) fun ts names j _ =>
      ∃ more, names = done.reverse ++ more ∧ j = i ∧ Names ts more ∧
        done.length + more.length ≤ listLimit := by
  induction n generalizing i done with
  | zero => exact reads_stop
  | succ n ih =>
    have read := reads_parameterAndMore ih done
    rw [parameters]
    split
    · refine reads_peek.bind fun _ t k => ?_
      refine (reads_report (Q := fun _ _ _ _ => False)).bind fun _ _ k => ?_
      exact (read k).mono fun _ _ _ _ _ impossible => impossible.elim
    · next room =>
      refine (read i).mono fun ts names j rest more => more ?_
      simpa [maxArity, listLimit] using room

theorem reads_forInitializer (n : Nat) (i : NodeId) :
    Reads i (forInitializer n) fun ts o j _ => ForInitializer i ts o j := by
  refine reads_acceptAny.bind fun us o k => ?_
  cases o with
  | none =>
    refine (reads_expressionStatement n k).map ?_
    rintro ts s j rest hs ⟨rfl, rfl, -⟩
    exact .expression hs
  | some mark =>
    dsimp only
    split
    · next isVar =>
      refine (reads_varDeclaration n k).map ?_
      rintro ts s j rest hs ⟨rfl, rfl, -⟩
      exact .var (hs mark isVar)
    · next notVar =>
      refine .pure ?_
      rintro rest ⟨rfl, rfl, kinds⟩
      exact .none (by simpa [notVar] using kinds)

/-- What the three clauses of a `for` loop are made of. -/
def ForClauses (i : NodeId) (ts : List Token)
    (clauses : Option Stmt × Option Expr × Option Expr) (j : NodeId) : Prop :=
  ∃ opening us k vs m semicolon ws closing,
    ts = opening :: (us ++ (vs ++ semicolon :: (ws ++ [closing]))) ∧ opening.kind = .leftParen ∧
      ForInitializer i us clauses.1 k ∧ OptionalExpr k vs clauses.2.1 m ∧
      semicolon.kind = .semicolon ∧ OptionalExpr m ws clauses.2.2 j ∧ closing.kind = .rightParen

theorem reads_forClauses (n : Nat) (i : NodeId) :
    Reads i (forClauses n) fun ts clauses j _ => ForClauses i ts clauses j := by
  refine reads_expect.bind fun us opening k => ?_
  refine (reads_forInitializer n k).bind fun vs initializer k' => ?_
  refine reads_optional fun ws condition m => ?_
  refine reads_expect.bind fun xs semicolon m' => ?_
  refine reads_optional fun ys increment j => ?_
  refine reads_expect.bind fun zs closing j' => .pure ?_
  rintro rest ⟨rfl, isClosing, rfl⟩ hincrement ⟨rfl, isSemicolon, rfl⟩ hcondition hinitializer
    ⟨rfl, isOpening, rfl⟩
  exact ⟨opening, vs, k', ws, m', semicolon, ys, closing, by simp, isOpening, hinitializer,
    hcondition, isSemicolon, hincrement, isClosing⟩

theorem forLoop_eq (initializer : Option Stmt) (condition increment : Option Expr) (body : Stmt) :
    forLoop initializer condition increment body =
      withInitializer initializer
        (.loop (condition.getD (.constant .true)) (withIncrement increment body)) := by
  cases initializer <;> cases increment <;> rfl

/-- The parsers of declarations and statements read what their rules derive, if their recursion is
at most `n` deep. -/
structure ReadsStmt (n : Nat) : Prop where
  declaration : ∀ i, Reads i (declaration n) fun ts o j _ =>
    ∃ s, o = some s ∧ Declaration .nearest i ts s j
  classDeclaration : ∀ i, Reads i (classDeclaration n) fun ts s j _ =>
    ∀ keyword : Token, keyword.kind = .kwClass → Declaration .nearest i (keyword :: ts) s j
  methods : ∀ i done, Reads i (methods n done) fun ts decls j _ =>
    ∃ more, decls = done.reverse ++ more ∧ Methods .nearest i ts more j
  routine : ∀ i kind, Reads i (routine n kind) fun ts decl j _ => Routine .nearest i ts decl j
  block : ∀ i, Reads i (block n) fun ts body j _ => Block .nearest i ts body j
  declarations : ∀ i done, Reads i (declarations n done) fun ts body j _ =>
    ∃ more, body = done.reverse ++ more ∧ Declarations .nearest i ts more j
  statement : ∀ i, Reads i (statement n) (WholeStatement i)

section Step

variable (ih : ReadsStmt n)
include ih

theorem reads_declaration (i : NodeId) :
    Reads i (declaration (n + 1)) fun ts o j _ =>
      ∃ s, o = some s ∧ Declaration .nearest i ts s j := by
  rw [Parser.declaration]
  refine Reads.recover (.peeking (fun t => ?_) fun t eof => ?_)
  · split
    · next kind =>
      refine .advance ((ih.classDeclaration i).mono fun ts s j rest hs => hs t kind)
    · next kind =>
      refine .advance ((ih.routine i .function).map fun ts decl j rest hdecl => ?_)
      exact .function kind hdecl
    · next kind =>
      refine .advance ((reads_varDeclaration n i).mono fun ts s j rest hs => ?_)
      exact .var (hs t kind)
    · exact ((ih.statement i).mono fun ts s j rest ⟨_, hs, _⟩ => .statement hs).at
  · rw [eof]
    exact (ih.statement i).mono fun ts s j rest ⟨_, hs, _⟩ => .statement hs

theorem reads_classDeclaration (i : NodeId) :
    Reads i (classDeclaration (n + 1)) fun ts s j _ =>
      ∀ keyword : Token, keyword.kind = .kwClass →
        Declaration .nearest i (keyword :: ts) s j := by
  have body : ∀ name superclass k, Reads k
      (do
        let _ ← expect .leftBrace .classBodyOpen
        let decls ← methods n []
        let _ ← expect .rightBrace .classBodyClose
        pure (.classDecl name superclass decls))
      fun ts s j _ => ∀ us, name.kind = .identifier → Superclass i us superclass k →
        ∀ keyword : Token, keyword.kind = .kwClass →
          Declaration .nearest i (keyword :: name :: (us ++ ts)) s j := by
    intro name superclass k
    refine reads_expect.bind fun vs opening k' => ?_
    refine (ih.methods k' []).bind fun ws decls m => ?_
    refine reads_expect.bind fun xs closing m' => .pure ?_
    rintro rest ⟨rfl, isClosing, rfl⟩ ⟨more, rfl, hs⟩ ⟨rfl, isOpening, rfl⟩ us identifier above
      keyword kind
    simpa using Declaration.classDecl kind identifier above isOpening hs isClosing
  rw [Parser.classDeclaration]
  refine reads_expect.bind fun us name k => ?_
  refine reads_accept.bind fun vs o k' => ?_
  cases o with
  | none =>
    dsimp only
    rw [pure_bind]
    refine (body name none k').mono ?_
    rintro ts s j rest hs ⟨rfl, rfl, -⟩ ⟨rfl, identifier, rfl⟩
    exact hs [] identifier .none
  | some less =>
    refine reads_expect.bind fun ws superName m => ?_
    refine reads_fresh.bind fun xs id m' => ?_
    rw [pure_bind]
    refine (body name _ m').mono ?_
    rintro ts s j rest hs ⟨rfl, rfl, rfl⟩ ⟨rfl, isName, rfl⟩ ⟨rfl, rfl, isLess⟩
      ⟨rfl, identifier, rfl⟩
    exact hs [less, superName] identifier (.some isLess isName)

theorem reads_methods (i : NodeId) (done : List FunctionDecl) :
    Reads i (methods (n + 1) done) fun ts decls j _ =>
      ∃ more, decls = done.reverse ++ more ∧ Methods .nearest i ts more j := by
  rw [Parser.methods]
  refine reads_atEnd.bind fun us ended k => reads_check.bind fun vs closed k' => ?_
  split
  · refine .pure ?_
    rintro rest ⟨rfl, rfl, -⟩ ⟨rfl, rfl, -⟩
    exact ⟨[], by simp, .nil⟩
  · refine (ih.routine k' .method).bind fun ws decl m => ?_
    refine (ih.methods m (decl :: done)).mono ?_
    rintro ts decls j rest ⟨more, rfl, hs⟩ hdecl ⟨rfl, rfl, -⟩ ⟨rfl, rfl, -⟩
    exact ⟨decl :: more, by simp, by simpa using Methods.cons hdecl hs⟩

theorem reads_routine (i : NodeId) (kind : RoutineKind) :
    Reads i (routine (n + 1) kind) fun ts decl j _ => Routine .nearest i ts decl j := by
  have behind : ∀ name params k, Reads k
      (do
        let _ ← expect .rightParen .parametersClose
        let _ ← expect .leftBrace (.routineBodyOpen kind)
        let body ← block n
        pure (⟨name, params, body⟩ : FunctionDecl))
      fun ts decl j _ => ∀ opening us, name.kind = .identifier → opening.kind = .leftParen →
        Parameters us params → Routine .nearest k (name :: opening :: (us ++ ts)) decl j := by
    intro name params k
    refine reads_expect.bind fun us closing k' => reads_expect.bind fun vs brace k'' => ?_
    refine (ih.block k'').bind fun ws body m => .pure ?_
    rintro rest hbody ⟨rfl, isBrace, rfl⟩ ⟨rfl, isClosing, rfl⟩ opening us identifier isOpening
      hparams
    simpa using Routine.mk identifier isOpening hparams isClosing isBrace hbody
  rw [Parser.routine]
  refine reads_expect.bind fun us name k => reads_expect.bind fun vs opening k' => ?_
  refine reads_check.bind fun ws none k'' => ?_
  split
  · rw [pure_bind]
    refine (behind name [] k'').mono ?_
    rintro ts decl j rest hdecl ⟨rfl, rfl, -⟩ ⟨rfl, isOpening, rfl⟩ ⟨rfl, identifier, rfl⟩
    exact hdecl opening [] identifier isOpening .none
  · refine (reads_parameters n k'' []).bind fun xs params m => ?_
    refine (behind name params m).mono ?_
    rintro ts decl j rest hdecl ⟨more, rfl, rfl, hs, short⟩ ⟨rfl, rfl, -⟩ ⟨rfl, isOpening, rfl⟩
      ⟨rfl, identifier, rfl⟩
    exact hdecl opening xs identifier isOpening (.some hs (by simpa using short))

theorem reads_block (i : NodeId) :
    Reads i (block (n + 1)) fun ts body j _ => Block .nearest i ts body j := by
  rw [Parser.block]
  refine (ih.declarations i []).bind fun us body k => ?_
  refine reads_expect.bind fun vs closing k' => .pure ?_
  rintro rest ⟨rfl, isClosing, rfl⟩ ⟨more, rfl, hs⟩
  simpa using Block.mk hs isClosing

theorem reads_declarations (i : NodeId) (done : List Stmt) :
    Reads i (declarations (n + 1) done) fun ts body j _ =>
      ∃ more, body = done.reverse ++ more ∧ Declarations .nearest i ts more j := by
  rw [Parser.declarations]
  refine reads_atEnd.bind fun us ended k => reads_check.bind fun vs closed k' => ?_
  split
  · refine .pure ?_
    rintro rest ⟨rfl, rfl, -⟩ ⟨rfl, rfl, -⟩
    exact ⟨[], by simp, .nil⟩
  · refine (ih.declaration k').bind fun ws o m => ?_
    cases o with
    | none =>
      refine (ih.declarations m done).mono ?_
      rintro ts body j rest - ⟨s, missing, -⟩
      cases missing
    | some s =>
      refine (ih.declarations m (s :: done)).mono ?_
      rintro ts body j rest ⟨more, rfl, hs⟩ ⟨s, ⟨⟩, hdecl⟩ ⟨rfl, rfl, -⟩ ⟨rfl, rfl, -⟩
      exact ⟨s :: more, by simp, by simpa using Declarations.cons hdecl hs⟩

theorem reads_statement (i : NodeId) : Reads i (statement (n + 1)) (WholeStatement i) := by
  rw [Parser.statement]
  refine .peeking (fun t => ?_) fun t eof => ?_
  · split
    · next kind =>
      refine .advance ((reads_forClauses n i).bind fun us clauses k => ?_)
      refine (ih.statement k).bind fun vs body k' => .pure ?_
      rintro rest ⟨isOpen, hbody, whole⟩ ⟨opening, us, j, vs, m, semicolon, ws, closing, rfl,
        isOpening, hinitializer, hcondition, isSemicolon, hincrement, isClosing⟩
      rw [forLoop_eq]
      refine ⟨isOpen, ?_, by simpa using whole⟩
      simpa using Statement.forLoop kind isOpening hinitializer hcondition isSemicolon hincrement
        isClosing hbody
    · next kind =>
      refine .advance (reads_expect.bind fun us opening k => ?_)
      refine ((readsExpr n).expression k).bind fun vs condition k' => ?_
      refine reads_expect.bind fun ws closing m => ?_
      refine (ih.statement m).bind fun xs thenBranch m' => ?_
      refine reads_accept.bind fun ys o j => ?_
      cases o with
      | none =>
        refine .pure ?_
        rintro rest ⟨rfl, rfl, noElse⟩ ⟨isOpen, hthen, -⟩ ⟨rfl, isClosing, rfl⟩ hcondition
          ⟨rfl, isOpening, rfl⟩
        refine ⟨true, ?_, fun _ => noElse⟩
        simpa using Statement.branch kind isOpening hcondition isClosing hthen
      | some keywordElse =>
        refine (ih.statement j).bind fun zs elseBranch j' => .pure ?_
        rintro rest ⟨isOpen, helse, whole⟩ ⟨rfl, rfl, isElse⟩ ⟨thenOpen, hthen, thenWhole⟩
          ⟨rfl, isClosing, rfl⟩ hcondition ⟨rfl, isOpening, rfl⟩
        have closed : thenOpen = false := by
          cases thenOpen with
          | false => rfl
          | true => exact absurd isElse (thenWhole rfl keywordElse (by simp))
        refine ⟨isOpen, ?_, by simpa using whole⟩
        simpa using Statement.branchElse kind isOpening hcondition isClosing hthen
          (fun _ => closed) isElse helse
    · next kind =>
      exact .advance ((reads_printStatement n i).mono fun ts s j rest hs => hs t kind)
    · next kind => exact .advance (reads_returnStatement n i kind)
    · next kind =>
      refine .advance (reads_expect.bind fun us opening k => ?_)
      refine ((readsExpr n).expression k).bind fun vs condition k' => ?_
      refine reads_expect.bind fun ws closing m => ?_
      refine (ih.statement m).bind fun xs body m' => .pure ?_
      rintro rest ⟨isOpen, hbody, whole⟩ ⟨rfl, isClosing, rfl⟩ hcondition ⟨rfl, isOpening, rfl⟩
      refine ⟨isOpen, ?_, by simpa using whole⟩
      simpa using Statement.loop kind isOpening hcondition isClosing hbody
    · next kind =>
      refine .advance ((ih.block i).map fun ts body j rest hbody => ?_)
      exact .closed (.block kind hbody)
    · refine ((reads_expressionStatement n i).mono fun ts s j rest hs => ?_).at
      exact .closed (.expression hs)
  · rw [eof]
    refine (reads_expressionStatement n i).mono fun ts s j rest hs => ?_
    exact .closed (.expression hs)

end Step

theorem readsStmt (n : Nat) : ReadsStmt n := by
  induction n with
  | zero =>
    refine ⟨fun i => .recover reads_stop, ?_, ?_, ?_, ?_, ?_, ?_⟩ <;> intros <;> exact reads_stop
  | succ n ih =>
    exact ⟨reads_declaration ih, reads_classDeclaration ih, reads_methods ih, reads_routine ih,
      reads_block ih, reads_declarations ih, reads_statement ih⟩

/-- A whole program is read to its end. -/
theorem reads_program (n : Nat) (i : NodeId) (done : List Stmt) :
    Reads i (program n done) fun ts stmts j rest =>
      ∃ more, stmts = done.reverse ++ more ∧ Program .nearest i ts more j ∧ rest = [] := by
  induction n generalizing i done with
  | zero => exact reads_stop
  | succ n ih =>
    rw [Parser.program]
    refine reads_atEnd.bind fun us ended k => ?_
    split
    · refine .pure ?_
      rintro rest ⟨rfl, rfl, read⟩
      exact ⟨[], by simp, .nil, read ‹_›⟩
    · refine ((readsStmt n).declaration k).bind fun vs o k' => ?_
      cases o with
      | none =>
        refine (ih k' done).mono ?_
        rintro ts stmts j rest - ⟨s, missing, -⟩
        cases missing
      | some s =>
        refine (ih k' (s :: done)).mono ?_
        rintro ts stmts j rest ⟨more, rfl, hs, ended⟩ ⟨s, ⟨⟩, hdecl⟩ ⟨rfl, rfl, -⟩
        exact ⟨s :: more, by simp, by simpa using Declarations.cons hdecl hs, ended⟩

end Treewalk.Grammar
