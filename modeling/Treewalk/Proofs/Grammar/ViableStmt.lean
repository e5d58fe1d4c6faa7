import Treewalk.Proofs.Grammar.ViableExpr

/-!
# Statements are read as far as they are viable

What follows a statement may begin with an `else`, if that belongs to an `if` around the statement. The
parser gives it to the nearest `if`, and then what follows could follow there too: `FollowsStatement`
says so. An error inside a declaration is recorded; what is read behind it does not matter any more.
-/

namespace Treewalk.Parser

open Grammar
open scoped Computability

variable {α : Type} {X Y Z K : Language Token} {c : Cursor} {n : Nat}

/-- Behind an `else` stands a statement, and what may follow it. -/
structure FollowsStatement (K : Language Token) : Prop where
  possible : Possible K
  branch : ∀ t : Token, t.kind = .kwElse → ∀ w ∈ after K t, w ∈ words .statement * K

theorem Grammar.Follows.statement (h : Follows [.kwElse] K) : FollowsStatement K := by
  refine ⟨h.possible, fun t isElse => ?_⟩
  rw [h.none t (by simp [isElse])]
  exact fun w member => absurd member (Language.notMem_zero w)

/-- The `else` belongs to the nearest `if`. -/
theorem after_else (follows : FollowsStatement K) {t : Token} (isElse : t.kind = .kwElse) :
    after ((1 + tokens [.kwElse] * words .statement) * K) t = words .statement * K := by
  have member : t.kind ∈ [TokenKind.kwElse] := by simp [isElse]
  rw [optional_mul, after_add, mul_assoc,
    after_tokens_mul member (valued_of_mem member (by decide))]
  exact Language.ext fun w => ⟨fun member => member.elim (follows.branch t isElse w) id, .inr⟩

/-- What follows the first branch of an `if`. -/
theorem FollowsStatement.withElse (h : FollowsStatement K) :
    FollowsStatement ((1 + tokens [.kwElse] * words .statement) * K) := by
  refine ⟨?_, fun t isElse => ?_⟩
  · rw [optional_mul]
    exact h.possible.add
  · rw [after_else h isElse, optional_mul]
    intro w member
    obtain ⟨u, isStatement, v, behind, rfl⟩ := Language.mem_mul.1 member
    exact Language.mem_mul.2 ⟨u, isStatement, v, .inl behind, rfl⟩

/-- Tokens that stand for a list that may be missing, before a token that ends it. -/
theorem leads_optional {kind : TokenKind} {f : Option Expr → Parser α}
    (begins : Begins [kind] Y) (possible : Possible Y)
    (other : kind ∉ .eof :: expressionKinds ++ continuingExpression)
    (next : ∀ v c', Leads Y Z (f v) c') :
    Leads ((1 + words .expression) * Y) Z
      (do
        let value ← if ← check kind then pure none else some <$> expression n
        f value) c := by
  simp only [List.mem_append, List.mem_cons, not_or] at other
  refine .check other.1.1 (fun closed => ?_) fun notClosed => ?_
  · refine .skip (next none c) (begins_words .expression) ?_
    rw [closed]
    simpa [Nonterminal.first] using other.1.2
  · rw [optional_mul, add_comm]
    have follows : Follows continuingExpression Y := by
      refine .of_begins begins possible fun continues member same => ?_
      rw [List.mem_singleton] at same
      rw [same] at member
      exact absurd member (by simpa using other.2)
    refine .add (((exprViable n).expression c follows).map some |>.bind next) ?_
    exact begins.after_eq_zero (by simpa using notClosed)

/-- An expression in parentheses, as it stands behind `if` and `while`. -/
theorem leads_condition {opening closing : SyntaxError.Cause} {f : Expr → Parser α}
    (counts : opening.tolerated = false ∧ closing.tolerated = false) (possible : Possible Y)
    (next : ∀ condition c', Leads Y Z (f condition) c') :
    Leads (tokens [.leftParen] * (words .expression * (tokens [.rightParen] * Y))) Z
      (do
        let _ ← expect .leftParen opening
        let condition ← expression n
        let _ ← expect .rightParen closing
        f condition) c := by
  have follows : Follows continuingExpression (tokens [.rightParen] * Y) :=
    .tokens possible (by decide)
  refine (Leads.expect (by decide) counts.1 ((possible_words _).mul follows.possible)).bind
    fun _ c₁ => ?_
  refine ((exprViable n).expression c₁ follows).bind fun condition c₂ => ?_
  exact (Leads.expect (by decide) counts.2 possible).bind fun _ c₃ => next condition c₃

section Declarations

theorem leads_varItems (done : List VarDecl) (follows : Follows continuingExpression K) :
    Leads (words .varItem * ((tokens [.comma] * words .varItem)∗ * K)) K (varItems n done) c := by
  induction n generalizing c done with
  | zero => exact .unfinished
  | succ n ih =>
    have items : Follows continuingAssignment ((tokens [.comma] * words .varItem)∗ * K) := by
      apply Follows.many _ (begins_tokens [.comma]).mul (by decide)
      exact follows.mono (by decide)
    have comma : Follows [.comma] K := follows.mono (by decide)
    rw [varItems, varItem_words, mul_assoc, ← varItem_words]
    have initialized : Possible
        ((1 + tokens [.equal] * words .assignment) * ((tokens [.comma] * words .varItem)∗ * K)) := by
      rw [optional_mul]
      exact items.possible.add
    refine (Leads.expect (by decide) rfl initialized).bind fun name c' => ?_
    refine .acceptAny (by decide) (fun other => ?_) fun equals c'' isEqual => ?_
    · exact .skip (leads_goesOn comma (fun _ => ih _) _) (begins_tokens [.equal]).mul other
    · rw [after_optional (items.mono (by decide)) isEqual (valued_of_mem isEqual (by decide))]
      exact (((exprViable n).assignment c'' items).map some).bind fun v c''' =>
        leads_goesOn comma (fun _ => ih _) c'''

/-- What follows the keyword of a `var` declaration. -/
theorem leads_varDeclaration (possible : Possible K) :
    Leads (words .varItem * ((tokens [.comma] * words .varItem)∗ * (tokens [.semicolon] * K))) K
      (varDeclaration n) c := by
  have follows : Follows continuingExpression (tokens [.semicolon] * K) :=
    .tokens possible (by decide)
  refine (leads_varItems [] follows).bind fun decls c' => ?_
  refine (Leads.expect (by decide) rfl possible).bind fun semicolon c'' => ?_
  split <;> exact .pure _

theorem leads_expressionStatement (possible : Possible K) :
    Leads (words .exprStmt * K) K (expressionStatement n) c := by
  rw [exprStmt_words, mul_assoc]
  have follows : Follows continuingExpression (tokens [.semicolon] * K) :=
    .tokens possible (by decide)
  refine ((exprViable n).expression c follows).bind fun value c' => ?_
  exact (Leads.expect (by decide) rfl possible).bind fun semicolon c'' => .pure _

theorem leads_printStatement (possible : Possible K) :
    Leads (words .expression * (tokens [.semicolon] * K)) K (printStatement n) c := by
  have follows : Follows continuingExpression (tokens [.semicolon] * K) :=
    .tokens possible (by decide)
  refine ((exprViable n).expression c follows).bind fun value c' => ?_
  exact (Leads.expect (by decide) rfl possible).bind fun semicolon c'' => .pure _

theorem leads_returnStatement (keyword : Token) (possible : Possible K) :
    Leads ((1 + words .expression) * (tokens [.semicolon] * K)) K (returnStatement n keyword) c := by
  refine leads_optional (begins_tokens _).mul ((possible_tokens _).mul possible) (by decide)
    fun value c' => ?_
  exact (Leads.expect (by decide) rfl possible).bind fun semicolon c'' => .pure _

theorem leads_parameterAndMore {done : List Token} (follows : Follows [.comma] K)
    (again : ∀ name c, Leads (words .parameters * K) K (parameters n (name :: done)) c) :
    Leads (words .parameters * K) K
      (do
        let name ← expect .identifier .parameterName
        match ← accept .comma with
        | none => pure (name :: done).reverse
        | some _ => parameters n (name :: done)) c := by
  have behind : Follows [] ((tokens [.comma] * tokens [.identifier])∗ * K) :=
    .many (follows.mono (by decide)) (begins_tokens [.comma]).mul (by decide)
  rw [parameters_words, mul_assoc] at again ⊢
  refine (Leads.expect (by decide) rfl behind.possible).bind fun name c' => ?_
  exact leads_goesOn follows (again name) c'

theorem leads_parameters (done : List Token) (follows : Follows [.comma] K) :
    Leads (words .parameters * K) K (parameters n done) c := by
  induction n generalizing c done with
  | zero => exact .unfinished
  | succ n ih =>
    rw [parameters]
    split
    · refine .peek fun t _ _ => (Leads.report rfl).bind fun _ c' => ?_
      exact leads_parameterAndMore follows fun _ _ => ih _
    · exact leads_parameterAndMore follows fun _ _ => ih _

theorem leads_forInitializer (possible : Possible K) :
    Leads ((words .varDecl + words .exprStmt + tokens [.semicolon]) * K) K
      (forInitializer n) c := by
  have split : (words .varDecl + words .exprStmt + tokens [.semicolon]) * K =
      words .exprStmt * K + (words .varDecl * K + tokens [.semicolon] * K) := by
    rw [add_mul, add_mul, add_comm (words .varDecl * K), add_assoc]
  rw [split]
  refine .acceptAny (by decide) (fun other => ?_) fun mark c' member => ?_
  · refine .add ((leads_expressionStatement possible).map some) ?_
    have notVar : c.next.kind ∉ Nonterminal.first .varDecl := fun isVar => other (by
      rw [List.mem_singleton.1 isVar]
      decide)
    have notSemicolon : c.next.kind ∉ [TokenKind.semicolon] := fun isSemicolon => other (by
      rw [List.mem_singleton.1 isSemicolon]
      decide)
    rw [after_add, (begins_words .varDecl).mul.after_eq_zero notVar,
      after_tokens_mul_of_not_mem notSemicolon, add_zero]
  · have notExpression : mark.kind ∉ Nonterminal.first .exprStmt := by
      rcases List.mem_pair.1 member with same | same <;> rw [same] <;> decide
    rw [after_add, (begins_words .exprStmt).mul.after_eq_zero notExpression, zero_add, after_add]
    by_cases isVar : mark.kind = .kwVar
    · have here : mark.kind ∈ [TokenKind.kwVar] := by simp [isVar]
      have notSemicolon : mark.kind ∉ [TokenKind.semicolon] := by simp [isVar]
      simp only [isVar, if_true]
      rw [after_tokens_mul_of_not_mem notSemicolon, add_zero, varDecl_words, mul_assoc, mul_assoc,
        mul_assoc, after_tokens_mul here (valued_of_mem here (by decide))]
      exact (leads_varDeclaration possible).map some
    · have here : mark.kind ∈ [TokenKind.semicolon] := by
        rcases List.mem_pair.1 member with same | same
        · simp [same]
        · exact absurd same isVar
      have notVar : mark.kind ∉ Nonterminal.first .varDecl := by
        rw [List.mem_singleton.1 here]
        decide
      simp only [isVar, if_false]
      rw [(begins_words .varDecl).mul.after_eq_zero notVar, zero_add,
        after_tokens_mul here (valued_of_mem here (by decide))]
      exact .pure none

/-- The clauses of a `for` loop, from its opening parenthesis to its closing one. -/
theorem leads_forClauses (possible : Possible K) :
    Leads (tokens [.leftParen] * ((words .varDecl + words .exprStmt + tokens [.semicolon]) *
      ((1 + words .expression) * (tokens [.semicolon] *
        ((1 + words .expression) * (tokens [.rightParen] * K)))))) K (forClauses n) c := by
  have atClosing : Possible (tokens [.rightParen] * K) := (possible_tokens _).mul possible
  have atIncrement : Possible ((1 + words .expression) * (tokens [.rightParen] * K)) := by
    rw [optional_mul]
    exact atClosing.add
  have atSemicolon : Possible
      (tokens [.semicolon] * ((1 + words .expression) * (tokens [.rightParen] * K))) :=
    (possible_tokens _).mul atIncrement
  have atCondition : Possible ((1 + words .expression) *
      (tokens [.semicolon] * ((1 + words .expression) * (tokens [.rightParen] * K)))) := by
    rw [optional_mul]
    exact atSemicolon.add
  have atInitializer : Possible ((words .varDecl + words .exprStmt + tokens [.semicolon]) *
      ((1 + words .expression) *
        (tokens [.semicolon] * ((1 + words .expression) * (tokens [.rightParen] * K))))) :=
    (possible_words .varDecl).add.add.mul atCondition
  refine (Leads.expect (by decide) rfl atInitializer).bind fun opening c₁ => ?_
  refine (leads_forInitializer atCondition).bind fun initializer c₂ => ?_
  refine leads_optional (begins_tokens _).mul atSemicolon (by decide) fun condition c₃ => ?_
  refine (Leads.expect (by decide) rfl atIncrement).bind fun semicolon c₄ => ?_
  refine leads_optional (begins_tokens _).mul atClosing (by decide) fun increment c₅ => ?_
  exact (Leads.expect (by decide) rfl possible).bind fun closing c₆ => .pure _

end Declarations

/-- The parsers of declarations and statements, if their recursion is at most `n` deep. -/
structure StmtViable (n : Nat) : Prop where
  declaration : ∀ {K} c, FollowsStatement K → Leads (words .declaration * K) K (declaration n) c
  classDeclaration : ∀ {K} c, Possible K →
    Leads (tokens [.identifier] * ((1 + tokens [.less] * tokens [.identifier]) *
      (tokens [.leftBrace] * ((words .function)∗ * (tokens [.rightBrace] * K))))) K
      (classDeclaration n) c
  methods : ∀ {K} c done, Possible K → Begins [.rightBrace] K →
    Leads ((words .function)∗ * K) K (methods n done) c
  routine : ∀ {K} c kind, Possible K → Leads (words .function * K) K (routine n kind) c
  block : ∀ {K} c, Possible K →
    Leads ((words .declaration)∗ * (tokens [.rightBrace] * K)) K (block n) c
  declarations : ∀ {K} c done, Possible K → Begins [.rightBrace] K →
    Leads ((words .declaration)∗ * K) K (declarations n done) c
  statement : ∀ {K} c, FollowsStatement K → Leads (words .statement * K) K (statement n) c

/-- What follows a declaration in a list of them. -/
theorem follows_declarations {kind : TokenKind} (possible : Possible K) (begins : Begins [kind] K)
    (other : kind ≠ .kwElse) : FollowsStatement ((words .declaration)∗ * K) := by
  apply Grammar.Follows.statement
  refine Follows.many (.of_begins begins possible ?_) (begins_words .declaration) (by decide)
  simpa using other.symm

section Step

variable (ih : StmtViable n)
include ih

theorem viable_declaration (follows : FollowsStatement K) :
    Leads (words .declaration * K) K (declaration (n + 1)) c := by
  rw [declaration, declaration_words]
  refine .recover (.peek fun t next known => ?_)
  split
  · next kind =>
    refine .alternative .classDecl ?_ (by decide) (by rw [next, kind]; decide)
    simp only [classDecl_words, mul_assoc]
    exact .keyword kind (by decide) (known (by simp [kind])) fun c' =>
      ih.classDeclaration c' follows.possible
  · next kind =>
    refine .alternative .funDecl ?_ (by decide) (by rw [next, kind]; decide)
    simp only [funDecl_words, mul_assoc]
    exact .keyword kind (by decide) (known (by simp [kind])) fun c' =>
      (ih.routine c' .function follows.possible).map _
  · next kind =>
    refine .alternative .varDecl ?_ (by decide) (by rw [next, kind]; decide)
    simp only [varDecl_words, mul_assoc]
    exact .keyword kind (by decide) (known (by simp [kind])) fun c' =>
      leads_varDeclaration follows.possible
  · next notClass notFun notVar =>
    refine .alternative .statement (ih.statement c follows) (by decide) ?_
    rw [next]
    simp_all [Nonterminal.first]

theorem viable_classDeclaration (possible : Possible K) :
    Leads (tokens [.identifier] * ((1 + tokens [.less] * tokens [.identifier]) *
      (tokens [.leftBrace] * ((words .function)∗ * (tokens [.rightBrace] * K))))) K
      (classDeclaration (n + 1)) c := by
  have atClosing : Possible (tokens [.rightBrace] * K) := (possible_tokens _).mul possible
  have atMethods : Possible ((words .function)∗ * (tokens [.rightBrace] * K)) := by
    rw [kstar_mul]
    exact atClosing.add
  have atOpening : Possible
      (tokens [.leftBrace] * ((words .function)∗ * (tokens [.rightBrace] * K))) :=
    (possible_tokens _).mul atMethods
  have atSuperclass : Possible ((1 + tokens [.less] * tokens [.identifier]) *
      (tokens [.leftBrace] * ((words .function)∗ * (tokens [.rightBrace] * K)))) := by
    rw [optional_mul]
    exact atOpening.add
  have body : ∀ name above c,
      Leads (tokens [.leftBrace] * ((words .function)∗ * (tokens [.rightBrace] * K))) K
        (do
          let _ ← expect .leftBrace .classBodyOpen
          let decls ← methods n []
          let _ ← expect .rightBrace .classBodyClose
          pure (Stmt.classDecl name above decls)) c := by
    intro name above c
    refine (Leads.expect (by decide) rfl atMethods).bind fun opening c₁ => ?_
    refine (ih.methods c₁ [] atClosing (begins_tokens _).mul).bind fun decls c₂ => ?_
    exact (Leads.expect (by decide) rfl possible).bind fun closing c₃ => .pure _
  rw [classDeclaration]
  refine (Leads.expect (by decide) rfl atSuperclass).bind fun name c₁ => ?_
  refine .acceptAny (by decide) (fun other => ?_) fun less c₂ isLess => ?_
  · exact .skip (body _ _ _) (begins_tokens [.less]).mul other
  · have follows : Follows [.less]
        (tokens [.leftBrace] * ((words .function)∗ * (tokens [.rightBrace] * K))) :=
      .tokens atMethods (by decide)
    rw [after_optional follows isLess (valued_of_mem isLess (by decide))]
    refine (Leads.expect (by decide) rfl atOpening).bind fun superName c₃ => ?_
    exact Leads.fresh.bind fun id c₄ => body _ _ _

theorem viable_methods (done : List FunctionDecl) (possible : Possible K)
    (begins : Begins [.rightBrace] K) :
    Leads ((words .function)∗ * K) K (methods (n + 1) done) c := by
  have atMethods : Possible ((words .function)∗ * K) := by
    rw [kstar_mul]
    exact possible.add
  rw [methods]
  refine .rounds (by decide) (begins_words .function) (by decide) begins (.pure _) ?_
  exact (ih.routine c .method atMethods).bind fun decl c' => ih.methods c' _ possible begins

theorem viable_routine (kind : RoutineKind) (possible : Possible K) :
    Leads (words .function * K) K (routine (n + 1) kind) c := by
  have atClosing : Possible (tokens [.rightBrace] * K) := (possible_tokens _).mul possible
  have atBody : Possible ((words .declaration)∗ * (tokens [.rightBrace] * K)) := by
    rw [kstar_mul]
    exact atClosing.add
  have atBrace := (possible_tokens .leftBrace).mul atBody
  have atParen := (possible_tokens .rightParen).mul atBrace
  have atParameters : Possible ((1 + words .parameters) * (tokens [.rightParen] *
      (tokens [.leftBrace] * ((words .declaration)∗ * (tokens [.rightBrace] * K))))) := by
    rw [optional_mul]
    exact atParen.add
  have behind : ∀ name params c, Leads (tokens [.rightParen] * (tokens [.leftBrace] *
      ((words .declaration)∗ * (tokens [.rightBrace] * K)))) K
        (do
          let _ ← expect .rightParen .parametersClose
          let _ ← expect .leftBrace (.routineBodyOpen kind)
          let body ← block n
          pure (⟨name, params, body⟩ : FunctionDecl)) c := by
    intro name params c
    refine (Leads.expect (by decide) rfl atBrace).bind fun closing c₁ => ?_
    refine (Leads.expect (by decide) rfl atBody).bind fun brace c₂ => ?_
    exact (ih.block c₂ possible).bind fun body c₃ => .pure _
  rw [routine]
  simp only [function_words, block_words, mul_assoc]
  refine (Leads.expect (by decide) rfl ((possible_tokens _).mul atParameters)).bind
    fun name c₁ => ?_
  refine (Leads.expect (by decide) rfl atParameters).bind fun opening c₂ => ?_
  refine .check (by decide) (fun closed => ?_) fun notClosed => ?_
  · refine .skip (behind name [] c₂) (begins_words .parameters) ?_
    rw [closed]
    decide
  · rw [optional_mul, add_comm]
    have follows : Follows [.comma] (tokens [.rightParen] *
        (tokens [.leftBrace] * ((words .declaration)∗ * (tokens [.rightBrace] * K)))) :=
      .tokens atBrace (by decide)
    refine .add ((leads_parameters [] follows).bind fun params c₃ => behind name params c₃) ?_
    exact after_tokens_mul_of_not_mem (by simpa using notClosed)

theorem viable_block (possible : Possible K) :
    Leads ((words .declaration)∗ * (tokens [.rightBrace] * K)) K (block (n + 1)) c := by
  have atClosing : Possible (tokens [.rightBrace] * K) := (possible_tokens _).mul possible
  rw [block]
  refine (ih.declarations c [] atClosing (begins_tokens _).mul).bind fun body c' => ?_
  exact (Leads.expect (by decide) rfl possible).bind fun closing c'' => .pure body

theorem viable_declarations (done : List Stmt) (possible : Possible K)
    (begins : Begins [.rightBrace] K) :
    Leads ((words .declaration)∗ * K) K (declarations (n + 1) done) c := by
  have follows := follows_declarations possible begins (by decide)
  rw [declarations]
  refine .rounds (by decide) (begins_words .declaration) (by decide) begins (.pure _) ?_
  refine (ih.declaration c follows).bind fun o c' => ?_
  cases o with
  | none => exact ih.declarations c' done possible begins
  | some s => exact ih.declarations c' _ possible begins

theorem viable_statement (follows : FollowsStatement K) :
    Leads (words .statement * K) K (statement (n + 1)) c := by
  have atBody : Possible (words .statement * K) := (possible_words _).mul follows.possible
  rw [statement, statement_words]
  refine .peek fun t next known => ?_
  split
  · next kind =>
    refine .alternative .forStmt ?_ (by decide) (by rw [next, kind]; decide)
    simp only [forStmt_words, mul_assoc]
    refine .keyword kind (by decide) (known (by simp [kind])) fun c₁ => ?_
    refine (leads_forClauses atBody).bind fun clauses c₂ => ?_
    exact (ih.statement c₂ follows).bind fun body _ => .pure _
  · next kind =>
    refine .alternative .ifStmt ?_ (by decide) (by rw [next, kind]; decide)
    have atElse := follows.withElse
    have atThen := (possible_words .statement).mul atElse.possible
    simp only [ifStmt_words, mul_assoc]
    refine .keyword kind (by decide) (known (by simp [kind])) fun c₁ => ?_
    refine leads_condition ⟨rfl, rfl⟩ atThen fun condition c₂ => ?_
    refine (ih.statement c₂ atElse).bind fun thenBranch c₃ => ?_
    refine .acceptAny (by decide) (fun other => ?_) fun keywordElse c₄ isElse => ?_
    · exact .skip (.pure _) (begins_tokens [.kwElse]).mul other
    · rw [after_else follows (by simpa using isElse)]
      exact (ih.statement c₄ follows).bind fun elseBranch _ => .pure _
  · next kind =>
    refine .alternative .printStmt ?_ (by decide) (by rw [next, kind]; decide)
    simp only [printStmt_words, mul_assoc]
    exact .keyword kind (by decide) (known (by simp [kind])) fun c₁ =>
      leads_printStatement follows.possible
  · next kind =>
    refine .alternative .returnStmt ?_ (by decide) (by rw [next, kind]; decide)
    simp only [returnStmt_words, mul_assoc]
    exact .keyword kind (by decide) (known (by simp [kind])) fun c₁ =>
      leads_returnStatement t follows.possible
  · next kind =>
    refine .alternative .whileStmt ?_ (by decide) (by rw [next, kind]; decide)
    simp only [whileStmt_words, mul_assoc]
    refine .keyword kind (by decide) (known (by simp [kind])) fun c₁ => ?_
    refine leads_condition ⟨rfl, rfl⟩ atBody fun condition c₂ => ?_
    exact (ih.statement c₂ follows).bind fun body _ => .pure _
  · next kind =>
    refine .alternative .block ?_ (by decide) (by rw [next, kind]; decide)
    simp only [block_words, mul_assoc]
    exact .keyword kind (by decide) (known (by simp [kind])) fun c₁ =>
      (ih.block c₁ follows.possible).map _
  · refine .alternative .exprStmt (leads_expressionStatement follows.possible) (by decide) ?_
    rw [next]
    simp_all [Nonterminal.first]

end Step

theorem stmtViable (n : Nat) : StmtViable n := by
  induction n with
  | zero =>
    constructor
    case declaration => exact fun _ _ => Leads.unfinished.recover
    all_goals
      intros
      exact .unfinished
  | succ n ih =>
    constructor
    case declaration => exact fun _ follows => viable_declaration ih follows
    case classDeclaration => exact fun _ possible => viable_classDeclaration ih possible
    case methods => exact fun _ done possible begins => viable_methods ih done possible begins
    case routine => exact fun _ kind possible => viable_routine ih kind possible
    case block => exact fun _ possible => viable_block ih possible
    case declarations =>
      exact fun _ done possible begins => viable_declarations ih done possible begins
    case statement => exact fun _ follows => viable_statement ih follows

/-- A program is read up to the end token. -/
theorem viable_program (n : Nat) (done : List Stmt) (c : Cursor) :
    Leads (words .program) (tokens [.eof]) (program n done) c := by
  have possible := possible_tokens .eof
  have begins := begins_tokens [.eof]
  rw [program_words]
  induction n generalizing done c with
  | zero => exact .unfinished
  | succ n ih =>
    rw [program]
    refine .atEnd (fun ended => ?_) fun notEnded => ?_
    · refine .skipMany (.pure _) (begins_words .declaration) ?_
      rw [ended]
      decide
    · have follows := follows_declarations possible begins (by decide)
      rw [kstar_mul, add_comm]
      refine .add ?_ (begins.after_eq_zero (by simpa using notEnded))
      refine ((stmtViable n).declaration c follows).bind fun o c' => ?_
      cases o with
      | none => exact ih done c'
      | some s => exact ih _ c'

end Treewalk.Parser
