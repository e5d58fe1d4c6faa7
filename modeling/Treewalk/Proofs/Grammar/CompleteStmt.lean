import Treewalk.Proofs.Grammar.CompleteExpr
import Treewalk.Proofs.Grammar.SoundStmt

/-!
# Parsing statements is complete

What the rules of declarations and statements derive, each `else` belonging to the nearest `if`,
their parsers accept if the recursion may go sixteen steps deep for each token.
-/

namespace Treewalk.Grammar

open Treewalk.Parser

variable {α : Type} {i j k : NodeId} {ts us rest : List Token} {n : Nat}

/-- One item of a `var` declaration, and what is done with it. -/
theorem accepts_varItem {decl : VarDecl} (h : VarItem i ts decl j)
    (enough : 16 * ts.length ≤ n + 16) (stops : Stops .assignment (us ++ rest))
    {f : Token → Option Expr → Parser α} {a : α}
    (next : Accepts (f decl.name decl.initializer) j us rest a k) :
    Accepts (do
      let name ← expect .identifier .variableName
      match ← accept .equal with
      | none => pure none >>= f name
      | some _ => some <$> assignment n >>= f name) i (ts ++ us) rest a k := by
  cases h with
  | bare identifier =>
    refine (accepts_expect identifier).bind (u := us) ?_
    exact (accepts_accept_none (stops.nextNot (by decide))).look (Accepts.pure.look next)
  | initialized identifier isEqual hv =>
    simp only [List.length_cons] at enough
    refine (accepts_expect identifier).bind (u := _ :: (_ ++ us)) ?_
    refine (accepts_accept isEqual).bind (u := _ ++ us) ?_
    exact (accepts_assignment hv (by omega) stops).map.bind next

theorem accepts_varItems {decls : List VarDecl} (h : VarItems i ts decls j)
    (enough : 16 * ts.length ≤ n) {semicolon : Token} (isSemicolon : semicolon.kind = .semicolon)
    (done : List VarDecl) :
    Accepts (varItems n done) i ts (semicolon :: rest) (done.reverse ++ decls) j := by
  induction h generalizing n done with
  | @one i ts j decl item =>
    cases n with
    | zero => cases item <;> simp at enough
    | succ n =>
      rw [varItems, ← List.append_nil ts]
      refine accepts_varItem item (by omega) (stops_cons (by rw [isSemicolon]; decide)) ?_
      refine (accepts_accept_none ?_).look ?_
      · simp [NextNot, isSemicolon]
      · simpa using Accepts.pure
  | @more i ts j us k decl decls comma item isComma items ih =>
    simp only [List.length_append, List.length_cons] at enough
    cases n with
    | zero => omega
    | succ n =>
      rw [varItems]
      refine accepts_varItem item (by omega) (stops_comma isComma) ?_
      refine (accepts_accept isComma).bind (u := us) ?_
      simpa using ih (by omega) (decl :: done)

theorem accepts_varDeclaration {decls : List VarDecl} {semicolon : Token}
    (h : VarItems i ts decls j) (isSemicolon : semicolon.kind = .semicolon)
    (enough : 16 * ts.length ≤ n) :
    Accepts (varDeclaration n) i (ts ++ [semicolon]) rest (varStatement decls) j := by
  rw [varDeclaration]
  refine (accepts_varItems h enough isSemicolon []).bind ?_
  refine (accepts_expect isSemicolon).bind (u := []) ?_
  rcases decls with _ | ⟨decl, _ | ⟨decl', decls⟩⟩
  · exact Accepts.pure
  · exact Accepts.pure
  · exact Accepts.pure

theorem accepts_expressionStatement {s : Stmt} (h : ExpressionStatement i ts s j)
    (enough : 16 * ts.length ≤ n + 16) : Accepts (expressionStatement n) i ts rest s j := by
  cases h with
  | mk he isSemicolon =>
    simp only [List.length_append, List.length_cons, List.length_nil] at enough
    refine (accepts_expression he (by omega) (stops_cons (by rw [isSemicolon]; decide))).bind ?_
    exact (accepts_expect isSemicolon).bind (u := []) Accepts.pure

theorem accepts_optional {kind : TokenKind} {f : Option Expr → Parser α} {a : α}
    {o : Option Expr} {closing : Token} (h : OptionalExpr i ts o j)
    (enough : 12 + 16 * ts.length ≤ n + 16) (isClosing : closing.kind = kind)
    (ends : beginsExpression kind = false ∧ Rule.expression.looseness < looseness kind)
    (next : Accepts (f o) j (closing :: us) rest a k) :
    Accepts (check kind >>= fun b => if b then pure none >>= f else some <$> expression n >>= f) i
      (ts ++ closing :: us) rest a k := by
  cases h with
  | none =>
    refine (accepts_check isClosing).look ?_
    exact Accepts.pure.look next
  | some he =>
    refine (accepts_check_false ?_).look ?_
    · rw [List.append_assoc]
      exact he.nextNot (by simpa using ends.1)
    · have read : Accepts _ _ _ (closing :: us ++ rest) _ _ := accepts_expression he enough
        (stops_cons (by rw [isClosing]; exact ends.2))
      exact read.map.bind next

theorem accepts_forInitializer {o : Option Stmt} (h : ForInitializer i ts o j)
    (enough : 16 * ts.length ≤ n + 16) : Accepts (forInitializer n) i ts rest o j := by
  cases h with
  | none isSemicolon =>
    refine (accepts_acceptAny (by simp [isSemicolon])).bind (u := []) ?_
    dsimp only
    rw [if_neg (by rw [isSemicolon]; decide)]
    exact Accepts.pure
  | var h =>
    cases h with
    | mk kind items isSemicolon =>
      refine (accepts_acceptAny (by simp [kind])).bind ?_
      dsimp only
      rw [if_pos kind]
      simp only [List.length_cons, List.length_append] at enough
      exact (accepts_varDeclaration items isSemicolon (by omega)).map
  | expression h =>
    refine (accepts_acceptAny_none ?_).look (accepts_expressionStatement h enough).map
    cases h with
    | mk he isSemicolon =>
      rw [List.append_assoc]
      exact he.nextNot (by decide)

theorem accepts_forClauses {vs : List Token} {l : NodeId} {opening semicolon closing : Token}
    {initializer : Option Stmt} {condition increment : Option Expr}
    (isOpening : opening.kind = .leftParen) (hinitializer : ForInitializer i ts initializer j)
    (hcondition : OptionalExpr j us condition k) (isSemicolon : semicolon.kind = .semicolon)
    (hincrement : OptionalExpr k vs increment l) (isClosing : closing.kind = .rightParen)
    (enough : 16 * (ts.length + us.length + vs.length) ≤ n) :
    Accepts (forClauses n) i (opening :: (ts ++ (us ++ semicolon :: (vs ++ [closing])))) rest
      (initializer, condition, increment) l := by
  refine (accepts_expect isOpening).bind (u := ts ++ (us ++ semicolon :: (vs ++ [closing]))) ?_
  refine (accepts_forInitializer hinitializer (by omega)).bind ?_
  refine accepts_optional hcondition (by omega) isSemicolon (by decide) ?_
  refine (accepts_expect isSemicolon).bind (u := vs ++ [closing]) ?_
  refine accepts_optional hincrement (by omega) isClosing (by decide) ?_
  exact (accepts_expect isClosing).bind (u := []) Accepts.pure

theorem accepts_parameters {names : List Token} (h : Names ts names) (enough : ts.length ≤ n)
    {closing : Token} (isClosing : closing.kind = .rightParen) (done : List Token)
    (short : done.length + names.length ≤ listLimit) :
    Accepts (parameters n done) i ts (closing :: rest) (done.reverse ++ names) i := by
  induction h generalizing n done with
  | one identifier =>
    cases n with
    | zero => simp at enough
    | succ n =>
      have room : ¬ maxArity ≤ done.length := Nat.not_le.2 short
      rw [parameters, if_neg room]
      refine (accepts_expect identifier).bind (u := []) ?_
      refine (accepts_accept_none ?_).look ?_
      · simp [NextNot, isClosing]
      · simpa using Accepts.pure
  | @more ts name comma names identifier isComma hs ih =>
    simp only [List.length_cons] at enough short
    cases n with
    | zero => omega
    | succ n =>
      have room : ¬ maxArity ≤ done.length := by
        simp only [listLimit] at short
        simp only [maxArity]
        omega
      rw [parameters, if_neg room]
      refine (accepts_expect identifier).bind (u := comma :: ts) ?_
      refine (accepts_accept isComma).bind (u := ts) ?_
      simpa using ih (by omega) (name :: done) (by simp only [List.length_cons]; omega)

theorem ExpressionStatement.first {s : Stmt} (h : ExpressionStatement i ts s j) :
    ∃ t us, ts = t :: us ∧ beginsExpression t.kind = true := by
  cases h with
  | mk he _ =>
    obtain ⟨t, us, rfl, begins⟩ := he.first
    exact ⟨t, _, rfl, begins⟩

theorem Statement.first {choice : ElseRule} {s : Stmt} {isOpen : Bool}
    (h : Statement choice i ts s isOpen j) :
    ∃ t us, ts = t :: us ∧ t.kind ∉ [.kwElse, .rightBrace, .kwClass, .kwFun, .kwVar, .eof] := by
  cases h with
  | expression h =>
    obtain ⟨t, us, rfl, begins⟩ := h.first
    refine ⟨t, us, rfl, fun member => ?_⟩
    simp only [List.mem_cons, List.not_mem_nil, or_false] at member
    rcases member with kind | kind | kind | kind | kind | kind <;> rw [kind] at begins <;>
      cases begins
  | forLoop kind | branch kind | branchElse kind | print kind | ret kind | loop kind | block kind =>
    exact ⟨_, _, rfl, by rw [kind]; decide⟩

/-- No declaration begins with what ends a block or continues a statement. -/
theorem Declaration.first {choice : ElseRule} {s : Stmt} (h : Declaration choice i ts s j) :
    ∃ t us, ts = t :: us ∧ t.kind ∉ [.kwElse, .rightBrace, .eof] := by
  cases h with
  | classDecl kind | function kind => exact ⟨_, _, rfl, by rw [kind]; decide⟩
  | var h =>
    cases h with
    | mk kind => exact ⟨_, _, rfl, by rw [kind]; decide⟩
  | statement h =>
    obtain ⟨t, us, rfl, other⟩ := h.first
    refine ⟨t, us, rfl, fun member => other ?_⟩
    exact List.subset_def.1 (by decide) member

/-- Behind a declaration stand others or what ends them. -/
theorem Declarations.nextNot {choice : ElseRule} {body : List Stmt}
    (h : Declarations choice i ts body j) (ends : NextNot [.kwElse] rest) :
    NextNot [.kwElse] (ts ++ rest) := by
  cases h with
  | nil => exact ends
  | cons first _ =>
    obtain ⟨t, us, rfl, other⟩ := first.first
    simp only [List.mem_cons, List.not_mem_nil, or_false, not_or] at other
    simpa [NextNot] using other.1

/-- The parser of statements accepts what is derived, unless an `else` would be drawn into it. -/
def CompleteStatement (i : NodeId) (ts : List Token) (s : Stmt) (isOpen : Bool) (j : NodeId) :
    Prop :=
  ∀ n rest, 16 * ts.length ≤ n → (isOpen = true → NextNot [.kwElse] rest) →
    Accepts (statement n) i ts rest s j

def CompleteDeclaration (i : NodeId) (ts : List Token) (s : Stmt) (j : NodeId) : Prop :=
  ∀ n rest, 16 * ts.length < n → NextNot [.kwElse] rest →
    Accepts (declaration n) i ts rest (some s) j

def CompleteBlock (i : NodeId) (ts : List Token) (body : List Stmt) (j : NodeId) : Prop :=
  ∀ n rest, 16 * ts.length ≤ n → Accepts (block n) i ts rest body j

def CompleteDeclarations (i : NodeId) (ts : List Token) (body : List Stmt) (j : NodeId) : Prop :=
  ∀ n rest done closing, 16 * ts.length + 2 ≤ n → closing.kind = .rightBrace →
    Accepts (declarations n done) i ts (closing :: rest) (done.reverse ++ body) j

def CompleteRoutine (i : NodeId) (ts : List Token) (decl : FunctionDecl) (j : NodeId) : Prop :=
  ∀ n rest kind, 16 * ts.length ≤ n → Accepts (routine n kind) i ts rest decl j

def CompleteMethods (i : NodeId) (ts : List Token) (decls : List FunctionDecl) (j : NodeId) :
    Prop :=
  ∀ n rest done closing, 16 * ts.length + 1 ≤ n → closing.kind = .rightBrace →
    Accepts (methods n done) i ts (closing :: rest) (done.reverse ++ decls) j

theorem complete_expressionStatement {s : Stmt} (h : ExpressionStatement i ts s j) :
    CompleteStatement i ts s false j := by
  intro n rest enough _
  obtain ⟨t, us, rfl, begins⟩ := h.first
  simp only [List.length_cons] at enough
  cases n with
  | zero => omega
  | succ n =>
    rw [statement]
    refine accepts_peek ?_
    have read : Accepts _ _ _ rest _ _ := accepts_expressionStatement (n := n) h
      (by simp only [List.length_cons]; omega)
    split
    all_goals first
      | exact read
      | next kind => rw [kind] at begins; cases begins

theorem complete_forLoop {vs ws : List Token} {l m : NodeId}
    {keyword opening semicolon closing : Token} {initializer : Option Stmt}
    {condition increment : Option Expr} {body : Stmt} {isOpen : Bool}
    (kind : keyword.kind = .kwFor) (isOpening : opening.kind = .leftParen)
    (hinitializer : ForInitializer i ts initializer j) (hcondition : OptionalExpr j us condition k)
    (isSemicolon : semicolon.kind = .semicolon) (hincrement : OptionalExpr k vs increment l)
    (isClosing : closing.kind = .rightParen) (hbody : CompleteStatement l ws body isOpen m) :
    CompleteStatement i
      (keyword :: opening :: (ts ++ (us ++ semicolon :: (vs ++ closing :: ws))))
      (withInitializer initializer
        (.loop (condition.getD (.constant .true)) (withIncrement increment body))) isOpen m := by
  intro n rest enough follows
  simp only [List.length_cons, List.length_append] at enough
  cases n with
  | zero => omega
  | succ n =>
    rw [statement]
    refine accepts_peek ?_
    rw [kind]
    have clauses : Accepts _ _ _ (ws ++ rest) _ _ := accepts_forClauses (n := n) isOpening
      hinitializer hcondition isSemicolon hincrement isClosing (by omega)
    have tokens : ts ++ (us ++ semicolon :: (vs ++ closing :: ws)) =
        (ts ++ (us ++ semicolon :: (vs ++ [closing]))) ++ ws := by
      simp only [List.append_assoc, List.cons_append, List.nil_append]
    refine accepts_advance ?_
    rw [tokens, ← List.cons_append, ← forLoop_eq]
    exact clauses.bind (hbody n rest (by omega) follows).last

theorem complete_branch {keyword opening closing : Token} {condition : Expr} {thenBranch : Stmt}
    {isOpen : Bool} (kind : keyword.kind = .kwIf) (isOpening : opening.kind = .leftParen)
    (hcondition : Derives .expression i ts condition j) (isClosing : closing.kind = .rightParen)
    (hthen : CompleteStatement j us thenBranch isOpen k) :
    CompleteStatement i (keyword :: opening :: (ts ++ closing :: us))
      (.branch condition thenBranch none) true k := by
  intro n rest enough follows
  simp only [List.length_cons, List.length_append] at enough
  cases n with
  | zero => omega
  | succ n =>
    rw [statement]
    refine accepts_peek ?_
    rw [kind]
    refine accepts_advance ?_
    refine (accepts_expect isOpening).bind (u := ts ++ closing :: us) ?_
    refine (accepts_expression hcondition (by omega)
      (stops_cons (by rw [isClosing]; decide))).bind ?_
    refine (accepts_expect isClosing).bind (u := us) ?_
    have read := hthen n rest (by omega) fun _ => follows rfl
    rw [← List.append_nil us]
    refine read.bind ?_
    exact (accepts_accept_none (follows rfl)).look Accepts.pure

theorem complete_branchElse {vs : List Token} {l : NodeId}
    {keyword opening closing keywordElse : Token} {condition : Expr}
    {thenBranch elseBranch : Stmt} {isOpen : Bool} (kind : keyword.kind = .kwIf)
    (isOpening : opening.kind = .leftParen) (hcondition : Derives .expression i ts condition j)
    (isClosing : closing.kind = .rightParen) (hthen : CompleteStatement j us thenBranch false k)
    (isElse : keywordElse.kind = .kwElse) (helse : CompleteStatement k vs elseBranch isOpen l) :
    CompleteStatement i (keyword :: opening :: (ts ++ closing :: (us ++ keywordElse :: vs)))
      (.branch condition thenBranch (some elseBranch)) isOpen l := by
  intro n rest enough follows
  simp only [List.length_cons, List.length_append] at enough
  cases n with
  | zero => omega
  | succ n =>
    rw [statement]
    refine accepts_peek ?_
    rw [kind]
    refine accepts_advance ?_
    refine (accepts_expect isOpening).bind (u := ts ++ closing :: (us ++ keywordElse :: vs)) ?_
    refine (accepts_expression hcondition (by omega)
      (stops_cons (by rw [isClosing]; decide))).bind ?_
    refine (accepts_expect isClosing).bind (u := us ++ keywordElse :: vs) ?_
    have closed : (false = true → NextNot [TokenKind.kwElse] (keywordElse :: vs ++ rest)) :=
      fun impossible => absurd impossible Bool.false_ne_true
    refine (hthen n _ (by omega) closed).bind ?_
    refine (accepts_accept isElse).bind (u := vs) ?_
    exact (helse n rest (by omega) follows).last

theorem complete_print {keyword semicolon : Token} {e : Expr} (kind : keyword.kind = .kwPrint)
    (he : Derives .expression i ts e j) (isSemicolon : semicolon.kind = .semicolon) :
    CompleteStatement i (keyword :: (ts ++ [semicolon])) (.print e) false j := by
  intro n rest enough _
  simp only [List.length_cons, List.length_append, List.length_nil] at enough
  cases n with
  | zero => omega
  | succ n =>
    rw [statement]
    refine accepts_peek ?_
    rw [kind]
    refine accepts_advance ?_
    refine (accepts_expression he (by omega) (stops_cons (by rw [isSemicolon]; decide))).bind ?_
    exact (accepts_expect isSemicolon).bind (u := []) Accepts.pure

theorem complete_return {keyword semicolon : Token} {value : Option Expr}
    (kind : keyword.kind = .kwReturn) (hvalue : OptionalExpr i ts value j)
    (isSemicolon : semicolon.kind = .semicolon) :
    CompleteStatement i (keyword :: (ts ++ [semicolon])) (.ret keyword value) false j := by
  intro n rest enough _
  simp only [List.length_cons, List.length_append, List.length_nil] at enough
  cases n with
  | zero => omega
  | succ n =>
    rw [statement]
    refine accepts_peek ?_
    rw [kind]
    refine accepts_advance ?_
    refine accepts_optional hvalue (by omega) isSemicolon (by decide) ?_
    exact (accepts_expect isSemicolon).bind (u := []) Accepts.pure

theorem complete_loop {keyword opening closing : Token} {condition : Expr} {body : Stmt}
    {isOpen : Bool} (kind : keyword.kind = .kwWhile) (isOpening : opening.kind = .leftParen)
    (hcondition : Derives .expression i ts condition j) (isClosing : closing.kind = .rightParen)
    (hbody : CompleteStatement j us body isOpen k) :
    CompleteStatement i (keyword :: opening :: (ts ++ closing :: us)) (.loop condition body)
      isOpen k := by
  intro n rest enough follows
  simp only [List.length_cons, List.length_append] at enough
  cases n with
  | zero => omega
  | succ n =>
    rw [statement]
    refine accepts_peek ?_
    rw [kind]
    refine accepts_advance ?_
    refine (accepts_expect isOpening).bind (u := ts ++ closing :: us) ?_
    refine (accepts_expression hcondition (by omega)
      (stops_cons (by rw [isClosing]; decide))).bind ?_
    refine (accepts_expect isClosing).bind (u := us) ?_
    exact (hbody n rest (by omega) follows).last

theorem complete_block {opening : Token} {body : List Stmt} (kind : opening.kind = .leftBrace)
    (hbody : CompleteBlock i ts body j) :
    CompleteStatement i (opening :: ts) (.block body) false j := by
  intro n rest enough _
  simp only [List.length_cons] at enough
  cases n with
  | zero => omega
  | succ n =>
    rw [statement]
    refine accepts_peek ?_
    rw [kind]
    exact accepts_advance (hbody n rest (by omega)).map

theorem complete_classDecl {keyword name opening closing : Token} {superclass : Option Variable}
    {methods : List FunctionDecl} (kind : keyword.kind = .kwClass)
    (identifier : name.kind = .identifier) (above : Superclass i ts superclass j)
    (isOpening : opening.kind = .leftBrace) (hs : CompleteMethods j us methods k)
    (isClosing : closing.kind = .rightBrace) :
    CompleteDeclaration i (keyword :: name :: (ts ++ opening :: (us ++ [closing])))
      (.classDecl name superclass methods) k := by
  intro n rest enough _
  simp only [List.length_cons, List.length_append, List.length_nil] at enough
  match n with
  | 0 => omega
  | 1 => omega
  | n + 2 =>
    have body : ∀ superclass : Option Variable, Accepts (do
        let _ ← expect .leftBrace .classBodyOpen
        let decls ← Parser.methods n []
        let _ ← expect .rightBrace .classBodyClose
        pure (Stmt.classDecl name superclass decls)) j (opening :: (us ++ [closing])) rest
        (.classDecl name superclass methods) k := fun superclass => by
      refine (accepts_expect isOpening).bind (u := us ++ [closing]) ?_
      refine (hs n rest [] closing (by omega) isClosing).bind ?_
      exact (accepts_expect isClosing).last
    rw [declaration]
    refine Accepts.recover (accepts_peek ?_)
    rw [kind]
    refine accepts_advance ?_
    rw [classDeclaration]
    cases above with
    | none =>
      refine (accepts_expect identifier).bind (u := opening :: (us ++ [closing])) ?_
      refine (accepts_accept_none ?_).look (Accepts.pure.look (body none))
      simp [NextNot, isOpening]
    | @some less above isLess isName =>
      refine (accepts_expect identifier).bind
        (u := less :: above :: opening :: (us ++ [closing])) ?_
      refine (accepts_accept isLess).bind (u := above :: opening :: (us ++ [closing])) ?_
      refine (accepts_expect isName).bind (u := opening :: (us ++ [closing])) ?_
      exact accepts_fresh.look (Accepts.pure.look (body _))

theorem complete_function {keyword : Token} {decl : FunctionDecl} (kind : keyword.kind = .kwFun)
    (h : CompleteRoutine i ts decl j) :
    CompleteDeclaration i (keyword :: ts) (.function decl) j := by
  intro n rest enough _
  simp only [List.length_cons] at enough
  cases n with
  | zero => omega
  | succ n =>
    rw [declaration]
    refine Accepts.recover (accepts_peek ?_)
    rw [kind]
    exact accepts_advance (h n rest .function (by omega)).map

theorem complete_var {s : Stmt} (h : VarDeclaration i ts s j) : CompleteDeclaration i ts s j := by
  intro n rest enough _
  cases h with
  | mk kind items isSemicolon =>
    simp only [List.length_cons, List.length_append, List.length_nil] at enough
    cases n with
    | zero => omega
    | succ n =>
      rw [declaration]
      refine Accepts.recover (accepts_peek ?_)
      rw [kind]
      exact accepts_advance (accepts_varDeclaration items isSemicolon (by omega))

theorem complete_statement {choice : ElseRule} {s : Stmt} {isOpen : Bool}
    (h : Statement choice i ts s isOpen j) (hs : CompleteStatement i ts s isOpen j) :
    CompleteDeclaration i ts s j := by
  intro n rest enough follows
  obtain ⟨t, us, rfl, other⟩ := h.first
  cases n with
  | zero => omega
  | succ n =>
    have read := hs n rest (by omega) fun _ => follows
    rw [declaration]
    refine Accepts.recover (accepts_peek ?_)
    split
    all_goals first
      | exact read
      | next kind => exact absurd kind (by rintro kind; simp [kind] at other)

theorem completeBlock_mk {body : List Stmt} {closing : Token}
    (hs : CompleteDeclarations i ts body j) (isClosing : closing.kind = .rightBrace) :
    CompleteBlock i (ts ++ [closing]) body j := by
  intro n rest enough
  simp only [List.length_append, List.length_cons, List.length_nil] at enough
  cases n with
  | zero => omega
  | succ n =>
    rw [block]
    exact (hs n rest [] closing (by omega) isClosing).bind (accepts_expect isClosing).last

/-- The loops over declarations and over methods end at a closing brace. -/
theorem accepts_end {f : Parser α} {g : Parser α} {a : α} {closing : Token}
    (isClosing : closing.kind = .rightBrace) (next : Accepts f i [] (closing :: rest) a i) :
    Accepts (do if (← atEnd) || (← check .rightBrace) then f else g) i []
      (closing :: rest) a i := by
  refine accepts_atEnd.look ((accepts_check isClosing).look ?_)
  simpa using next

/-- The loops over declarations and over methods go on at any other token. -/
theorem accepts_goOn {f : Parser α} {g : Parser α} {a : α} {t : Token}
    (other : t.kind ≠ .rightBrace) (next : Accepts g i (t :: ts) rest a j) :
    Accepts (do if (← atEnd) || (← check .rightBrace) then f else g) i (t :: ts) rest a j := by
  refine accepts_atEnd.look ((accepts_check_false ?_).look ?_)
  · simpa [NextNot] using other
  · simpa using next

theorem completeDeclarations_nil : CompleteDeclarations i [] [] i := by
  intro n rest done closing enough isClosing
  cases n with
  | zero => simp at enough
  | succ n =>
    rw [declarations]
    exact accepts_end isClosing (by simpa using Accepts.pure)

theorem completeDeclarations_cons {choice : ElseRule} {s : Stmt} {body : List Stmt}
    (h : Declaration choice i ts s j) (hs : CompleteDeclaration i ts s j)
    (hbody : Declarations choice j us body k) (more : CompleteDeclarations j us body k) :
    CompleteDeclarations i (ts ++ us) (s :: body) k := by
  intro n rest done closing enough isClosing
  have behind : NextNot [.kwElse] (us ++ closing :: rest) :=
    hbody.nextNot (by simp [NextNot, isClosing])
  obtain ⟨t, ts, rfl, other⟩ := h.first
  simp only [List.length_append, List.length_cons] at enough
  cases n with
  | zero => omega
  | succ n =>
    rw [declarations]
    refine accepts_goOn (fun kind => by simp [kind] at other) ?_
    refine (hs n _ (by simp only [List.length_cons]; omega) behind).bind (u := us) ?_
    simpa using more n rest (s :: done) closing (by omega) isClosing

theorem completeRoutine_mk {name opening closing brace : Token} {params : List Token}
    {body : List Stmt} (identifier : name.kind = .identifier)
    (isOpening : opening.kind = .leftParen) (hparams : Parameters ts params)
    (isClosing : closing.kind = .rightParen) (isBrace : brace.kind = .leftBrace)
    (hbody : CompleteBlock i us body j) :
    CompleteRoutine i (name :: opening :: (ts ++ closing :: brace :: us))
      ⟨name, params, body⟩ j := by
  intro n rest kind enough
  simp only [List.length_cons, List.length_append] at enough
  cases n with
  | zero => omega
  | succ n =>
    have behind : ∀ params, Accepts (do
        let _ ← expect .rightParen .parametersClose
        let _ ← expect .leftBrace (.routineBodyOpen kind)
        let body ← block n
        pure (⟨name, params, body⟩ : FunctionDecl)) i (closing :: brace :: us) rest
        ⟨name, params, body⟩ j := fun params => by
      refine (accepts_expect isClosing).bind (u := brace :: us) ?_
      refine (accepts_expect isBrace).bind (u := us) ?_
      exact (hbody n rest (by omega)).last
    rw [routine]
    refine (accepts_expect identifier).bind (u := opening :: (ts ++ closing :: brace :: us)) ?_
    refine (accepts_expect isOpening).bind (u := ts ++ closing :: brace :: us) ?_
    cases hparams with
    | none =>
      refine (accepts_check isClosing).look ?_
      exact Accepts.pure.look (behind [])
    | some hs short =>
      refine (accepts_check_false ?_).look ?_
      · cases hs with
        | one identifier | more identifier => simp [NextNot, identifier]
      · have read : Accepts _ i _ (closing :: (brace :: us ++ rest)) _ _ :=
          accepts_parameters (n := n) hs (by omega) isClosing [] (by simpa using short)
        exact read.bind (behind params)

theorem completeMethods_nil : CompleteMethods i [] [] i := by
  intro n rest done closing enough isClosing
  cases n with
  | zero => simp at enough
  | succ n =>
    rw [methods]
    exact accepts_end isClosing (by simpa using Accepts.pure)

theorem completeMethods_cons {choice : ElseRule} {decl : FunctionDecl} {decls : List FunctionDecl}
    (h : Routine choice i ts decl j) (hdecl : CompleteRoutine i ts decl j)
    (more : CompleteMethods j us decls k) : CompleteMethods i (ts ++ us) (decl :: decls) k := by
  intro n rest done closing enough isClosing
  obtain ⟨name, ts, rfl, identifier⟩ : ∃ name us, ts = name :: us ∧ name.kind = .identifier := by
    cases h with
    | mk identifier => exact ⟨_, _, rfl, identifier⟩
  simp only [List.length_append, List.length_cons] at enough
  cases n with
  | zero => omega
  | succ n =>
    rw [methods]
    refine accepts_goOn (by simp [identifier]) ?_
    refine (hdecl n _ _ (by simp only [List.length_cons]; omega)).bind (u := us) ?_
    simpa using more n rest (decl :: done) closing (by omega) isClosing

mutual

theorem Declaration.complete {i j : NodeId} {ts : List Token} {s : Stmt} :
    Declaration .nearest i ts s j → CompleteDeclaration i ts s j
  | .classDecl kind identifier above isOpening hs isClosing =>
    complete_classDecl kind identifier above isOpening hs.complete isClosing
  | .function kind h => complete_function kind h.complete
  | .var h => complete_var h
  | .statement h => complete_statement h h.complete

theorem Statement.complete {i j : NodeId} {ts : List Token} {s : Stmt} {isOpen : Bool} :
    Statement .nearest i ts s isOpen j → CompleteStatement i ts s isOpen j
  | .expression h => complete_expressionStatement h
  | .forLoop kind isOpening hinitializer hcondition isSemicolon hincrement isClosing hbody =>
    complete_forLoop kind isOpening hinitializer hcondition isSemicolon hincrement isClosing
      hbody.complete
  | .branch kind isOpening hcondition isClosing hthen =>
    complete_branch kind isOpening hcondition isClosing hthen.complete
  | .branchElse kind isOpening hcondition isClosing hthen closed isElse helse =>
    complete_branchElse kind isOpening hcondition isClosing (closed rfl ▸ hthen.complete) isElse
      helse.complete
  | .print kind he isSemicolon => complete_print kind he isSemicolon
  | .ret kind hvalue isSemicolon => complete_return kind hvalue isSemicolon
  | .loop kind isOpening hcondition isClosing hbody =>
    complete_loop kind isOpening hcondition isClosing hbody.complete
  | .block kind hbody => complete_block kind hbody.complete

theorem Block.complete {i j : NodeId} {ts : List Token} {body : List Stmt} :
    Block .nearest i ts body j → CompleteBlock i ts body j
  | .mk hs isClosing => completeBlock_mk hs.complete isClosing

theorem Declarations.complete {i j : NodeId} {ts : List Token} {body : List Stmt} :
    Declarations .nearest i ts body j → CompleteDeclarations i ts body j
  | .nil => completeDeclarations_nil
  | .cons h hbody => completeDeclarations_cons h h.complete hbody hbody.complete

theorem Routine.complete {i j : NodeId} {ts : List Token} {decl : FunctionDecl} :
    Routine .nearest i ts decl j → CompleteRoutine i ts decl j
  | .mk identifier isOpening hparams isClosing isBrace hbody =>
    completeRoutine_mk identifier isOpening hparams isClosing isBrace hbody.complete

theorem Methods.complete {i j : NodeId} {ts : List Token} {decls : List FunctionDecl} :
    Methods .nearest i ts decls j → CompleteMethods i ts decls j
  | .nil => completeMethods_nil
  | .cons h hs => completeMethods_cons h h.complete hs.complete

end

/-- These tokens are read as a program, with enough steps and behind any statements. -/
def CompleteProgram (i : NodeId) (ts : List Token) (stmts : List Stmt) (j : NodeId) : Prop :=
  ∀ n done, 16 * ts.length + 2 ≤ n → Accepts (program n done) i ts [] (done.reverse ++ stmts) j

theorem completeProgram_nil : CompleteProgram i [] [] i := by
  intro n done enough
  cases n with
  | zero => omega
  | succ n =>
    rw [program]
    refine accepts_atEnd.look ?_
    simpa using Accepts.pure

theorem completeProgram_cons {s : Stmt} {rest : List Stmt} (h : Declaration .nearest i ts s j)
    (hs : Program .nearest j us rest k) (complete : CompleteProgram j us rest k) :
    CompleteProgram i (ts ++ us) (s :: rest) k := by
  intro n done enough
  have read := h.complete
  obtain ⟨t, ts, rfl, other⟩ := h.first
  simp only [List.length_append, List.length_cons] at enough
  cases n with
  | zero => omega
  | succ n =>
    rw [program]
    refine accepts_atEnd.look ?_
    refine (read n _ (by simp only [List.length_cons]; omega)
      (hs.nextNot (by simp [NextNot]))).bind ?_
    simpa using complete n (s :: done) (by omega)

/-- A whole program is accepted. -/
theorem accepts_program {i j : NodeId} {ts : List Token} {stmts : List Stmt} :
    Program .nearest i ts stmts j → CompleteProgram i ts stmts j
  | .nil => completeProgram_nil
  | .cons h hs => completeProgram_cons h hs (accepts_program hs)

end Treewalk.Grammar
