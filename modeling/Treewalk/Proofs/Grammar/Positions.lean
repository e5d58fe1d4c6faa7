import Mathlib.Data.List.Infix
import Treewalk.Syntax.Parser

/-!
# Where a parser looks

`Visits p c cs` says that a run of the parser `p` from the cursor `c` looks at the next token where
the cursors `cs` stand, in this order. The operations look where they start, a sequence of parsers
looks where its parts do, and recovery looks at each token that it skips. A run only ever goes
forward: no cursor stands before one that was visited earlier, and none behind the end. Every parser
of the grammar is made of these parts, so every run of it visits some cursors.
-/

namespace Treewalk.Parser

variable {α β : Type} {p : Parser α} {f : α → Parser β} {c c' c'' : Cursor} {cs ds : List Cursor}

theorem bind_of_ok {a : α} (h : p c = .ok a c') : (p >>= f) c = f a c' := by
  show EStateM.bind p f c = _
  rw [EStateM.bind, h]

theorem bind_of_error {e : SyntaxError} (h : p c = .error e c') :
    (p >>= f) c = .error e c' := by
  show EStateM.bind p f c = _
  rw [EStateM.bind, h]

theorem atEnd_eq (c : Cursor) : atEnd c = .ok c.rest.isEmpty c := rfl

theorem check_eq (kind : TokenKind) (c : Cursor) :
    check kind c = .ok (c.rest.head?.any (·.kind == kind)) c := by
  unfold check
  split <;> simp_all

theorem acceptAny_of_mem {kinds : List TokenKind} {t : Token} {rest : List Token}
    (next : c.rest = t :: rest) (member : t.kind ∈ kinds) :
    acceptAny kinds c = .ok (some t) { c with rest } := by
  simp [acceptAny, next, member]

theorem acceptAny_of_not_mem {kinds : List TokenKind} (other : ∀ t ∈ c.rest.head?, t.kind ∉ kinds) :
    acceptAny kinds c = .ok none c := by
  unfold acceptAny
  split
  · rfl
  · next t rest next =>
    rw [next] at other
    have : t.kind ∉ kinds := other t rfl
    simp [this]

theorem accept_of_kind {kind : TokenKind} {t : Token} {rest : List Token}
    (next : c.rest = t :: rest) (same : t.kind = kind) :
    accept kind c = .ok (some t) { c with rest } :=
  acceptAny_of_mem next (by simp [same])

theorem accept_of_ne {kind : TokenKind} (other : ∀ t ∈ c.rest.head?, t.kind ≠ kind) :
    accept kind c = .ok none c :=
  acceptAny_of_not_mem (by simpa using other)

/-- Where a run ends. -/
def ending : EStateM.Result SyntaxError Cursor α → Cursor
  | .ok _ c => c
  | .error _ c => c

/-- A cursor that stands no earlier, and that has lost no error. -/
structure Forward (c c' : Cursor) : Prop where
  final : c'.final = c.final
  rest : c'.rest <:+ c.rest
  errors : c.errors <:+ c'.errors

theorem Forward.refl (c : Cursor) : Forward c c := ⟨rfl, List.suffix_refl _, List.suffix_refl _⟩

theorem Forward.trans (h : Forward c c') (h' : Forward c' c'') : Forward c c'' :=
  ⟨h'.final.trans h.final, h'.rest.trans h.rest, h.errors.trans h'.errors⟩

/-- The operations, each of which looks at the next token at most. -/
inductive Primitive : {α : Type} → Parser α → Prop
  | pure {α : Type} (a : α) : Primitive (pure a)
  | throw {α : Type} (e : SyntaxError) : Primitive (throw e : Parser α)
  | peek : Primitive peek
  | atEnd : Primitive atEnd
  | check (kind : TokenKind) : Primitive (check kind)
  | advance : Primitive advance
  | acceptAny (kinds : List TokenKind) : Primitive (acceptAny kinds)
  | report (t : Token) (cause : SyntaxError.Cause) : Primitive (report t cause)
  | fresh : Primitive fresh

/-- Where recovery looks: from the token that it skips in any case to the one that it stops at. -/
def skipped (c : Cursor) : List Cursor :=
  (c.rest.tails.filter fun rest => (synchronize c.rest).length ≤ rest.length).map
    fun rest => { c with rest }

/-- A run of the parser from a cursor looks at the token before these cursors, in this order. It is
cut into its operations; of a parser that recovers, also the cursors that are skipped belong to it. -/
inductive Visits : {α : Type} → Parser α → Cursor → List Cursor → Prop
  | primitive {α : Type} {p : Parser α} (is : Primitive p) (c : Cursor) : Visits p c [c]
  | bind {α β : Type} {p : Parser α} {f : α → Parser β} {c c' : Cursor} {cs ds : List Cursor}
    {a : α} (first : Visits p c cs) (returns : p c = .ok a c') (second : Visits (f a) c' ds) :
    Visits (p >>= f) c (cs ++ ds)
  | stopped {α β : Type} {p : Parser α} {f : α → Parser β} {c c' : Cursor} {cs : List Cursor}
    {e : SyntaxError} (first : Visits p c cs) (stops : p c = .error e c') : Visits (p >>= f) c cs
  | recover {α : Type} {p : Parser α} {c c' : Cursor} {cs : List Cursor} {a : α}
    (first : Visits p c cs) (returns : p c = .ok a c') : Visits (recover p) c cs
  | skip {α : Type} {p : Parser α} {c c' : Cursor} {cs : List Cursor} {e : SyntaxError}
    (first : Visits p c cs) (stops : p c = .error e c') :
    Visits (recover p) c (cs ++ skipped c')

theorem skipFrom_suffix (last : Token) (ts : List Token) : skipFrom last ts <:+ ts := by
  induction ts generalizing last with
  | nil => exact List.suffix_refl _
  | cons t ts ih =>
    rw [skipFrom]
    split
    · exact List.suffix_refl _
    · exact (ih t).trans (List.suffix_cons t ts)

/-- Recovery skips no token twice and none behind the end. -/
theorem synchronize_suffix (ts : List Token) : synchronize ts <:+ ts := by
  cases ts with
  | nil => exact List.suffix_refl _
  | cons t ts => exact (skipFrom_suffix t ts).trans (List.suffix_cons t ts)

/-- Recovery skips a token if there is one. -/
theorem length_synchronize_lt {ts : List Token} (some : ts ≠ []) :
    (synchronize ts).length < ts.length := by
  cases ts with
  | nil => exact absurd rfl some
  | cons t ts => exact Nat.lt_succ_of_le (skipFrom_suffix t ts).length_le

theorem Primitive.forward (is : Primitive p) (c : Cursor) : Forward c (ending (p c)) := by
  cases is with
  | pure | throw | peek | atEnd => exact .refl c
  | check kind =>
    rw [check_eq]
    exact .refl c
  | advance => exact ⟨rfl, List.tail_suffix c.rest, List.suffix_refl _⟩
  | acceptAny kinds =>
    unfold Parser.acceptAny
    split
    · exact .refl c
    · next t rest next =>
      split
      · refine ⟨rfl, ?_, List.suffix_refl _⟩
        rw [next]
        exact List.suffix_cons t rest
      · exact .refl c
  | report t cause => exact ⟨rfl, List.suffix_refl _, List.suffix_cons _ _⟩
  | fresh => exact ⟨rfl, List.suffix_refl _, List.suffix_refl _⟩

/-- The visited cursors stand between where the run begins and where it ends, each no earlier than
those before it. -/
structure Onwards (c : Cursor) (cs : List Cursor) (c' : Cursor) : Prop where
  whole : Forward c c'
  after : ∀ d ∈ cs, Forward c d
  before : ∀ d ∈ cs, Forward d c'
  ordered : cs.Pairwise Forward

theorem Onwards.append (h : Onwards c cs c') (h' : Onwards c' ds c'') :
    Onwards c (cs ++ ds) c'' where
  whole := h.whole.trans h'.whole
  after d member := by
    rcases List.mem_append.1 member with member | member
    · exact h.after d member
    · exact h.whole.trans (h'.after d member)
  before d member := by
    rcases List.mem_append.1 member with member | member
    · exact (h.before d member).trans h'.whole
    · exact h'.before d member
  ordered := by
    rw [List.pairwise_append]
    exact ⟨h.ordered, h'.ordered, fun d member d' member' =>
      (h.before d member).trans (h'.after d' member')⟩

theorem pairwise_tails (ts : List Token) : ts.tails.Pairwise fun rest rest' => rest' <:+ rest := by
  induction ts with
  | nil => simp
  | cons t ts ih =>
    rw [List.tails_cons, List.pairwise_cons]
    refine ⟨fun rest member => ?_, ih⟩
    exact ((List.mem_tails rest ts).1 member).trans (List.suffix_cons t ts)

theorem onwards_skipped (c : Cursor) (e : SyntaxError) :
    Onwards c (skipped c) { c with rest := synchronize c.rest, errors := e :: c.errors } where
  whole := ⟨rfl, synchronize_suffix c.rest, List.suffix_cons e c.errors⟩
  after d member := by
    obtain ⟨rest, isTail, rfl⟩ := List.mem_map.1 (show d ∈ List.map _ _ from member)
    exact ⟨rfl, (List.mem_tails rest c.rest).1 (List.mem_of_mem_filter isTail),
      List.suffix_refl _⟩
  before d member := by
    obtain ⟨rest, isTail, rfl⟩ := List.mem_map.1 member
    obtain ⟨isTail, long⟩ := List.mem_filter.1 isTail
    have inside := (List.mem_tails rest c.rest).1 isTail
    refine ⟨rfl, ?_, List.suffix_cons e c.errors⟩
    exact List.suffix_of_suffix_length_le (synchronize_suffix c.rest) inside (by simpa using long)
  ordered := by
    rw [skipped, List.pairwise_map]
    refine List.Pairwise.filter _ ((pairwise_tails c.rest).imp fun later => ?_)
    exact ⟨rfl, later, List.suffix_refl _⟩

/-- A run only goes forward. -/
theorem Visits.onwards (h : Visits p c cs) : Onwards c cs (ending (p c)) := by
  induction h with
  | primitive is c =>
    exact ⟨is.forward c, by simp [Forward.refl], by simpa using is.forward c, by simp⟩
  | @bind _ _ p f c c' cs ds a first returns second ih ih' =>
    rw [bind_of_ok returns]
    rw [returns] at ih
    exact ih.append ih'
  | @stopped _ _ p f c c' cs e first stops ih =>
    rw [bind_of_error stops]
    rwa [stops] at ih
  | recover first returns ih =>
    rw [Parser.recover, returns]
    rwa [returns] at ih
  | skip first stops ih =>
    rw [Parser.recover, stops]
    rw [stops] at ih
    exact ih.append (onwards_skipped _ _)

/-- Every run of the parser visits some cursors. -/
def Traced (p : Parser α) : Prop := ∀ c, ∃ cs, Visits p c cs

theorem Primitive.traced (is : Primitive p) : Traced p := fun c => ⟨[c], .primitive is c⟩

namespace Traced

theorem bind (h : Traced p) (next : ∀ a, Traced (f a)) : Traced (p >>= f) := by
  intro c
  obtain ⟨cs, first⟩ := h c
  cases run : p c with
  | error e c' => exact ⟨cs, .stopped first run⟩
  | ok a c' =>
    obtain ⟨ds, second⟩ := next a c'
    exact ⟨cs ++ ds, .bind first run second⟩

theorem recover (h : Traced p) : Traced (Parser.recover p) := by
  intro c
  obtain ⟨cs, first⟩ := h c
  cases run : p c with
  | error e c' => exact ⟨_, .skip first run⟩
  | ok a c' => exact ⟨cs, .recover first run⟩

theorem pure (a : α) : Traced (pure a) := (Primitive.pure a).traced

theorem map (g : α → β) (h : Traced p) : Traced (g <$> p) := by
  rw [map_eq_pure_bind]
  exact h.bind fun a => .pure (g a)

end Traced

theorem traced_throw (e : SyntaxError) : Traced (throw e : Parser α) := (Primitive.throw e).traced

theorem traced_peek : Traced peek := Primitive.peek.traced

theorem traced_atEnd : Traced atEnd := Primitive.atEnd.traced

theorem traced_check (kind : TokenKind) : Traced (check kind) := (Primitive.check kind).traced

theorem traced_advance : Traced advance := Primitive.advance.traced

theorem traced_acceptAny (kinds : List TokenKind) : Traced (acceptAny kinds) :=
  (Primitive.acceptAny kinds).traced

theorem traced_accept (kind : TokenKind) : Traced (accept kind) := traced_acceptAny [kind]

/-- What is read behind one thing of a list: a comma and the list again, or nothing. -/
theorem traced_goesOn {p : Parser α} {a : α} (again : Traced p) :
    Traced
      (do
        match ← accept .comma with
        | none => pure a
        | some _ => p) := by
  refine (traced_accept .comma).bind fun o => ?_
  cases o with
  | none => exact .pure a
  | some comma => exact again

theorem traced_report (t : Token) (cause : SyntaxError.Cause) : Traced (report t cause) :=
  (Primitive.report t cause).traced

theorem traced_fresh : Traced fresh := Primitive.fresh.traced

theorem traced_stop (cause : SyntaxError.Cause) : Traced (stop cause : Parser α) :=
  traced_peek.bind fun t => traced_throw ⟨t, cause⟩

theorem traced_expect (kind : TokenKind) (cause : SyntaxError.Cause) :
    Traced (expect kind cause) := by
  refine (traced_accept kind).bind fun o => ?_
  cases o with
  | none => exact traced_stop cause
  | some t => exact .pure t

/-- The parsers of expressions, if their recursion is at most `n` deep. -/
structure TracedExpr (n : Nat) : Prop where
  expression : Traced (expression n)
  items : ∀ done, Traced (items n done)
  assignment : Traced (assignment n)
  operation : ∀ level, Traced (operation n level)
  operations : ∀ level left, Traced (operations n level left)
  unary : Traced (unary n)
  call : Traced (call n)
  calls : ∀ callee, Traced (calls n callee)
  arguments : Traced (arguments n)
  moreArguments : ∀ done, Traced (moreArguments n done)
  primary : Traced (primary n)

section Step

variable {n : Nat} (ih : TracedExpr n)
include ih

theorem traced_expression : Traced (expression (n + 1)) := by
  rw [expression]
  refine ih.assignment.bind fun first => (traced_check _).bind fun more => ?_
  split
  · exact ih.items [first]
  · exact .pure first

theorem traced_items (done : List Expr) : Traced (items (n + 1) done) := by
  rw [items]
  refine (traced_accept _).bind fun o => ?_
  cases o with
  | none => exact .pure _
  | some comma => exact ih.assignment.bind fun item => ih.items _

theorem traced_assignment : Traced (assignment (n + 1)) := by
  rw [assignment]
  refine (ih.operation _).bind fun target => (traced_accept _).bind fun o => ?_
  cases o with
  | none => exact .pure target
  | some equals =>
    refine ih.assignment.bind fun value => ?_
    split
    · exact .pure _
    · exact (traced_report equals _).bind fun _ => .pure target

theorem traced_operation (level : Option Level) : Traced (operation (n + 1) level) := by
  cases level with
  | none => exact ih.unary
  | some level =>
    rw [operation]
    exact (ih.operation _).bind fun left => ih.operations level left

theorem traced_operations (level : Level) (left : Expr) :
    Traced (operations (n + 1) level left) := by
  rw [operations]
  refine (traced_acceptAny _).bind fun o => ?_
  cases o with
  | none => exact .pure left
  | some operator => exact (ih.operation _).bind fun right => ih.operations level _

theorem traced_unary : Traced (unary (n + 1)) := by
  rw [unary]
  refine (traced_acceptAny _).bind fun o => ?_
  cases o with
  | none => exact ih.call
  | some operator => exact ih.unary.bind fun right => .pure _

theorem traced_call : Traced (call (n + 1)) := by
  rw [call]
  exact ih.primary.bind fun callee => ih.calls callee

theorem traced_calls (callee : Expr) : Traced (calls (n + 1) callee) := by
  rw [calls]
  refine (traced_acceptAny _).bind fun o => ?_
  cases o with
  | none => exact .pure callee
  | some mark =>
    dsimp only
    split
    · exact (traced_expect _ _).bind fun name => ih.calls _
    · exact ih.arguments.bind fun values => (traced_expect _ _).bind fun paren => ih.calls _

theorem traced_arguments : Traced (arguments (n + 1)) := by
  rw [arguments]
  refine (traced_check _).bind fun closed => ?_
  split
  · exact .pure []
  · exact ih.moreArguments []

theorem traced_argumentAndMore (done : List Expr) :
    Traced
      (do
        let value ← assignment n
        match ← accept .comma with
        | none => pure (value :: done).reverse
        | some _ => moreArguments n (value :: done)) := by
  exact ih.assignment.bind fun value => traced_goesOn (ih.moreArguments _)

theorem traced_goesOnArguments (done : List Expr) : Traced (moreArguments (n + 1) done) := by
  rw [moreArguments]
  split
  · exact traced_peek.bind fun t => (traced_report t _).bind fun _ => traced_argumentAndMore ih done
  · exact traced_argumentAndMore ih done

theorem traced_primary : Traced (primary (n + 1)) := by
  rw [primary]
  refine traced_peek.bind fun t => ?_
  split
  · exact traced_advance.bind fun _ => .pure _
  · exact traced_advance.bind fun _ => .pure _
  · exact traced_advance.bind fun _ => .pure _
  · refine traced_advance.bind fun _ => ?_
    split
    · exact .pure _
    · exact .pure _
    · exact traced_throw _
  · refine traced_advance.bind fun _ => ?_
    split
    · exact .pure _
    · exact .pure _
    · exact traced_throw _
  · refine traced_advance.bind fun _ => (traced_expect _ _).bind fun dot => ?_
    exact (traced_expect _ _).bind fun method => traced_fresh.bind fun id => .pure _
  · exact traced_advance.bind fun _ => traced_fresh.bind fun id => .pure _
  · exact traced_advance.bind fun _ => traced_fresh.bind fun id => .pure _
  · refine traced_advance.bind fun _ => ih.expression.bind fun inner => ?_
    exact (traced_expect _ _).bind fun closing => .pure _
  · exact traced_stop _

end Step

theorem tracedExpr (n : Nat) : TracedExpr n := by
  induction n with
  | zero => constructor <;> intros <;> exact traced_stop _
  | succ n ih =>
    exact ⟨traced_expression ih, traced_items ih, traced_assignment ih, traced_operation ih,
      traced_operations ih, traced_unary ih, traced_call ih, traced_calls ih, traced_arguments ih,
      traced_goesOnArguments ih, traced_primary ih⟩

theorem traced_varItems (n : Nat) (done : List VarDecl) : Traced (varItems n done) := by
  induction n generalizing done with
  | zero => exact traced_stop _
  | succ n ih =>
    rw [varItems]
    refine (traced_expect _ _).bind fun name => (traced_accept _).bind fun o => ?_
    cases o with
    | none => exact (Traced.pure none).bind fun initializer => traced_goesOn (ih _)
    | some equals =>
      exact ((tracedExpr n).assignment.map some).bind fun initializer => traced_goesOn (ih _)

theorem traced_varDeclaration (n : Nat) : Traced (varDeclaration n) := by
  refine (traced_varItems n []).bind fun decls => (traced_expect _ _).bind fun semicolon => ?_
  split <;> exact .pure _

theorem traced_expressionStatement (n : Nat) : Traced (expressionStatement n) :=
  (tracedExpr n).expression.bind fun _ => (traced_expect _ _).bind fun _ => .pure _

theorem traced_printStatement (n : Nat) : Traced (printStatement n) :=
  (tracedExpr n).expression.bind fun _ => (traced_expect _ _).bind fun _ => .pure _

/-- An expression in parentheses, as it stands behind `if` and `while`. -/
theorem traced_condition (n : Nat) {opening closing : SyntaxError.Cause} {f : Expr → Parser α}
    (next : ∀ condition, Traced (f condition)) :
    Traced
      (do
        let _ ← expect .leftParen opening
        let condition ← expression n
        let _ ← expect .rightParen closing
        f condition) := by
  refine (traced_expect _ _).bind fun _ => (tracedExpr n).expression.bind fun condition => ?_
  exact (traced_expect _ _).bind fun _ => next condition

/-- An expression that may be missing, where a token of this kind follows. -/
theorem traced_optional (n : Nat) (kind : TokenKind) {f : Option Expr → Parser α}
    (next : ∀ value, Traced (f value)) :
    Traced
      (do
        let value ← if ← check kind then pure none else some <$> expression n
        f value) := by
  refine (traced_check _).bind fun closed => ?_
  split
  · exact (Traced.pure none).bind next
  · exact ((tracedExpr n).expression.map some).bind next

theorem traced_returnStatement (n : Nat) (keyword : Token) :
    Traced (returnStatement n keyword) :=
  traced_optional n _ fun _ => (traced_expect _ _).bind fun _ => .pure _

theorem traced_parameters (n : Nat) (done : List Token) : Traced (parameters n done) := by
  induction n generalizing done with
  | zero => exact traced_stop _
  | succ n ih =>
    have more : Traced
        (do
          let name ← expect .identifier .parameterName
          match ← accept .comma with
          | none => pure (name :: done).reverse
          | some _ => parameters n (name :: done)) :=
      (traced_expect _ _).bind fun name => traced_goesOn (ih _)
    rw [parameters]
    split
    · exact traced_peek.bind fun t => (traced_report t _).bind fun _ => more
    · exact more

theorem traced_forInitializer (n : Nat) : Traced (forInitializer n) := by
  refine (traced_acceptAny _).bind fun o => ?_
  cases o with
  | none => exact (traced_expressionStatement n).map _
  | some mark =>
    dsimp only
    split
    · exact (traced_varDeclaration n).map _
    · exact .pure none

theorem traced_forClauses (n : Nat) : Traced (forClauses n) := by
  refine (traced_expect _ _).bind fun opening => (traced_forInitializer n).bind fun first => ?_
  refine traced_optional n _ fun condition => (traced_expect _ _).bind fun semicolon => ?_
  exact traced_optional n _ fun increment => (traced_expect _ _).bind fun closing => .pure _

/-- The parsers of declarations and statements, if their recursion is at most `n` deep. -/
structure TracedStmt (n : Nat) : Prop where
  declaration : Traced (declaration n)
  classDeclaration : Traced (classDeclaration n)
  methods : ∀ done, Traced (methods n done)
  routine : ∀ kind, Traced (routine n kind)
  block : Traced (block n)
  declarations : ∀ done, Traced (declarations n done)
  statement : Traced (statement n)

section Step

variable {n : Nat} (ih : TracedStmt n)
include ih

theorem traced_declaration : Traced (declaration (n + 1)) := by
  rw [declaration]
  refine Traced.recover (traced_peek.bind fun t => ?_)
  split
  · exact traced_advance.bind fun _ => ih.classDeclaration
  · exact traced_advance.bind fun _ => (ih.routine _).map _
  · exact traced_advance.bind fun _ => traced_varDeclaration n
  · exact ih.statement

theorem traced_classDeclaration : Traced (classDeclaration (n + 1)) := by
  have body : ∀ name superclass, Traced
      (do
        let _ ← expect .leftBrace .classBodyOpen
        let decls ← methods n []
        let _ ← expect .rightBrace .classBodyClose
        pure (Stmt.classDecl name superclass decls)) := fun _ _ =>
    (traced_expect _ _).bind fun _ => (ih.methods []).bind fun _ =>
      (traced_expect _ _).bind fun _ => .pure _
  rw [classDeclaration]
  refine (traced_expect _ _).bind fun name => (traced_accept _).bind fun o => ?_
  cases o with
  | none => exact (Traced.pure none).bind fun above => body name above
  | some less =>
    refine (traced_expect _ _).bind fun superName => traced_fresh.bind fun id => ?_
    exact (Traced.pure _).bind fun above => body name above

theorem traced_methods (done : List FunctionDecl) : Traced (methods (n + 1) done) := by
  rw [methods]
  refine traced_atEnd.bind fun ended => (traced_check _).bind fun closed => ?_
  split
  · exact .pure _
  · exact (ih.routine _).bind fun decl => ih.methods _

theorem traced_routine (kind : RoutineKind) : Traced (routine (n + 1) kind) := by
  have behind : ∀ name params, Traced
      (do
        let _ ← expect .rightParen .parametersClose
        let _ ← expect .leftBrace (.routineBodyOpen kind)
        let body ← block n
        pure (⟨name, params, body⟩ : FunctionDecl)) := fun _ _ =>
    (traced_expect _ _).bind fun _ => (traced_expect _ _).bind fun _ =>
      ih.block.bind fun _ => .pure _
  rw [routine]
  refine (traced_expect _ _).bind fun name => (traced_expect _ _).bind fun opening => ?_
  refine (traced_check _).bind fun none => ?_
  split
  · exact (Traced.pure []).bind fun params => behind name params
  · exact (traced_parameters n []).bind fun params => behind name params

theorem traced_block : Traced (block (n + 1)) := by
  rw [block]
  exact (ih.declarations []).bind fun body => (traced_expect _ _).bind fun closing => .pure body

theorem traced_declarations (done : List Stmt) : Traced (declarations (n + 1) done) := by
  rw [declarations]
  refine traced_atEnd.bind fun ended => (traced_check _).bind fun closed => ?_
  split
  · exact .pure _
  · refine ih.declaration.bind fun o => ?_
    cases o with
    | none => exact ih.declarations done
    | some s => exact ih.declarations _

theorem traced_statement : Traced (statement (n + 1)) := by
  rw [statement]
  refine traced_peek.bind fun t => ?_
  split
  · refine traced_advance.bind fun _ => (traced_forClauses n).bind fun clauses => ?_
    exact ih.statement.bind fun body => .pure _
  · refine traced_advance.bind fun _ => traced_condition n fun condition => ?_
    refine ih.statement.bind fun thenBranch => (traced_accept _).bind fun o => ?_
    cases o with
    | none => exact .pure _
    | some keywordElse => exact ih.statement.bind fun elseBranch => .pure _
  · exact traced_advance.bind fun _ => traced_printStatement n
  · exact traced_advance.bind fun _ => traced_returnStatement n t
  · refine traced_advance.bind fun _ => traced_condition n fun condition => ?_
    exact ih.statement.bind fun body => .pure _
  · exact traced_advance.bind fun _ => ih.block.map _
  · exact traced_expressionStatement n

end Step

theorem tracedStmt (n : Nat) : TracedStmt n := by
  induction n with
  | zero =>
    refine ⟨(traced_stop _).recover, ?_, ?_, ?_, ?_, ?_, ?_⟩ <;> intros <;> exact traced_stop _
  | succ n ih =>
    exact ⟨traced_declaration ih, traced_classDeclaration ih, traced_methods ih,
      traced_routine ih, traced_block ih, traced_declarations ih, traced_statement ih⟩

theorem traced_program (n : Nat) (done : List Stmt) : Traced (program n done) := by
  induction n generalizing done with
  | zero => exact traced_stop _
  | succ n ih =>
    rw [program]
    refine traced_atEnd.bind fun ended => ?_
    split
    · exact .pure _
    · refine (tracedStmt n).declaration.bind fun o => ?_
      cases o with
      | none => exact ih done
      | some s => exact ih _

end Treewalk.Parser
