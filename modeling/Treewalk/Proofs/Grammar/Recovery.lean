import Treewalk.Proofs.Batches.Renumbered
import Treewalk.Proofs.Grammar.Bounded
import Treewalk.Proofs.Grammar.Seams

/-!
# Recovery at a semicolon

A broken statement is skipped up to its semicolon, so it leaves what stands behind the semicolon as it
is: two lists of tokens one after the other have the errors of the first and then those of the second.
That holds unless the first list misses a token at its end, or the second begins with an `else` that
the first has an `if` for.
-/

namespace Treewalk.Parser

variable {α β : Type} {more : List Token} {earlier : List SyntaxError} {leaves : Prop}
  {same : α → α → Prop} {p q : Parser α} {f : α → Parser β} {c c' d d' : Cursor}

/-- A parser that needs a token: at the end it stops. -/
def Needs (p : Parser α) : Prop :=
  ∀ c, c.rest = [] → c.final.kind = .eof → ∃ cause, p c = .error ⟨c.final, cause⟩ c

namespace Needs

theorem stop (cause : SyntaxError.Cause) : Needs (stop cause : Parser α) := by
  intro c ended _
  refine ⟨cause, ?_⟩
  have next : c.rest.headD c.final = c.final := by rw [ended, List.headD_nil]
  calc
    Parser.stop cause c
    _ = .error ⟨c.rest.headD c.final, cause⟩ c := rfl
    _ = .error ⟨c.final, cause⟩ c := by rw [next]

theorem bind (h : Needs p) : Needs (p >>= f) := by
  intro c ended eof
  obtain ⟨cause, stops⟩ := h c ended eof
  exact ⟨cause, bind_of_error stops⟩

theorem acceptAny {kinds : List TokenKind} {f : Option Token → Parser α} (h : Needs (f none)) :
    Needs (Parser.acceptAny kinds >>= f) := by
  intro c ended eof
  rw [bind_of_ok (acceptAny_of_not_mem (by simp [ended]))]
  exact h c ended eof

theorem expect (kind : TokenKind) (cause : SyntaxError.Cause) : Needs (expect kind cause) :=
  acceptAny (stop cause)

theorem behind (h : Needs p) (behind : Behind more earlier c d)
    {r : EStateM.Result SyntaxError Cursor α} : Abreast more earlier leaves same (p c) r := by
  obtain ⟨cause, stops⟩ := h c behind.ended behind.eof
  rw [stops]
  exact .lost behind.some behind.eof behind.ended behind.eof

end Needs

/-- An expression takes a token. -/
structure ExprNeeds (n : Nat) : Prop where
  expression : Needs (expression n)
  assignment : Needs (assignment n)
  operation : ∀ level, Needs (operation n level)
  unary : Needs (unary n)
  call : Needs (call n)
  primary : Needs (primary n)

theorem exprNeeds (n : Nat) : ExprNeeds n := by
  induction n with
  | zero => constructor <;> intros <;> exact Needs.stop _
  | succ n ih =>
    constructor
    case expression => exact ih.assignment.bind
    case assignment => exact (ih.operation _).bind
    case operation =>
      intro level
      cases level with
      | none => exact ih.unary
      | some level => exact (ih.operation _).bind
    case unary => exact .acceptAny ih.call
    case call => exact ih.primary.bind
    case primary =>
      intro c ended eof
      have next : peek c = .ok c.final c := by
        show EStateM.Result.ok (c.rest.headD c.final) c = _
        rw [ended, List.headD_nil]
      rw [primary, bind_of_ok next, eof]
      exact Needs.stop .expression c ended eof

/-- The first run returns at the end of its tokens. -/
def EndsEarly (more : List Token) (l : EStateM.Result SyntaxError Cursor α) : Prop :=
  more ≠ [] ∧ ∃ a c, l = .ok a c ∧ c.rest = [] ∧ c.final.kind = .eof

/-- How two runs of `declaration` end: side by side, or the first with an error at the end. -/
inductive Declared (more : List Token) (earlier : List SyntaxError) :
    EStateM.Result SyntaxError Cursor (Option Stmt) →
    EStateM.Result SyntaxError Cursor (Option Stmt) → Prop
  | abreast {l r : EStateM.Result SyntaxError Cursor (Option Stmt)}
    (h : Abreast more earlier True Any l r) : Declared more earlier l r
  | lost {e : SyntaxError} {c : Cursor} {r : EStateM.Result SyntaxError Cursor (Option Stmt)}
    (some : more ≠ []) (recorded : e ∈ c.errors) (atEnd : e.token.kind = .eof)
    (ended : c.rest = []) (eof : c.final.kind = .eof) : Declared more earlier (.ok none c) r

theorem skipFrom_append {last t : Token} {ts : List Token} (us : List Token)
    (isLast : (last :: ts).getLast? = some t) (isSemicolon : t.kind = .semicolon) :
    skipFrom last (ts ++ us) = skipFrom last ts ++ us := by
  induction ts generalizing last with
  | nil =>
    simp only [List.getLast?_singleton, Option.some.injEq] at isLast
    subst isLast
    cases us with
    | nil => rfl
    | cons u us => simp [skipFrom, isSemicolon]
  | cons s ts ih =>
    rw [List.cons_append, skipFrom, skipFrom]
    split
    · rfl
    · exact ih (by rwa [List.getLast?_cons_cons] at isLast)

/-- Recovery stops behind a semicolon, whatever stands there. -/
theorem synchronize_append {t : Token} {ts : List Token} (us : List Token)
    (isLast : ts.getLast? = some t) (isSemicolon : t.kind = .semicolon) :
    synchronize (ts ++ us) = synchronize ts ++ us := by
  cases ts with
  | nil => cases isLast
  | cons s ts => exact skipFrom_append us isLast isSemicolon

theorem getLast?_of_suffix {ts us : List Token} (h : us <:+ ts) (some : us ≠ []) :
    us.getLast? = ts.getLast? := by
  obtain ⟨front, rfl⟩ := h
  rw [List.getLast?_append_of_ne_nil _ some]

namespace Seam

/-- Both recover from the same error. -/
theorem recover {e : SyntaxError} (seam : Seam more earlier c d) :
    Declared more earlier
      (.ok none { c with rest := synchronize c.rest, errors := e :: c.errors })
      (.ok none { d with rest := synchronize d.rest, errors := e :: d.errors }) := by
  have errors : e :: d.errors = (e :: c.errors) ++ earlier := by
    rw [seam.errors, List.cons_append]
  have rest : synchronize d.rest = synchronize c.rest ++ more := by
    by_cases none : more = []
    · rw [seam.rest, none, List.append_nil, List.append_nil]
    · obtain ⟨t, isLast, isSemicolon⟩ := seam.semicolon none
      rw [seam.rest, synchronize_append more isLast isSemicolon]
  by_cases last : more ≠ [] ∧ synchronize c.rest = []
  · refine .abreast (.behind trivial trivial ⟨last.1, last.2, ?_, errors, seam.eof⟩)
    rw [rest, last.2, List.nil_append]
  · refine .abreast (.ok trivial ⟨rest, errors, seam.final, fun some => ?_, seam.eof⟩)
    obtain ⟨t, isLast, isSemicolon⟩ := seam.semicolon some
    refine ⟨t, ?_, isSemicolon⟩
    rw [← isLast]
    exact getLast?_of_suffix (synchronize_suffix c.rest) fun none => last ⟨some, none⟩

variable (seam : Seam more earlier c d)
include seam

theorem rest_eq_nil : d.rest = [] ↔ c.rest = [] := by
  rw [← List.head?_eq_none_iff, seam.head?, List.head?_eq_none_iff]

theorem isEmpty : d.rest.isEmpty = c.rest.isEmpty := by
  rw [Bool.eq_iff_iff, List.isEmpty_iff, List.isEmpty_iff, seam.rest_eq_nil]

theorem atEnd {f g : Bool → Parser α}
    (next : ∀ b, SideBySide more earlier leaves same (f b) (g b) c d) :
    Abreast more earlier leaves same ((Parser.atEnd >>= f) c) ((Parser.atEnd >>= g) d) := by
  rw [bind_of_ok (atEnd_eq c), bind_of_ok (atEnd_eq d), seam.isEmpty]
  exact next _

/-- An expression that may be missing, where a token of this kind follows. -/
theorem optional (n : Nat) (kind : TokenKind) {f g : Option Expr → Parser α}
    (next : ∀ v v' c' d', Seam more earlier c' d' →
      Abreast more earlier leaves same (f v c') (g v' d')) :
    Abreast more earlier leaves same
      ((do
        let value ← if ← Parser.check kind then pure none else some <$> expression n
        f value) c)
      ((do
        let value ← if ← Parser.check kind then pure none else some <$> expression n
        g value) d) := by
  refine seam.check kind fun b => ?_
  cases b with
  | true => exact next none none _ _ seam
  | false =>
    refine (((exprSideBySide n).expression seam).map some).bind fun v v' _ _ _ seam' => ?_
    exact next v v' _ _ seam'

end Seam

theorem needs_varDeclaration (n : Nat) : Needs (varDeclaration n) := by
  cases n with
  | zero => exact (Needs.stop _).bind
  | succ n => exact (Needs.expect _ _).bind.bind

/-- At the end an expression that may be missing is not, since no token follows. -/
theorem needs_optional (n : Nat) (kind : TokenKind) {f : Option Expr → Parser α} :
    Needs
      (do
        let value ← if ← check kind then pure none else some <$> expression n
        f value) := by
  intro c ended eof
  have nothing : check kind c = .ok false c := by
    rw [check_eq, ended]
    rfl
  rw [bind_of_ok nothing]
  have needs : Needs (some <$> expression n) := by
    rw [map_eq_pure_bind]
    exact (exprNeeds n).expression.bind
  exact needs.bind c ended eof

section Statements

variable (seam : Seam more earlier c d)
include seam

theorem beside_varItems (n : Nat) (done done' : List VarDecl) :
    Abreast more earlier False Any (varItems n done c) (varItems n done' d) := by
  induction n generalizing c d done done' with
  | zero => exact seam.stop _
  | succ n ih =>
    rw [varItems, varItems]
    refine (seam.expect .identifier _ (by decide)).bind fun _ _ _ _ value seam₁ => ?_
    subst value
    refine (seam₁.accept .equal (by decide)).bind fun o o' _ _ value seam₂ => ?_
    subst value
    cases o with
    | none => exact seam₂.goesOn fun seam' => ih seam' _ _
    | some equals =>
      refine (((exprSideBySide n).assignment seam₂).map some).bind fun v v' _ _ _ seam₃ => ?_
      exact seam₃.goesOn fun seam' => ih seam' _ _

/-- A semicolon, behind which nothing is left to read. -/
theorem beside_end {cause : SyntaxError.Cause} {a b : α} :
    Abreast more earlier True Any ((expect .semicolon cause >>= fun _ => pure a) c)
      ((expect .semicolon cause >>= fun _ => pure b) d) := by
  exact (seam.expectSemicolon cause).returns _ _

theorem beside_varDeclaration (n : Nat) :
    Abreast more earlier True Any (varDeclaration n c) (varDeclaration n d) := by
  refine (beside_varItems seam n [] []).bind fun decls decls' _ _ _ seam' => ?_
  split <;> split <;> exact beside_end seam'

theorem beside_expressionStatement (n : Nat) :
    Abreast more earlier True Any (expressionStatement n c) (expressionStatement n d) :=
  ((exprSideBySide n).expression seam).bind fun _ _ _ _ _ seam' => beside_end seam'

theorem beside_printStatement (n : Nat) :
    Abreast more earlier True Any (printStatement n c) (printStatement n d) :=
  ((exprSideBySide n).expression seam).bind fun _ _ _ _ _ seam' => beside_end seam'

/-- An expression in parentheses, as it stands behind `if` and `while`. -/
theorem beside_condition (n : Nat) {opening closing : SyntaxError.Cause} {f g : Expr → Parser α}
    (next : ∀ v v' c' d', Seam more earlier c' d' →
      Abreast more earlier leaves same (f v c') (g v' d')) :
    Abreast more earlier leaves same
      ((do
        let _ ← expect .leftParen opening
        let condition ← expression n
        let _ ← expect .rightParen closing
        f condition) c)
      ((do
        let _ ← expect .leftParen opening
        let condition ← expression n
        let _ ← expect .rightParen closing
        g condition) d) := by
  refine (seam.expect .leftParen _ (by decide)).bind fun _ _ _ _ _ seam₁ => ?_
  refine ((exprSideBySide n).expression seam₁).bind fun _ _ _ _ _ seam₂ => ?_
  exact (seam₂.expect .rightParen _ (by decide)).bind fun _ _ _ _ _ seam₃ => next _ _ _ _ seam₃

theorem beside_returnStatement (n : Nat) (keyword : Token) :
    Abreast more earlier True Any (returnStatement n keyword c) (returnStatement n keyword d) :=
  seam.optional n _ fun _ _ _ _ seam' => beside_end seam'

theorem beside_parameterAndMore {n : Nat} {done : List Token}
    (again : ∀ name {c d}, Seam more earlier c d → Abreast more earlier False Any
      (parameters n (name :: done) c) (parameters n (name :: done) d)) :
    Abreast more earlier False Any
      ((do
        let name ← expect .identifier .parameterName
        match ← accept .comma with
        | none => pure (name :: done).reverse
        | some _ => parameters n (name :: done)) c)
      ((do
        let name ← expect .identifier .parameterName
        match ← accept .comma with
        | none => pure (name :: done).reverse
        | some _ => parameters n (name :: done)) d) := by
  refine (seam.expect .identifier _ (by decide)).bind fun _ _ _ _ value seam₁ => ?_
  subst value
  exact seam₁.goesOn fun seam₂ => again _ seam₂

theorem beside_parameters (n : Nat) (done : List Token) :
    Abreast more earlier False Any (parameters n done c) (parameters n done d) := by
  induction n generalizing c d done with
  | zero => exact seam.stop _
  | succ n ih =>
    rw [parameters]
    split
    · refine seam.peek fun t _ => (seam.report t _).bind fun _ _ _ _ _ seam' => ?_
      exact beside_parameterAndMore seam' fun name _ _ seam => ih seam (name :: done)
    · exact beside_parameterAndMore seam fun name _ _ seam => ih seam (name :: done)

theorem beside_forInitializer (n : Nat) :
    Abreast more earlier True Any (forInitializer n c) (forInitializer n d) := by
  refine (seam.acceptAny _).bindLeaving (fun o o' _ _ value seam' => ?_)
    fun _ o o' _ _ value behind => ?_
  · subst value
    cases o with
    | none => exact (beside_expressionStatement seam' n).map _
    | some mark =>
      by_cases isVar : mark.kind = .kwVar
      · simp only [isVar, if_true]
        exact (beside_varDeclaration seam' n).map _
      · simp only [isVar, if_false]
        exact .ok trivial seam'
  · subst value
    cases o with
    | none =>
      have needs : Needs (some <$> expressionStatement n) := by
        rw [map_eq_pure_bind]
        exact (exprNeeds n).expression.bind.bind
      exact needs.behind behind
    | some mark =>
      by_cases isVar : mark.kind = .kwVar
      · have needs : Needs (some <$> varDeclaration n) := by
          rw [map_eq_pure_bind]
          exact (needs_varDeclaration n).bind
        simp only [isVar, if_true]
        exact needs.behind behind
      · simp only [isVar, if_false]
        exact .behind trivial trivial behind

theorem beside_forClauses (n : Nat) :
    Abreast more earlier False Any (forClauses n c) (forClauses n d) := by
  refine (seam.expect .leftParen _ (by decide)).bind fun _ _ _ _ _ seam₁ => ?_
  refine (beside_forInitializer seam₁ n).bindLeaving (fun _ _ _ _ _ seam₂ => ?_)
    fun _ _ _ _ _ _ behind => (needs_optional n _).behind behind
  refine seam₂.optional n _ fun _ _ _ _ seam₃ => ?_
  refine (seam₃.expectSemicolon _).bindLeaving (fun _ _ _ _ _ seam₄ => ?_)
    fun _ _ _ _ _ _ behind => (needs_optional n _).behind behind
  refine seam₄.optional n _ fun _ _ _ _ seam₅ => ?_
  exact (seam₅.expect .rightParen _ (by decide)).bind fun _ _ _ _ _ seam₆ => .ok trivial seam₆

end Statements

variable (more earlier) in
/-- The parsers of declarations and statements, if their recursion is at most `n` deep. Behind the
last semicolon a statement returns, and a block stops since its brace is missing. -/
structure StmtSideBySide (n : Nat) : Prop where
  declaration : ∀ {c d}, Seam more earlier c d →
    Declared more earlier (declaration n c) (declaration n d)
  classDeclaration : ∀ {c d}, Seam more earlier c d →
    Abreast more earlier False Any (classDeclaration n c) (classDeclaration n d)
  methods : ∀ {c d} done done', Seam more earlier c d →
    Abreast more earlier False Any (methods n done c) (methods n done' d)
  routine : ∀ {c d} kind, Seam more earlier c d →
    Abreast more earlier False Any (routine n kind c) (routine n kind d)
  block : ∀ {c d}, Seam more earlier c d →
    Abreast more earlier False Any (block n c) (block n d)
  declarations : ∀ {c d} done done', Seam more earlier c d →
    Abreast more earlier False Any (declarations n done c) (declarations n done' d) ∨
      EndsEarly more (declarations n done c)
  statement : ∀ {c d}, Seam more earlier c d →
    Abreast more earlier True Any (statement n c) (statement n d)

/-- A broken declaration is recorded, and both runs skip the rest of it. -/
theorem Abreast.declared {p q : Parser Stmt} (h : Abreast more earlier True Any (p c) (q d)) :
    Declared more earlier (recover p c) (recover q d) := by
  unfold recover
  cases left : p c with
  | ok a c' =>
    rw [left] at h
    cases right : q d with
    | ok b d' =>
      rw [right] at h
      cases h with
      | ok _ seam => exact .abreast (.ok trivial seam)
      | behind _ _ behind => exact .abreast (.behind trivial trivial behind)
    | error e d' =>
      rw [right] at h
      cases h
  | error e c' =>
    rw [left] at h
    generalize right : q d = r at h
    cases h with
    | error seam => exact seam.recover
    | lost some atEnd ended eof =>
      refine .lost some List.mem_cons_self atEnd ?_ eof
      rw [ended]
      rfl

/-- At the end no declaration follows. -/
theorem declarations_ended (n : Nat) (done : List Stmt) (some : more ≠ []) (ended : c.rest = [])
    (eof : c.final.kind = .eof)
    {r : EStateM.Result SyntaxError Cursor (List Stmt)} :
    Abreast more earlier False Any (declarations n done c) r ∨
      EndsEarly more (declarations n done c) := by
  cases n with
  | zero =>
    obtain ⟨cause, stops⟩ := Needs.stop .unfinished c ended eof (α := List Stmt)
    left
    rw [declarations, stops]
    exact .lost some eof ended eof
  | succ n =>
    right
    refine ⟨some, done.reverse, c, ?_, ended, eof⟩
    rw [declarations, bind_of_ok (atEnd_eq c), bind_of_ok (check_eq _ c), ended]
    rfl

section Step

variable {n : Nat} (ih : StmtSideBySide more earlier n) (seam : Seam more earlier c d)
include ih seam

theorem beside_declaration :
    Declared more earlier (declaration (n + 1) c) (declaration (n + 1) d) := by
  rw [declaration]
  refine Abreast.declared (seam.peek fun t known => ?_)
  split
  · next kind =>
    refine seam.advance (known (by simp [kind])) (by simp [kind]) fun _ _ seam' => ?_
    exact (ih.classDeclaration seam').of False.elim fun _ _ value => value
  · next kind =>
    refine seam.advance (known (by simp [kind])) (by simp [kind]) fun _ _ seam' => ?_
    exact ((ih.routine .function seam').map _).of False.elim fun _ _ value => value
  · next kind =>
    refine seam.advance (known (by simp [kind])) (by simp [kind]) fun _ _ seam' => ?_
    exact beside_varDeclaration seam' n
  · exact ih.statement seam

theorem beside_classDeclaration :
    Abreast more earlier False Any (classDeclaration (n + 1) c) (classDeclaration (n + 1) d) := by
  have body : ∀ {c d} name above above', Seam more earlier c d → Abreast more earlier False Any
      ((do
        let _ ← expect .leftBrace .classBodyOpen
        let decls ← methods n []
        let _ ← expect .rightBrace .classBodyClose
        pure (Stmt.classDecl name above decls)) c)
      ((do
        let _ ← expect .leftBrace .classBodyOpen
        let decls ← methods n []
        let _ ← expect .rightBrace .classBodyClose
        pure (Stmt.classDecl name above' decls)) d) := by
    intro c d name above above' seam
    refine (seam.expect .leftBrace _ (by decide)).bind fun _ _ _ _ _ seam₁ => ?_
    refine (ih.methods [] [] seam₁).bind fun _ _ _ _ _ seam₂ => ?_
    exact (seam₂.expect .rightBrace _ (by decide)).bind fun _ _ _ _ _ seam₃ => .ok trivial seam₃
  rw [classDeclaration]
  refine (seam.expect .identifier _ (by decide)).bind fun _ _ _ _ value seam₁ => ?_
  subst value
  refine (seam₁.accept .less (by decide)).bind fun o o' _ _ value seam₂ => ?_
  subst value
  cases o with
  | none => exact body _ _ _ seam₂
  | some less =>
    refine (seam₂.expect .identifier _ (by decide)).bind fun _ _ _ _ _ seam₃ => ?_
    exact seam₃.fresh.bind fun _ _ _ _ _ seam₄ => body _ _ _ seam₄

theorem beside_methods (done done' : List FunctionDecl) :
    Abreast more earlier False Any (methods (n + 1) done c) (methods (n + 1) done' d) := by
  rw [methods, methods]
  refine seam.atEnd fun ended => seam.check _ fun closed => ?_
  cases (ended || closed) with
  | true => exact .ok trivial seam
  | false => exact (ih.routine .method seam).bind fun _ _ _ _ _ seam' => ih.methods _ _ seam'

theorem beside_routine (kind : RoutineKind) :
    Abreast more earlier False Any (routine (n + 1) kind c) (routine (n + 1) kind d) := by
  have behind : ∀ {c d} name params params', Seam more earlier c d →
      Abreast more earlier False Any
        ((do
          let _ ← expect .rightParen .parametersClose
          let _ ← expect .leftBrace (.routineBodyOpen kind)
          let body ← block n
          pure (⟨name, params, body⟩ : FunctionDecl)) c)
        ((do
          let _ ← expect .rightParen .parametersClose
          let _ ← expect .leftBrace (.routineBodyOpen kind)
          let body ← block n
          pure (⟨name, params', body⟩ : FunctionDecl)) d) := by
    intro c d name params params' seam
    refine (seam.expect .rightParen _ (by decide)).bind fun _ _ _ _ _ seam₁ => ?_
    refine (seam₁.expect .leftBrace _ (by decide)).bind fun _ _ _ _ _ seam₂ => ?_
    exact (ih.block seam₂).bind fun _ _ _ _ _ seam₃ => .ok trivial seam₃
  rw [routine]
  refine (seam.expect .identifier _ (by decide)).bind fun _ _ _ _ value seam₁ => ?_
  subst value
  refine (seam₁.expect .leftParen _ (by decide)).bind fun _ _ _ _ _ seam₂ => ?_
  refine seam₂.check _ fun none => ?_
  cases none with
  | true => exact behind _ _ _ seam₂
  | false => exact (beside_parameters seam₂ n []).bind fun _ _ _ _ _ seam₃ => behind _ _ _ seam₃

theorem beside_block :
    Abreast more earlier False Any (block (n + 1) c) (block (n + 1) d) := by
  rw [block]
  rcases ih.declarations [] [] seam with abreast | ⟨some, body, c', left, ended, eof⟩
  · refine abreast.bind fun _ _ _ _ _ seam₁ => ?_
    exact (seam₁.expect .rightBrace _ (by decide)).bind fun _ _ _ _ _ seam₂ => .ok trivial seam₂
  · obtain ⟨cause, stops⟩ := Needs.expect .rightBrace .blockClose c' ended eof
    rw [bind_of_ok left, bind_of_error stops]
    exact .lost some eof ended eof

theorem beside_declarations (done done' : List Stmt) :
    Abreast more earlier False Any (declarations (n + 1) done c) (declarations (n + 1) done' d) ∨
      EndsEarly more (declarations (n + 1) done c) := by
  rw [declarations, declarations, bind_of_ok (atEnd_eq c), bind_of_ok (atEnd_eq d),
    bind_of_ok (check_eq _ c), bind_of_ok (check_eq _ d), seam.isEmpty, seam.head?]
  split
  · exact .inl (.ok trivial seam)
  · obtain ⟨o, c', left⟩ := declaration_ok n c
    obtain ⟨o', d', right⟩ := declaration_ok n d
    have declared := ih.declaration seam
    rw [left, right] at declared
    rw [bind_of_ok left, bind_of_ok right]
    cases declared with
    | abreast h =>
      cases h with
      | ok _ seam' =>
        cases o <;> cases o' <;> exact ih.declarations _ _ seam'
      | behind _ _ behind =>
        cases o <;> exact declarations_ended n _ behind.some behind.ended behind.eof
    | lost some _ _ ended eof => exact declarations_ended n _ some ended eof

variable (other : ∀ t ∈ more.head?, t.kind ≠ .kwElse)
include other

theorem beside_statement :
    Abreast more earlier True Any (statement (n + 1) c) (statement (n + 1) d) := by
  rw [statement]
  refine seam.peek fun t known => ?_
  split
  · next kind =>
    refine seam.advance (known (by simp [kind])) (by simp [kind]) fun _ _ seam₁ => ?_
    refine (beside_forClauses seam₁ n).bind fun clauses clauses' _ _ _ seam₂ => ?_
    exact (ih.statement seam₂).returns _ _
  · next kind =>
    refine seam.advance (known (by simp [kind])) (by simp [kind]) fun _ _ seam₁ => ?_
    refine beside_condition seam₁ n fun _ _ _ _ seam₂ => ?_
    refine (ih.statement seam₂).bindLeaving (fun _ _ _ _ _ seam₅ => ?_)
      fun _ _ _ c₅ d₅ _ behind => ?_
    · refine (seam₅.accept .kwElse (by decide)).bind fun o o' _ _ value seam₆ => ?_
      subst value
      cases o with
      | none => exact .ok trivial seam₆
      | some keywordElse =>
        exact (ih.statement seam₆).returns _ _
    · have left : accept .kwElse c₅ = .ok none c₅ := accept_of_ne (by simp [behind.ended])
      have right : accept .kwElse d₅ = .ok none d₅ := by
        apply accept_of_ne
        rwa [behind.rest]
      rw [bind_of_ok left, bind_of_ok right]
      exact .behind trivial trivial behind
  · next kind =>
    refine seam.advance (known (by simp [kind])) (by simp [kind]) fun _ _ seam' => ?_
    exact beside_printStatement seam' n
  · next kind =>
    refine seam.advance (known (by simp [kind])) (by simp [kind]) fun _ _ seam' => ?_
    exact beside_returnStatement seam' n t
  · next kind =>
    refine seam.advance (known (by simp [kind])) (by simp [kind]) fun _ _ seam₁ => ?_
    exact beside_condition seam₁ n fun _ _ _ _ seam₂ => (ih.statement seam₂).returns _ _
  · next kind =>
    refine seam.advance (known (by simp [kind])) (by simp [kind]) fun _ _ seam' => ?_
    exact ((ih.block seam').map _).of False.elim fun _ _ value => value
  · exact beside_expressionStatement seam n

end Step

theorem stmtSideBySide (other : ∀ t ∈ more.head?, t.kind ≠ .kwElse) (n : Nat) :
    StmtSideBySide more earlier n := by
  induction n with
  | zero =>
    constructor
    case declaration => exact fun seam => Abreast.declared (seam.stop _)
    case declarations => exact fun _ _ seam => .inl (seam.stop _)
    all_goals
      intros
      exact Seam.stop ‹_› _
  | succ n ih =>
    constructor
    case declaration => exact fun seam => beside_declaration ih seam
    case classDeclaration => exact fun seam => beside_classDeclaration ih seam
    case methods => exact fun done done' seam => beside_methods ih seam done done'
    case routine => exact fun kind seam => beside_routine ih seam kind
    case block => exact fun seam => beside_block ih seam
    case declarations => exact fun done done' seam => beside_declarations ih seam done done'
    case statement => exact fun seam => beside_statement ih seam other

/-- The first run returns where the tokens end. -/
theorem stays_ended {n : Nat} {done stmts : List Stmt} (ended : c.rest = [])
    (run : program n done c = .ok stmts c') : c' = c := by
  cases n with
  | zero => cases run
  | succ n =>
    rw [program_ended ended] at run
    cases run
    rfl

/-- At the top of the program the second run comes to the additional tokens with the errors of the
first, unless the first has one at its end. -/
theorem program_beside (other : ∀ t ∈ more.head?, t.kind ≠ .kwElse) {n : Nat}
    {done stmts : List Stmt} (done' : List Stmt) (seam : Seam more earlier c d) (some : more ≠ [])
    (eof : d.final.kind = .eof) (enough : 15 + 32 * d.rest.length ≤ n)
    (run : program n done c = .ok stmts c') :
    (∃ e ∈ c'.errors, e.token.kind = .eof) ∨
      ∃ m done'' d', program n done' d = program m done'' d' ∧ Behind more earlier c' d' ∧
        d'.final = d.final ∧ 15 + 32 * d'.rest.length ≤ m := by
  induction n generalizing c d done done' with
  | zero => omega
  | succ n ih =>
    have goesOn : c.rest ≠ [] := seam.ne_nil some
    have goesOn' : d.rest ≠ [] := mt seam.rest_eq_nil.1 goesOn
    obtain ⟨o, c₁, read⟩ := declaration_ok n c
    obtain ⟨o', d₁, read'⟩ := declaration_ok n d
    rw [program_goesOn goesOn read] at run
    rw [program_goesOn goesOn' read']
    have past := declaration_past eof read'
    have fewer : 15 + 32 * d₁.rest.length ≤ n := by
      have := past.length
      have := List.length_pos_iff.2 goesOn'
      omega
    have beside : StmtSideBySide more earlier n := stmtSideBySide other n
    have declared := beside.declaration seam
    rw [read, read'] at declared
    cases declared with
    | abreast h =>
      cases h with
      | ok _ seam₁ =>
        rcases ih _ seam₁ (past.eof eof) fewer run with atEnd | ⟨m, done'', d', same, behind⟩
        · exact .inl atEnd
        · exact .inr ⟨m, done'', d', same, behind.1, behind.2.1.trans past.final, behind.2.2⟩
      | behind _ _ behind =>
        right
        rw [stays_ended behind.ended run]
        exact ⟨n, _, d₁, rfl, behind, past.final, fewer⟩
    | lost _ recorded atEnd ended _ =>
      left
      rw [stays_ended ended run]
      exact ⟨_, recorded, atEnd⟩

/-- Errors that were recorded before, and numbers, change nothing. -/
theorem program_framed (n : Nat) (done done' : List Stmt) (seam : Seam [] earlier c d) :
    Abreast [] earlier False Any (program n done c) (program n done' d) := by
  induction n generalizing c d done done' with
  | zero => exact seam.stop _
  | succ n ih =>
    by_cases ended : c.rest = []
    · rw [program_ended ended, program_ended (seam.rest_eq_nil.2 ended)]
      exact .ok trivial seam
    · have goesOn : d.rest ≠ [] := mt seam.rest_eq_nil.1 ended
      obtain ⟨o, c₁, read⟩ := declaration_ok n c
      obtain ⟨o', d₁, read'⟩ := declaration_ok n d
      have noElse : ∀ t ∈ ([] : List Token).head?, t.kind ≠ .kwElse := by simp
      have beside : StmtSideBySide [] earlier n := stmtSideBySide noElse n
      have declared := beside.declaration seam
      rw [read, read'] at declared
      rw [program_goesOn ended read, program_goesOn goesOn read']
      cases declared with
      | abreast h =>
        cases h with
        | ok _ seam₁ => exact ih _ _ seam₁
        | behind _ _ behind => exact absurd rfl behind.some
      | lost some => exact absurd rfl some

end Treewalk.Parser

namespace Treewalk

open Treewalk.Parser

/-- The errors that parsing yields, in order. -/
def Parsed.errors (parsed : Parsed) : List SyntaxError :=
  match parsed.result with
  | .ok _ => []
  | .error errors => errors

variable {tokens behind : List Token}

theorem start_of_noEnd (noEnd : ∀ t ∈ tokens, t.kind ≠ .eof) (firstId : NodeId) :
    Parser.start tokens firstId =
      ⟨tokens, Token.eof ((tokens.getLast?.map (·.line)).getD 1), [], firstId⟩ := by
  have others : ∀ t ∈ tokens, (t.kind != .eof) = true := fun t member => by
    simpa using noEnd t member
  have none : tokens.find? (·.kind == .eof) = none := by
    rw [List.find?_eq_none]
    exact fun t member => by simpa using noEnd t member
  have all : tokens.takeWhile (·.kind != .eof) = tokens :=
    List.takeWhile_eq_self_iff.2 others
  unfold Parser.start
  rw [all, none]
  rfl

/-- A run that has enough steps records the errors that parsing yields. -/
theorem errors_parse (tokens : List Token) (firstId : NodeId) :
    ∃ stmts c, (∀ n, 15 + 32 * endIndex tokens ≤ n →
        Parser.program n [] (Parser.start tokens firstId) = .ok stmts c) ∧ Complete c.errors ∧
      (parse tokens firstId).errors = c.errors.reverse := by
  obtain ⟨stmts, c, run, complete, parsed⟩ := program_ends tokens firstId
  refine ⟨stmts, c, run, complete, ?_⟩
  rw [parsed]
  by_cases clean : c.errors = []
  · simp [Parsed.errors, clean]
  · simp [Parsed.errors, clean]

/-- The errors do not depend on the numbers. -/
theorem errors_parse_eq (tokens : List Token) (i j : NodeId) :
    (parse tokens i).errors = (parse tokens j).errors := by
  obtain ⟨_, c, run, -, errors⟩ := errors_parse tokens i
  obtain ⟨_, d, run', -, errors'⟩ := errors_parse tokens j
  have seam : Seam [] [] (Parser.start tokens i) (Parser.start tokens j) :=
    ⟨(List.append_nil _).symm, rfl, fun _ => rfl, fun some => absurd rfl some,
      Parser.start_final tokens i⟩
  have abreast := program_framed (15 + 32 * endIndex tokens) [] [] seam
  rw [run _ (Nat.le_refl _), run' _ (Nat.le_refl _)] at abreast
  cases abreast with
  | ok _ seam' => rw [errors, errors', seam'.errors, List.append_nil]
  | behind never => exact never.elim

theorem relabelAll_append (ρ : Relabel) (body body' : List Stmt) :
    Stmt.relabelAll ρ (body ++ body') = Stmt.relabelAll ρ body ++ Stmt.relabelAll ρ body' := by
  simp only [Stmt.relabelAll_eq_map, List.map_append]

/-- Two programs one after the other are a program. -/
theorem parse_append_ok {i j k : NodeId} {stmts stmts' : List Stmt}
    (noEnd : ∀ t ∈ tokens, t.kind ≠ .eof) (parsed : (parse tokens j).result = .ok stmts)
    (parsed' : (parse behind k).result = .ok stmts') :
    ∃ all, (parse (tokens ++ behind) i).result = .ok all ∧
      Stmt.relabelAll .unnumbered all = Stmt.relabelAll .unnumbered (stmts ++ stmts') := by
  have whole : parse tokens j = ⟨.ok stmts, (parse tokens j).nextId⟩ := by rw [← parsed]
  have whole' : parse behind k = ⟨.ok stmts', (parse behind k).nextId⟩ := by rw [← parsed']
  obtain ⟨_, counted⟩ := parse_countedFrom whole i
  obtain ⟨_, counted'⟩ := parse_countedFrom whole' _
  have others : ∀ t ∈ tokens, (t.kind != .eof) = true := fun t member => by
    simpa using noEnd t member
  have derived := (program_of_parse counted).append (program_of_parse counted')
  have all : tokens.takeWhile (·.kind != .eof) = tokens :=
    List.takeWhile_eq_self_iff.2 others
  rw [all, ← List.takeWhile_append_of_pos others] at derived
  refine ⟨_, by rw [parse_of_program derived], ?_⟩
  have same : ∀ (body : List Stmt) (first first' : NodeId),
      Stmt.relabelAll .unnumbered (Stmt.relabelAll (.countedFrom first first') body) =
        Stmt.relabelAll .unnumbered body :=
    fun body _ _ => Stmt.relabelAll_relabelAll _ _ body
  rw [relabelAll_append, relabelAll_append, same, same]

/-- The errors of two lists of tokens one after the other are those of the first and then those of
the second, if the first ends in a semicolon and has no error at its end, and the second does not
begin with an `else`. So a broken statement neither hides an error behind its semicolon nor makes one
up. If both are programs, both together are the statements of the first and then those of the second,
up to the numbers of the references. -/
theorem parse_append (noEnd : ∀ t ∈ tokens ++ behind, t.kind ≠ .eof)
    (semicolon : ∃ t, tokens.getLast? = some t ∧ t.kind = .semicolon)
    (noElse : ∀ t ∈ behind.head?, t.kind ≠ .kwElse) (i j k : NodeId)
    (inside : ∀ e ∈ (parse tokens j).errors, e.token.kind ≠ .eof) :
    (parse (tokens ++ behind) i).errors = (parse tokens j).errors ++ (parse behind k).errors ∧
      ∀ stmts stmts', (parse tokens j).result = .ok stmts →
        (parse behind k).result = .ok stmts' →
        ∃ all, (parse (tokens ++ behind) i).result = .ok all ∧
          Stmt.relabelAll .unnumbered all = Stmt.relabelAll .unnumbered (stmts ++ stmts') := by
  have noEndLeft : ∀ t ∈ tokens, t.kind ≠ .eof := fun t member =>
    noEnd t (List.mem_append_left _ member)
  have noEndRight : ∀ t ∈ behind, t.kind ≠ .eof := fun t member =>
    noEnd t (List.mem_append_right _ member)
  refine ⟨?_, fun stmts stmts' parsed parsed' => ?_⟩
  · by_cases none : behind = []
    · rw [none, List.append_nil, errors_parse_eq tokens i j]
      exact (List.append_nil _).symm
    · obtain ⟨stmts, c, run, -, errors⟩ := errors_parse tokens j
      obtain ⟨_, d, run', -, errors'⟩ := errors_parse (tokens ++ behind) i
      obtain ⟨_, b, run'', -, errors''⟩ := errors_parse behind k
      have seam : Seam behind [] (Parser.start tokens j) (Parser.start (tokens ++ behind) i) := by
        rw [start_of_noEnd noEndLeft, start_of_noEnd noEnd]
        exact ⟨rfl, rfl, fun h => absurd h none, fun _ => semicolon, rfl⟩
      have enough : 15 + 32 * (Parser.start (tokens ++ behind) i).rest.length ≤
          15 + 32 * endIndex (tokens ++ behind) + 32 * endIndex tokens := by
        rw [length_start]
        omega
      have left := run (15 + 32 * endIndex (tokens ++ behind) + 32 * endIndex tokens) (by omega)
      have right := run' (15 + 32 * endIndex (tokens ++ behind) + 32 * endIndex tokens) (by omega)
      rcases program_beside noElse [] seam none (Parser.start_final _ i) enough left with
        ⟨e, recorded, atEnd⟩ | ⟨m, done, c', same, there, final, more⟩
      · have member : e ∈ (parse tokens j).errors := by
          rw [errors]
          exact List.mem_reverse.2 recorded
        exact absurd atEnd (inside e member)
      · have atBehind : Seam [] c.errors (Parser.start behind k) c' := by
          rw [start_of_noEnd noEndRight]
          refine ⟨?_, there.errors.trans (List.append_nil _), fun _ => ?_,
            fun some => absurd rfl some, rfl⟩
          · rw [there.rest, List.append_nil]
          · rw [final, start_of_noEnd noEnd, List.getLast?_append_of_ne_nil _ none]
        have last := run'' m (by
          rw [← length_start behind k, start_of_noEnd noEndRight, ← there.rest]
          exact more)
        have abreast := program_framed m [] done atBehind
        rw [last, ← same, right] at abreast
        cases abreast with
        | ok _ ended =>
          rw [errors', errors, errors'', ended.errors, List.reverse_append]
        | behind never => exact never.elim
  · exact parse_append_ok noEndLeft parsed parsed'

/-- `var ;`, which misses a name. -/
def namelessVar : List Token := [⟨.kwVar, "var", none, 1⟩, ⟨.semicolon, ";", none, 1⟩]

/-- `print ;`, which misses a value. -/
def emptyPrint : List Token := [⟨.kwPrint, "print", none, 2⟩, ⟨.semicolon, ";", none, 2⟩]

/-- Both errors of `var ; print ;` are found, one behind the other. -/
theorem parse_append_broken :
    (∀ t ∈ namelessVar ++ emptyPrint, t.kind ≠ .eof) ∧
      (∃ t, namelessVar.getLast? = some t ∧ t.kind = .semicolon) ∧
      (∀ t ∈ emptyPrint.head?, t.kind ≠ .kwElse) ∧
      (∀ e ∈ (parse namelessVar 0).errors, e.token.kind ≠ .eof) ∧
      (parse (namelessVar ++ emptyPrint) 0).errors =
        [⟨⟨.semicolon, ";", none, 1⟩, .variableName⟩,
          ⟨⟨.semicolon, ";", none, 2⟩, .expression⟩] := by
  have noEnd : ∀ t ∈ namelessVar ++ emptyPrint, t.kind ≠ .eof := by decide
  have semicolon : ∃ t, namelessVar.getLast? = some t ∧ t.kind = .semicolon := ⟨_, rfl, rfl⟩
  have noElse : ∀ t ∈ emptyPrint.head?, t.kind ≠ .kwElse := by decide
  have first : (parse namelessVar 0).errors =
      [⟨⟨.semicolon, ";", none, 1⟩, .variableName⟩] := by rfl
  have second : (parse emptyPrint 0).errors = [⟨⟨.semicolon, ";", none, 2⟩, .expression⟩] := by
    rfl
  have inside : ∀ e ∈ (parse namelessVar 0).errors, e.token.kind ≠ .eof := by
    rw [first]
    decide
  have whole := (parse_append noEnd semicolon noElse 0 0 0 inside).1
  rw [first, second] at whole
  exact ⟨noEnd, semicolon, noElse, inside, whole⟩

end Treewalk
