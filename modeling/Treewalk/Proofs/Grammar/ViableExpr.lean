import Treewalk.Proofs.Grammar.Viable

/-!
# Expressions are read as far as they are viable

Each parser of expressions leads through the words of its rule, if what follows does not begin with a
token that would continue the expression.
-/

namespace Treewalk.Parser

open Grammar
open scoped Computability

/-- The rule of the operators of a level and of all tighter ones. -/
def operandName : Option Level → Nonterminal
  | none => .unary
  | some .or => .logicOr
  | some .and => .logicAnd
  | some .equality => .equality
  | some .comparison => .comparison
  | some .term => .term
  | some .factor => .factor

/-- The levels from this one on to the tightest. -/
def levelsFrom : Option Level → List Level
  | none => []
  | some .or => [.or, .and, .equality, .comparison, .term, .factor]
  | some .and => [.and, .equality, .comparison, .term, .factor]
  | some .equality => [.equality, .comparison, .term, .factor]
  | some .comparison => [.comparison, .term, .factor]
  | some .term => [.term, .factor]
  | some .factor => [.factor]

/-- The kinds that continue an operand of a level. -/
def continuing (level : Option Level) : List TokenKind :=
  (levelsFrom level).flatMap Level.operators ++ [.leftParen, .dot]

/-- The kinds that continue an assignment. -/
def continuingAssignment : List TokenKind := .equal :: continuing (some .or)

/-- The kinds that continue an expression. -/
def continuingExpression : List TokenKind := .comma :: continuingAssignment

theorem operand_words (level : Level) :
    words (operandName (some level)) = words (operandName level.tighter) *
      (tokens level.operators * words (operandName level.tighter))∗ := by
  cases level <;>
    exact (words_eq _).trans (by
      simp only [words, operandName, Level.tighter, Level.operators, relaxed, documented,
        language_append, language_many, language_one, language_oneOf])

/-- What continues a level continues the tighter one or is an operator of it, and not both. -/
theorem continuing_level (level : Level) :
    continuing (some level) = level.operators ++ continuing level.tighter ∧
      (∀ kind ∈ continuing level.tighter, kind ∉ level.operators) ∧ .eof ∉ level.operators ∧
      .number ∉ level.operators ∧ .string ∉ level.operators := by
  cases level <;> decide

variable {K : Language Token} {c : Cursor}

/-- The parsers of expressions, if their recursion is at most `n` deep. -/
structure ExprViable (n : Nat) : Prop where
  expression : ∀ {K} c, Follows continuingExpression K →
    Leads (words .expression * K) K (expression n) c
  items : ∀ {K} c done, Follows continuingExpression K →
    Leads ((tokens [.comma] * words .assignment)∗ * K) K (items n done) c
  assignment : ∀ {K} c, Follows continuingAssignment K →
    Leads (words .assignment * K) K (assignment n) c
  operation : ∀ {K} c level, Follows (continuing level) K →
    Leads (words (operandName level) * K) K (operation n level) c
  operations : ∀ {K} c level left, Follows (continuing (some level)) K →
    Leads ((tokens level.operators * words (operandName level.tighter))∗ * K) K
      (operations n level left) c
  unary : ∀ {K} c, Follows (continuing none) K → Leads (words .unary * K) K (unary n) c
  call : ∀ {K} c, Follows (continuing none) K → Leads (words .call * K) K (call n) c
  calls : ∀ {K} c callee, Follows (continuing none) K → Leads (suffix∗ * K) K (calls n callee) c
  arguments : ∀ {K} c, Possible K → Begins [.rightParen] K →
    Leads ((1 + words .arguments) * K) K (arguments n) c
  moreArguments : ∀ {K} c done, Follows continuingExpression K →
    Leads (words .arguments * K) K (moreArguments n done) c
  primary : ∀ {K} c, Possible K → Leads (words .primary * K) K (primary n) c

/-- Behind the items of a list stands a comma, or what follows the list. -/
theorem follows_items (follows : Follows continuingExpression K) :
    Follows continuingAssignment ((tokens [.comma] * words .assignment)∗ * K) := by
  apply Follows.many _ (begins_tokens [.comma]).mul (by decide)
  exact follows.mono (by decide)

/-- What is read behind one thing of a list: a comma and the list again, or nothing. -/
theorem leads_goesOn {α : Type} {Y : Language Token} {p : Parser α} {a : α} (follows : Follows [.comma] K)
    (again : ∀ c, Leads (Y * ((tokens [.comma] * Y)∗ * K)) K p c) (c : Cursor) :
    Leads ((tokens [.comma] * Y)∗ * K) K
      (do
        match ← accept .comma with
        | none => pure a
        | some _ => p) c := by
  refine .acceptAny (by decide) (fun other => ?_) fun t c' isComma => ?_
  · exact .skipMany (.pure a) (begins_tokens [.comma]).mul other
  · rw [after_many follows isComma (valued_of_mem isComma (by decide))]
    exact again c'

/-- The kinds of which one token is an expression. -/
def atomKinds : List TokenKind :=
  [.number, .string, .kwTrue, .kwFalse, .kwNil, .kwThis, .identifier]

theorem primary_mul :
    words .primary * K = tokens atomKinds * K +
      tokens [.leftParen] * (words .expression * (tokens [.rightParen] * K)) +
      tokens [.kwSuper] * (tokens [.dot] * (tokens [.identifier] * K)) := by
  rw [primary_words, add_mul, add_mul, mul_assoc, mul_assoc, mul_assoc, mul_assoc, atomKinds]

/-- An expression of one token. -/
theorem after_atom {t : Token} (member : t.kind ∈ atomKinds) (valued : HasValue t) :
    after (words .primary * K) t = K := by
  have others : ∀ kind ∈ atomKinds, kind ∉ [TokenKind.leftParen] ∧ kind ∉ [TokenKind.kwSuper] := by
    decide
  obtain ⟨notParen, notSuper⟩ := others _ member
  rw [primary_mul, after_add, after_add, after_tokens_mul member valued,
    after_tokens_mul_of_not_mem notParen, after_tokens_mul_of_not_mem notSuper, add_zero, add_zero]

theorem after_opening {t : Token} (isParen : t.kind = .leftParen) :
    after (words .primary * K) t = words .expression * (tokens [.rightParen] * K) := by
  have member : t.kind ∈ [TokenKind.leftParen] := by simp [isParen]
  have notAtom : t.kind ∉ atomKinds := by
    rw [isParen]
    decide
  have notSuper : t.kind ∉ [TokenKind.kwSuper] := by simp [isParen]
  rw [primary_mul, after_add, after_add, after_tokens_mul_of_not_mem notAtom,
    after_tokens_mul member (valued_of_mem member (by decide)),
    after_tokens_mul_of_not_mem notSuper, zero_add, add_zero]

theorem after_super {t : Token} (isSuper : t.kind = .kwSuper) :
    after (words .primary * K) t = tokens [.dot] * (tokens [.identifier] * K) := by
  have member : t.kind ∈ [TokenKind.kwSuper] := by simp [isSuper]
  have notAtom : t.kind ∉ atomKinds := by
    rw [isSuper]
    decide
  have notParen : t.kind ∉ [TokenKind.leftParen] := by simp [isSuper]
  rw [primary_mul, after_add, after_add, after_tokens_mul_of_not_mem notAtom,
    after_tokens_mul_of_not_mem notParen,
    after_tokens_mul member (valued_of_mem member (by decide)), zero_add, zero_add]

/-- A number or a string without a value is no expression. -/
theorem after_malformed {t : Token} (kind : t.kind = .number ∨ t.kind = .string)
    (malformed : t.literal = none) : after (words .primary * K) t = 0 := by
  have notValued : ∀ w, t :: w ∉ tokens atomKinds * K := by
    intro w member
    obtain ⟨_, ⟨u, rfl, -, valued⟩, v, -, same⟩ := Language.mem_mul.1 member
    rw [List.cons_append, List.nil_append] at same
    cases same
    exact valued kind malformed
  have notParen : t.kind ∉ [TokenKind.leftParen] := by rcases kind with kind | kind <;> simp [kind]
  have notSuper : t.kind ∉ [TokenKind.kwSuper] := by rcases kind with kind | kind <;> simp [kind]
  rw [primary_mul, after_add, after_add, after_eq_zero notValued,
    after_tokens_mul_of_not_mem notParen, after_tokens_mul_of_not_mem notSuper, add_zero, add_zero]

theorem viable_literal {t : Token} (known : ∃ rest, c.rest = t :: rest)
    (kind : t.kind = .number ∨ t.kind = .string) (possible : Possible K) :
    Leads (words .primary * K) K
      (do
        advance
        match t.literal with
        | some (.number value) => pure (Expr.constant (.number value))
        | some (.text value) => pure (.constant (.text value))
        | none => throw ⟨t, .malformedLiteral⟩) c := by
  have member : t.kind ∈ atomKinds := by rcases kind with kind | kind <;> simp [kind, atomKinds]
  cases literal : t.literal with
  | none =>
    exact .advanceThrow known rfl ((possible_words _).mul possible)
      (after_malformed kind literal)
  | some value =>
    have valued : HasValue t := by
      intro _
      rw [literal]
      exact nofun
    refine .advance known fun _ => ?_
    rw [after_atom member valued]
    cases value <;> exact .pure _

section Step

variable {n : Nat} (ih : ExprViable n)
include ih

theorem viable_expression (follows : Follows continuingExpression K) :
    Leads (words .expression * K) K (expression (n + 1)) c := by
  rw [expression, expression_words, mul_assoc]
  refine (ih.assignment c (follows_items follows)).bind fun first c' => ?_
  refine .check (by decide) (fun _ => ih.items c' [first] follows) fun other => ?_
  exact .skipMany (.pure first) (begins_tokens [.comma]).mul (by simpa using other)

theorem viable_items (done : List Expr) (follows : Follows continuingExpression K) :
    Leads ((tokens [.comma] * words .assignment)∗ * K) K (items (n + 1) done) c := by
  rw [items]
  refine leads_goesOn (follows.mono (by decide)) (fun c' => ?_) c
  refine (ih.assignment c' (follows_items follows)).bind fun item c'' => ?_
  exact ih.items c'' _ follows

theorem viable_assignment (follows : Follows continuingAssignment K) :
    Leads (words .assignment * K) K (assignment (n + 1)) c := by
  have behind : Follows (continuing (some .or)) ((1 + tokens [.equal] * words .assignment) * K) := by
    apply Follows.optional _ (begins_tokens [.equal]).mul (by decide)
    exact follows.mono (by decide)
  rw [assignment, assignment_words, mul_assoc]
  refine (ih.operation c (some .or) behind).bind fun target c' => ?_
  refine .acceptAny (by decide) (fun other => ?_) fun equals c'' isEqual => ?_
  · exact .skip (.pure target) (begins_tokens [.equal]).mul other
  · rw [after_optional (follows.mono (by decide)) isEqual (valued_of_mem isEqual (by decide))]
    refine (ih.assignment c'' follows).bind fun value _ => ?_
    split
    · exact .pure _
    · exact (Leads.report rfl).bind fun _ _ => .pure target

theorem viable_operation (level : Option Level) (follows : Follows (continuing level) K) :
    Leads (words (operandName level) * K) K (operation (n + 1) level) c := by
  cases level with
  | none => exact ih.unary c follows
  | some level =>
    obtain ⟨same, other, -⟩ := continuing_level level
    have behind : Follows (continuing level.tighter)
        ((tokens level.operators * words (operandName level.tighter))∗ * K) := by
      apply Follows.many _ (begins_tokens _).mul other
      rw [same] at follows
      exact follows.mono fun kind => List.mem_append_right _
    rw [operation, operand_words, mul_assoc]
    refine (ih.operation c level.tighter behind).bind fun left c' => ?_
    exact ih.operations c' level left follows

theorem viable_operations (level : Level) (left : Expr)
    (follows : Follows (continuing (some level)) K) :
    Leads ((tokens level.operators * words (operandName level.tighter))∗ * K) K
      (operations (n + 1) level left) c := by
  obtain ⟨same, other, isToken, plain⟩ := continuing_level level
  have tighter : Follows (continuing level.tighter) K := by
    rw [same] at follows
    exact follows.mono fun kind => List.mem_append_right _
  rw [operations]
  refine .acceptAny isToken (fun ended => ?_) fun operator c' member => ?_
  · exact .skipMany (.pure left) (begins_tokens _).mul ended
  · have here : Follows level.operators K := by
      rw [same] at follows
      exact follows.mono fun kind => List.mem_append_left _
    rw [after_many here member (valued_of_mem member plain)]
    refine (ih.operation c' level.tighter (tighter.many (begins_tokens _).mul other)).bind
      fun right c'' => ?_
    exact ih.operations c'' level _ follows

theorem viable_unary (follows : Follows (continuing none) K) :
    Leads (words .unary * K) K (unary (n + 1)) c := by
  rw [unary, unary_words, add_mul, mul_assoc]
  refine .acceptAny (by decide) (fun other => ?_) fun operator c' member => ?_
  · rw [add_comm]
    exact (ih.call c follows).add (after_tokens_mul_of_not_mem other)
  · have another : operator.kind ∉ Nonterminal.first .call := by
      rcases List.mem_pair.1 member with same | same <;> rw [same] <;> decide
    rw [after_add, after_tokens_mul member (valued_of_mem member (by decide)),
      (begins_words .call).mul.after_eq_zero another, add_zero]
    exact (ih.unary c' follows).bind fun right _ => .pure _

omit ih in
theorem follows_suffixes (follows : Follows (continuing none) K) : Follows [] (suffix∗ * K) :=
  Follows.many (follows.mono (by decide)) begins_suffix (by decide)

theorem viable_call (follows : Follows (continuing none) K) :
    Leads (words .call * K) K (call (n + 1)) c := by
  rw [call, call_words, mul_assoc]
  have behind : Possible (suffix∗ * K) := (follows_suffixes follows).possible
  exact (ih.primary c behind).bind fun callee c' => ih.calls c' callee follows

theorem viable_calls (callee : Expr) (follows : Follows (continuing none) K) :
    Leads (suffix∗ * K) K (calls (n + 1) callee) c := by
  rw [calls]
  refine .acceptAny (by decide) (fun other => ?_) fun mark c' member => ?_
  · exact .skipMany (.pure callee) begins_suffix other
  · have valued := valued_of_mem member (by decide)
    have again : Possible (suffix∗ * K) := (follows_suffixes follows).possible
    have behind : after (suffix∗ * K) mark = after (suffix * (suffix∗ * K)) mark := by
      nth_rewrite 1 [kstar_mul]
      rw [after_add, follows.none mark member, zero_add]
    rw [behind, suffix, add_mul, after_add, ← suffix]
    by_cases isDot : mark.kind = .dot
    · have here : mark.kind ∈ [TokenKind.dot] := by simp [isDot]
      have notParen : mark.kind ∉ [TokenKind.leftParen] := by simp [isDot]
      simp only [isDot, if_true]
      rw [(begins_tokens _).mul.mul.after_eq_zero notParen, zero_add, mul_assoc,
        after_tokens_mul here valued]
      refine (Leads.expect (by decide) rfl again).bind fun name c'' => ?_
      exact ih.calls c'' _ follows
    · have notDot : mark.kind ∉ [TokenKind.dot] := by simpa using isDot
      have here : mark.kind ∈ [TokenKind.leftParen] := by
        rcases List.mem_pair.1 member with same | same
        · simp [same]
        · exact absurd same isDot
      simp only [isDot, if_false]
      rw [(begins_tokens _).mul.mul.after_eq_zero notDot, add_zero, mul_assoc, mul_assoc,
        after_tokens_mul here valued]
      have closing : Possible (tokens [.rightParen] * (suffix∗ * K)) :=
        (possible_tokens _).mul again
      refine (ih.arguments c' closing (begins_tokens _).mul).bind fun values c'' => ?_
      refine (Leads.expect (by decide) rfl again).bind fun paren c''' => ?_
      exact ih.calls c''' _ follows

theorem viable_arguments (possible : Possible K) (begins : Begins [.rightParen] K) :
    Leads ((1 + words .arguments) * K) K (arguments (n + 1)) c := by
  rw [arguments]
  refine .check (by decide) (fun closed => ?_) fun other => ?_
  · refine .skip (.pure []) (begins_words .arguments) ?_
    rw [closed]
    decide
  · rw [optional_mul, add_comm]
    have follows : Follows continuingExpression K := .of_begins begins possible (by decide)
    refine (ih.moreArguments c [] follows).add (begins.after_eq_zero ?_)
    simpa using other

theorem viable_argumentAndMore (done : List Expr) (follows : Follows continuingExpression K) :
    Leads (words .arguments * K) K
      (do
        let value ← assignment n
        match ← accept .comma with
        | none => pure (value :: done).reverse
        | some _ => moreArguments n (value :: done)) c := by
  rw [arguments_words, mul_assoc]
  refine (ih.assignment c (follows_items follows)).bind fun value c' => ?_
  refine leads_goesOn (follows.mono (by decide)) (fun c'' => ?_) c'
  rw [← mul_assoc, ← arguments_words]
  exact ih.moreArguments c'' _ follows

theorem viable_moreArguments (done : List Expr) (follows : Follows continuingExpression K) :
    Leads (words .arguments * K) K (moreArguments (n + 1) done) c := by
  rw [moreArguments]
  split
  · refine .peek fun t _ _ => (Leads.report rfl).bind fun _ _ => ?_
    exact viable_argumentAndMore ih done follows
  · exact viable_argumentAndMore ih done follows

theorem viable_primary (possible : Possible K) :
    Leads (words .primary * K) K (primary (n + 1)) c := by
  have isPossible : Possible (words .primary * K) := (possible_words _).mul possible
  rw [primary]
  refine .peek fun t next known => ?_
  split
  · next kind =>
    refine .advance (known (by simp [kind])) fun _ => ?_
    rw [after_atom (by simp [kind, atomKinds]) (by simp [HasValue, kind])]
    exact .pure _
  · next kind =>
    refine .advance (known (by simp [kind])) fun _ => ?_
    rw [after_atom (by simp [kind, atomKinds]) (by simp [HasValue, kind])]
    exact .pure _
  · next kind =>
    refine .advance (known (by simp [kind])) fun _ => ?_
    rw [after_atom (by simp [kind, atomKinds]) (by simp [HasValue, kind])]
    exact .pure _
  · next kind => exact viable_literal (known (by simp [kind])) (.inl kind) possible
  · next kind => exact viable_literal (known (by simp [kind])) (.inr kind) possible
  · next kind =>
    refine .advance (known (by simp [kind])) fun c' => ?_
    rw [after_super kind]
    have named : Possible (tokens [.identifier] * K) := (possible_tokens _).mul possible
    refine (Leads.expect (by decide) rfl named).bind fun dot c'' => ?_
    refine (Leads.expect (by decide) rfl possible).bind fun method c''' => ?_
    exact Leads.fresh.bind fun id _ => .pure _
  · next kind =>
    refine .advance (known (by simp [kind])) fun _ => ?_
    rw [after_atom (by simp [kind, atomKinds]) (by simp [HasValue, kind])]
    exact Leads.fresh.bind fun id _ => .pure _
  · next kind =>
    refine .advance (known (by simp [kind])) fun _ => ?_
    rw [after_atom (by simp [kind, atomKinds]) (by simp [HasValue, kind])]
    exact Leads.fresh.bind fun id _ => .pure _
  · next kind =>
    refine .advance (known (by simp [kind])) fun c' => ?_
    rw [after_opening kind]
    have behind : Follows continuingExpression (tokens [.rightParen] * K) :=
      .tokens possible (by decide)
    refine (ih.expression c' behind).bind fun inner c'' => ?_
    exact (Leads.expect (by decide) rfl possible).bind fun closing _ => .pure _
  · refine .stop rfl isPossible ?_
    refine (begins_words .primary).mul.after_eq_zero ?_
    rw [next]
    simp_all [Nonterminal.first, operandKinds]

end Step

theorem exprViable (n : Nat) : ExprViable n := by
  induction n with
  | zero => constructor <;> intros <;> exact .unfinished
  | succ n ih =>
    constructor
    case expression => exact fun _ follows => viable_expression ih follows
    case items => exact fun _ done follows => viable_items ih done follows
    case assignment => exact fun _ follows => viable_assignment ih follows
    case operation => exact fun _ level follows => viable_operation ih level follows
    case operations => exact fun _ level left follows => viable_operations ih level left follows
    case unary => exact fun _ follows => viable_unary ih follows
    case call => exact fun _ follows => viable_call ih follows
    case calls => exact fun _ callee follows => viable_calls ih callee follows
    case arguments => exact fun _ possible begins => viable_arguments ih possible begins
    case moreArguments => exact fun _ done follows => viable_moreArguments ih done follows
    case primary => exact fun _ possible => viable_primary ih possible

end Treewalk.Parser
