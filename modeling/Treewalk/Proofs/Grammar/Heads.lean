import Treewalk.Proofs.Grammar.Phrases

/-!
# What may follow

A language here is what may stand behind the tokens read so far. `after X t` is what may stand behind
`t` then, and it is empty if no word begins with `t`: `Begins` and `Follows` say for which kinds it is.
The rules of the relaxed grammar are restated as equations between their languages.
-/

namespace Treewalk.Grammar

open scoped Computability

/-- The language of a rule. -/
def words (name : Nonterminal) : Language Token := language relaxed (Phrase.rule name)

/-- What stands behind a token in the words that begin with it. -/
def after (X : Language Token) (t : Token) : Language Token := X.leftQuotient [t]

/-- There is a word. -/
def Possible (X : Language Token) : Prop := ∃ w, w ∈ X

/-- Every word begins with one of these kinds. -/
def Begins (kinds : List TokenKind) (X : Language Token) : Prop :=
  ∀ w ∈ X, ∃ t ∈ w.head?, t.kind ∈ kinds

/-- There is a word, and none begins with any of these kinds. -/
structure Follows (kinds : List TokenKind) (X : Language Token) : Prop where
  possible : Possible X
  none : ∀ t : Token, t.kind ∈ kinds → after X t = 0

variable {X Y : Language Token} {t : Token} {w : List Token} {kinds kinds' : List TokenKind}

theorem mem_after : w ∈ after X t ↔ t :: w ∈ X := Iff.rfl

theorem after_add : after (X + Y) t = after X t + after Y t := rfl

theorem after_eq_zero (h : ∀ w, t :: w ∉ X) : after X t = 0 := by
  ext w
  exact ⟨fun member => absurd member (h w), fun member => absurd member (Language.notMem_zero w)⟩

namespace Begins

theorem after_eq_zero (h : Begins kinds X) (other : t.kind ∉ kinds) : after X t = 0 := by
  apply Grammar.after_eq_zero
  intro w member
  obtain ⟨u, head, kind⟩ := h _ member
  cases head
  exact other kind

theorem mul (h : Begins kinds X) : Begins kinds (X * Y) := by
  intro w member
  obtain ⟨u, first, v, -, rfl⟩ := Language.mem_mul.1 member
  obtain ⟨t, head, kind⟩ := h u first
  obtain ⟨rest, rfl⟩ := List.head?_eq_some_iff.1 head
  exact ⟨t, rfl, kind⟩

theorem add (h : Begins kinds X) (h' : Begins kinds' Y) : Begins (kinds ++ kinds') (X + Y) := by
  rintro w (member | member)
  · obtain ⟨t, head, kind⟩ := h w member
    exact ⟨t, head, List.mem_append_left _ kind⟩
  · obtain ⟨t, head, kind⟩ := h' w member
    exact ⟨t, head, List.mem_append_right _ kind⟩

end Begins

theorem begins_tokens (kinds : List TokenKind) : Begins kinds (tokens kinds) := by
  rintro w ⟨t, rfl, kind, -⟩
  exact ⟨t, rfl, kind⟩

theorem begins_words (name : Nonterminal) : Begins name.first (words name) := by
  intro w (spelled : Spells relaxed _ w)
  obtain ⟨nonempty, first⟩ := spelled.first
  cases w with
  | nil => exact nomatch nonempty rfl
  | cons t w => exact ⟨t, rfl, first t rfl⟩

theorem possible_words (name : Nonterminal) : Possible (words name) := exists_spells_rule name

namespace Possible

theorem mul (h : Possible X) (h' : Possible Y) : Possible (X * Y) := by
  obtain ⟨u, first⟩ := h
  obtain ⟨v, second⟩ := h'
  exact ⟨u ++ v, Language.append_mem_mul first second⟩

theorem add (h : Possible X) : Possible (X + Y) := by
  obtain ⟨w, member⟩ := h
  exact ⟨w, .inl member⟩

end Possible

theorem possible_tokens (kind : TokenKind) : Possible (tokens [kind]) :=
  ⟨_, ⟨kind, "", some (.text ""), 1⟩, rfl, List.mem_cons_self, nofun⟩

theorem after_tokens_mul (kind : t.kind ∈ kinds) (valued : HasValue t) :
    after (tokens kinds * X) t = X := by
  ext w
  rw [mem_after, Language.mem_mul]
  constructor
  · rintro ⟨_, ⟨u, rfl, -⟩, v, member, same⟩
    rw [List.cons_append, List.nil_append] at same
    cases same
    exact member
  · intro member
    exact ⟨[t], ⟨t, rfl, kind, valued⟩, w, member, rfl⟩

theorem after_tokens_mul_of_not_mem (other : t.kind ∉ kinds) : after (tokens kinds * X) t = 0 :=
  (begins_tokens kinds).mul.after_eq_zero other

/-- A phrase that may be missing. -/
theorem optional_mul : (1 + Y) * X = X + Y * X := by rw [add_mul, one_mul]

/-- A phrase that may be repeated. -/
theorem kstar_mul : Y∗ * X = X + Y * (Y∗ * X) := by
  nth_rewrite 1 [← Language.one_add_self_mul_kstar_eq_kstar]
  rw [add_mul, one_mul, mul_assoc]

namespace Follows

theorem of_begins (h : Begins kinds' X) (possible : Possible X)
    (other : ∀ kind ∈ kinds, kind ∉ kinds') : Follows kinds X :=
  ⟨possible, fun t kind => h.after_eq_zero (other t.kind kind)⟩

theorem mono (h : Follows kinds X) (fewer : ∀ kind ∈ kinds', kind ∈ kinds) : Follows kinds' X :=
  ⟨h.possible, fun t kind => h.none t (fewer t.kind kind)⟩

theorem add (h : Follows kinds X) (h' : Begins kinds' Y)
    (other : ∀ kind ∈ kinds, kind ∉ kinds') : Follows kinds (X + Y) := by
  refine ⟨h.possible.add, fun t kind => ?_⟩
  rw [after_add, h.none t kind, h'.after_eq_zero (other t.kind kind), zero_add]

/-- A token of another kind. -/
theorem tokens {kind : TokenKind} (possible : Possible X) (other : kind ∉ kinds) :
    Follows kinds (Grammar.tokens [kind] * X) := by
  refine of_begins (begins_tokens [kind]).mul ((possible_tokens kind).mul possible) ?_
  intro kind' member same
  rw [List.mem_singleton] at same
  rw [same] at member
  exact other member

theorem optional (h : Follows kinds X) (h' : Begins kinds' Y)
    (other : ∀ kind ∈ kinds, kind ∉ kinds') : Follows kinds ((1 + Y) * X) := by
  rw [optional_mul]
  exact h.add h'.mul other

theorem many (h : Follows kinds X) (h' : Begins kinds' Y)
    (other : ∀ kind ∈ kinds, kind ∉ kinds') : Follows kinds (Y∗ * X) := by
  rw [kstar_mul]
  exact h.add h'.mul other

end Follows

/-- Only numbers and strings stand for a value. -/
theorem valued_of_mem (member : t.kind ∈ kinds) (other : .number ∉ kinds ∧ .string ∉ kinds) :
    HasValue t := by
  rintro (isNumber | isString)
  · rw [isNumber] at member
    exact absurd member other.1
  · rw [isString] at member
    exact absurd member other.2

/-- Behind the token that a round begins with stands the rest of the round. -/
theorem after_many (follows : Follows kinds X) (kind : t.kind ∈ kinds) (valued : HasValue t) :
    after ((tokens kinds * Y)∗ * X) t = Y * ((tokens kinds * Y)∗ * X) := by
  nth_rewrite 1 [kstar_mul]
  rw [after_add, follows.none t kind, zero_add, mul_assoc, after_tokens_mul kind valued]

theorem after_optional (follows : Follows kinds X) (kind : t.kind ∈ kinds) (valued : HasValue t) :
    after ((1 + tokens kinds * Y) * X) t = Y * X := by
  rw [optional_mul, after_add, follows.none t kind, zero_add, mul_assoc,
    after_tokens_mul kind valued]

/-! The rules of the relaxed grammar. -/

theorem words_eq (name : Nonterminal) : words name = language relaxed (relaxed name) :=
  language_rule name

theorem program_words : words .program = (words .declaration)∗ * tokens [.eof] :=
  (words_eq _).trans (by
    simp only [words, relaxed, documented, language_append, language_many, language_one])

theorem mem_sum_words {names : List Nonterminal} :
    w ∈ (names.map words).sum ↔ ∃ name ∈ names, w ∈ words name := by
  induction names with
  | nil => simp
  | cons name names ih =>
    rw [List.map_cons, List.sum_cons, Language.mem_add, ih]
    simp

theorem declaration_words :
    words .declaration =
      ([.classDecl, .funDecl, .varDecl, .statement].map words).sum :=
  (words_eq _).trans (by
    simp only [words, relaxed, documented, language_or, List.map_cons, List.map_nil,
      List.sum_cons, List.sum_nil, add_zero, add_assoc])

theorem classDecl_words :
    words .classDecl = tokens [.kwClass] * (tokens [.identifier] *
      ((1 + tokens [.less] * tokens [.identifier]) * (tokens [.leftBrace] *
        ((words .function)∗ * tokens [.rightBrace])))) :=
  (words_eq _).trans (by
    simp only [words, relaxed, documented, language_append, language_optional, language_many,
      language_one, mul_assoc])

theorem funDecl_words : words .funDecl = tokens [.kwFun] * words .function :=
  (words_eq _).trans (by simp only [words, relaxed, documented, language_append, language_one])

theorem function_words :
    words .function = tokens [.identifier] * (tokens [.leftParen] *
      ((1 + words .parameters) * (tokens [.rightParen] * words .block))) :=
  (words_eq _).trans (by
    simp only [words, relaxed, documented, language_append, language_optional, language_one,
      mul_assoc])

theorem varDecl_words :
    words .varDecl = tokens [.kwVar] * (words .varItem *
      ((tokens [.comma] * words .varItem)∗ * tokens [.semicolon])) :=
  (words_eq _).trans (by
    simp only [words, relaxed, documented, language_append, language_many, language_one,
      mul_assoc])

theorem varItem_words :
    words .varItem = tokens [.identifier] * (1 + tokens [.equal] * words .assignment) :=
  (words_eq _).trans (by
    simp only [words, relaxed, documented, language_append, language_optional, language_one])

theorem statement_words :
    words .statement =
      ([.exprStmt, .forStmt, .ifStmt, .printStmt, .returnStmt, .whileStmt, .block].map words).sum :=
  (words_eq _).trans (by
    simp only [words, relaxed, documented, language_or, List.map_cons, List.map_nil,
      List.sum_cons, List.sum_nil, add_zero, add_assoc])

theorem exprStmt_words : words .exprStmt = words .expression * tokens [.semicolon] :=
  (words_eq _).trans (by simp only [words, relaxed, documented, language_append, language_one])

theorem forStmt_words :
    words .forStmt = tokens [.kwFor] * (tokens [.leftParen] *
      ((words .varDecl + words .exprStmt + tokens [.semicolon]) *
        ((1 + words .expression) * (tokens [.semicolon] *
          ((1 + words .expression) * (tokens [.rightParen] * words .statement)))))) :=
  (words_eq _).trans (by
    simp only [words, relaxed, documented, language_append, language_or, language_optional,
      language_one, mul_assoc])

theorem ifStmt_words :
    words .ifStmt = tokens [.kwIf] * (tokens [.leftParen] * (words .expression *
      (tokens [.rightParen] * (words .statement *
        (1 + tokens [.kwElse] * words .statement))))) :=
  (words_eq _).trans (by
    simp only [words, relaxed, documented, language_append, language_optional, language_one,
      mul_assoc])

theorem printStmt_words :
    words .printStmt = tokens [.kwPrint] * (words .expression * tokens [.semicolon]) :=
  (words_eq _).trans (by
    simp only [words, relaxed, documented, language_append, language_one, mul_assoc])

theorem returnStmt_words :
    words .returnStmt = tokens [.kwReturn] * ((1 + words .expression) * tokens [.semicolon]) :=
  (words_eq _).trans (by
    simp only [words, relaxed, documented, language_append, language_optional, language_one,
      mul_assoc])

theorem whileStmt_words :
    words .whileStmt = tokens [.kwWhile] * (tokens [.leftParen] * (words .expression *
      (tokens [.rightParen] * words .statement))) :=
  (words_eq _).trans (by
    simp only [words, relaxed, documented, language_append, language_one, mul_assoc])

theorem block_words :
    words .block = tokens [.leftBrace] * ((words .declaration)∗ * tokens [.rightBrace]) :=
  (words_eq _).trans (by
    simp only [words, relaxed, documented, language_append, language_many, language_one,
      mul_assoc])

theorem parameters_words :
    words .parameters = tokens [.identifier] * (tokens [.comma] * tokens [.identifier])∗ :=
  (words_eq _).trans (by
    simp only [relaxed, documented, language_append, language_many, language_one])

theorem arguments_words :
    words .arguments = words .assignment * (tokens [.comma] * words .assignment)∗ :=
  (words_eq _).trans (by
    simp only [words, relaxed, documented, language_append, language_many, language_one])

theorem expression_words :
    words .expression = words .assignment * (tokens [.comma] * words .assignment)∗ :=
  (words_eq _).trans (by
    simp only [words, relaxed, documented, language_append, language_many, language_one])

/-- On the left of an equals sign stands any operand. -/
theorem assignment_words :
    words .assignment = words .logicOr * (1 + tokens [.equal] * words .assignment) :=
  (words_eq _).trans (by
    simp only [words, relaxed, language_append, language_or, language_one, mul_add, mul_one,
      mul_assoc, add_comm])

theorem unary_words :
    words .unary = tokens [.bang, .minus] * words .unary + words .call :=
  (words_eq _).trans (by
    simp only [words, relaxed, documented, language_append, language_or, language_oneOf])

/-- The calls and properties behind an operand. -/
def suffix : Language Token :=
  tokens [.leftParen] * ((1 + words .arguments) * tokens [.rightParen]) +
    tokens [.dot] * tokens [.identifier]

theorem call_words : words .call = words .primary * suffix∗ :=
  (words_eq _).trans (by
    simp only [suffix, words, relaxed, documented, language_append, language_or, language_optional,
      language_many, language_one, mul_assoc])

theorem primary_words :
    words .primary =
      tokens [.number, .string, .kwTrue, .kwFalse, .kwNil, .kwThis, .identifier] +
        tokens [.leftParen] * (words .expression * tokens [.rightParen]) +
        tokens [.kwSuper] * (tokens [.dot] * tokens [.identifier]) :=
  (words_eq _).trans (by
    simp only [words, relaxed, documented, language_append, language_or, language_oneOf,
      language_one, mul_assoc])

theorem begins_suffix : Begins [.leftParen, .dot] suffix :=
  (begins_tokens [.leftParen]).mul.add (begins_tokens [.dot]).mul

end Treewalk.Grammar
