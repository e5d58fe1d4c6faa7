import Mathlib.Computability.MyhillNerode
import Treewalk.Token

/-!
# The grammar as data

The grammar rule by rule, in the form in which it is written down: `documented` is the grammar of the
documentation, and `relaxed` is the same one with any operand on the left of an equals sign. A phrase
stands for a language of tokens, and its language is made of those of its parts by the operations of
Kleene algebra. With which tokens a phrase begins, and that each rule derives something at all, is
read off tables that the rules are checked against.
-/

namespace Treewalk.Grammar

open scoped Computability

/-- The names of the rules. -/
inductive Nonterminal where
  | program | declaration | classDecl | funDecl | function | varDecl | varItem
  | statement | exprStmt | forStmt | ifStmt | printStmt | returnStmt | whileStmt | block
  | parameters | arguments
  | expression | assignment | logicOr | logicAnd | equality | comparison | term | factor
  | unary | call | primary
deriving DecidableEq

/-- The right side of a rule. -/
inductive Phrase where
  | oneOf (kinds : List TokenKind)
  | rule (name : Nonterminal)
  | both (first second : Phrase)
  | either (left right : Phrase)
  | optional (phrase : Phrase)
  | many (phrase : Phrase)

namespace Phrase

instance : Append Phrase := ⟨both⟩

instance : OrOp Phrase := ⟨either⟩

/-- A token of this kind. -/
def one (kind : TokenKind) : Phrase := oneOf [kind]

end Phrase

open Phrase

/-- The grammar of the documentation. -/
def documented : Nonterminal → Phrase
  | .program => many (rule .declaration) ++ one .eof
  | .declaration => rule .classDecl ||| rule .funDecl ||| rule .varDecl ||| rule .statement
  | .classDecl =>
    one .kwClass ++ one .identifier ++ optional (one .less ++ one .identifier) ++ one .leftBrace ++
      many (rule .function) ++ one .rightBrace
  | .funDecl => one .kwFun ++ rule .function
  | .function =>
    one .identifier ++ one .leftParen ++ optional (rule .parameters) ++ one .rightParen ++
      rule .block
  | .varDecl =>
    one .kwVar ++ rule .varItem ++ many (one .comma ++ rule .varItem) ++ one .semicolon
  | .varItem => one .identifier ++ optional (one .equal ++ rule .assignment)
  | .statement =>
    rule .exprStmt ||| rule .forStmt ||| rule .ifStmt ||| rule .printStmt ||| rule .returnStmt |||
      rule .whileStmt ||| rule .block
  | .exprStmt => rule .expression ++ one .semicolon
  | .forStmt =>
    one .kwFor ++ one .leftParen ++ (rule .varDecl ||| rule .exprStmt ||| one .semicolon) ++
      optional (rule .expression) ++ one .semicolon ++ optional (rule .expression) ++
      one .rightParen ++ rule .statement
  | .ifStmt =>
    one .kwIf ++ one .leftParen ++ rule .expression ++ one .rightParen ++ rule .statement ++
      optional (one .kwElse ++ rule .statement)
  | .printStmt => one .kwPrint ++ rule .expression ++ one .semicolon
  | .returnStmt => one .kwReturn ++ optional (rule .expression) ++ one .semicolon
  | .whileStmt =>
    one .kwWhile ++ one .leftParen ++ rule .expression ++ one .rightParen ++ rule .statement
  | .block => one .leftBrace ++ many (rule .declaration) ++ one .rightBrace
  | .parameters => one .identifier ++ many (one .comma ++ one .identifier)
  | .arguments => rule .assignment ++ many (one .comma ++ rule .assignment)
  | .expression => rule .assignment ++ many (one .comma ++ rule .assignment)
  | .assignment =>
    optional (rule .call ++ one .dot) ++ one .identifier ++ one .equal ++ rule .assignment |||
      rule .logicOr
  | .logicOr => rule .logicAnd ++ many (one .kwOr ++ rule .logicAnd)
  | .logicAnd => rule .equality ++ many (one .kwAnd ++ rule .equality)
  | .equality => rule .comparison ++ many (oneOf [.bangEqual, .equalEqual] ++ rule .comparison)
  | .comparison =>
    rule .term ++ many (oneOf [.greater, .greaterEqual, .less, .lessEqual] ++ rule .term)
  | .term => rule .factor ++ many (oneOf [.minus, .plus] ++ rule .factor)
  | .factor => rule .unary ++ many (oneOf [.slash, .star] ++ rule .unary)
  | .unary => oneOf [.bang, .minus] ++ rule .unary ||| rule .call
  | .call =>
    rule .primary ++
      many (one .leftParen ++ optional (rule .arguments) ++ one .rightParen |||
        one .dot ++ one .identifier)
  | .primary =>
    oneOf [.number, .string, .kwTrue, .kwFalse, .kwNil, .kwThis, .identifier] |||
      one .leftParen ++ rule .expression ++ one .rightParen |||
      one .kwSuper ++ one .dot ++ one .identifier

/-- The grammar with any operand on the left of an equals sign. -/
def relaxed : Nonterminal → Phrase
  | .assignment => rule .logicOr ++ one .equal ++ rule .assignment ||| rule .logicOr
  | name => documented name

/-- A number or a string stands for a value. -/
def HasValue (t : Token) : Prop := t.kind = .number ∨ t.kind = .string → t.literal ≠ none

/-- The tokens that a phrase spells. -/
inductive Spells (grammar : Nonterminal → Phrase) : Phrase → List Token → Prop
  | oneOf {kinds : List TokenKind} {t : Token} (kind : t.kind ∈ kinds) (valued : HasValue t) :
    Spells grammar (oneOf kinds) [t]
  | rule {name : Nonterminal} {ts : List Token} (h : Spells grammar (grammar name) ts) :
    Spells grammar (rule name) ts
  | both {φ ψ : Phrase} {ts us : List Token} (first : Spells grammar φ ts)
    (second : Spells grammar ψ us) : Spells grammar (both φ ψ) (ts ++ us)
  | left {φ ψ : Phrase} {ts : List Token} (h : Spells grammar φ ts) :
    Spells grammar (either φ ψ) ts
  | right {φ ψ : Phrase} {ts : List Token} (h : Spells grammar ψ ts) :
    Spells grammar (either φ ψ) ts
  | absent {φ : Phrase} : Spells grammar (optional φ) []
  | present {φ : Phrase} {ts : List Token} (h : Spells grammar φ ts) :
    Spells grammar (optional φ) ts
  | none {φ : Phrase} : Spells grammar (many φ) []
  | more {φ : Phrase} {ts us : List Token} (first : Spells grammar φ ts)
    (rest : Spells grammar (many φ) us) : Spells grammar (many φ) (ts ++ us)

/-- The language of a phrase. -/
def language (grammar : Nonterminal → Phrase) (φ : Phrase) : Language Token :=
  {ts | Spells grammar φ ts}

/-- The tokens of some kinds, each a word of its own. -/
def tokens (kinds : List TokenKind) : Language Token :=
  {ts | ∃ t : Token, ts = [t] ∧ t.kind ∈ kinds ∧ HasValue t}

section Languages

variable {grammar : Nonterminal → Phrase} {φ ψ : Phrase} {ts : List Token}

theorem language_oneOf (kinds : List TokenKind) :
    language grammar (oneOf kinds) = tokens kinds := by
  ext ts
  constructor
  · rintro ⟨kind, valued⟩
    exact ⟨_, rfl, kind, valued⟩
  · rintro ⟨t, rfl, kind, valued⟩
    exact .oneOf kind valued

theorem language_one (kind : TokenKind) : language grammar (one kind) = tokens [kind] :=
  language_oneOf [kind]

theorem language_rule (name : Nonterminal) :
    language grammar (rule name) = language grammar (grammar name) := by
  ext ts
  constructor
  · rintro ⟨h⟩
    assumption
  · exact .rule

theorem language_append (φ ψ : Phrase) :
    language grammar (φ ++ ψ) = language grammar φ * language grammar ψ := by
  ext ts
  rw [Language.mem_mul]
  constructor
  · intro h
    cases (h : Spells grammar (both φ ψ) ts) with
    | both first second => exact ⟨_, first, _, second, rfl⟩
  · rintro ⟨us, first, vs, second, rfl⟩
    exact Spells.both first second

theorem language_or (φ ψ : Phrase) :
    language grammar (φ ||| ψ) = language grammar φ + language grammar ψ := by
  ext ts
  rw [Language.mem_add]
  constructor
  · intro h
    cases (h : Spells grammar (either φ ψ) ts) with
    | left h => exact .inl h
    | right h => exact .inr h
  · rintro (h | h)
    · exact Spells.left h
    · exact Spells.right h

theorem language_optional (φ : Phrase) :
    language grammar (optional φ) = 1 + language grammar φ := by
  ext ts
  rw [Language.mem_add, Language.mem_one]
  constructor
  · intro h
    cases (h : Spells grammar (optional φ) ts) with
    | absent => exact .inl rfl
    | present h => exact .inr h
  · rintro (rfl | h)
    · exact Spells.absent
    · exact Spells.present h

theorem language_many (φ : Phrase) : language grammar (many φ) = (language grammar φ)∗ := by
  ext ts
  constructor
  · intro h
    generalize same : many φ = χ at h
    induction (h : Spells grammar χ ts) with
    | none => exact Language.nil_mem_kstar _
    | more first _ _ ih =>
      cases same
      rw [← Language.one_add_self_mul_kstar_eq_kstar]
      exact .inr (Language.append_mem_mul first (ih rfl))
    | _ => cases same
  · rw [Language.mem_kstar]
    rintro ⟨words, rfl, spelled⟩
    induction words with
    | nil => exact Spells.none
    | cons word words ih =>
      have rest := ih fun w member => spelled w (List.mem_cons_of_mem _ member)
      exact Spells.more (spelled word List.mem_cons_self) rest

end Languages

/-! Which tokens a phrase begins with. -/

/-- The kinds that begin an operand. -/
def operandKinds : List TokenKind :=
  [.number, .string, .kwTrue, .kwFalse, .kwNil, .kwThis, .identifier, .leftParen, .kwSuper]

/-- The kinds that begin an expression. -/
def expressionKinds : List TokenKind := .bang :: .minus :: operandKinds

/-- The kinds that begin a statement. -/
def statementKinds : List TokenKind :=
  .kwFor :: .kwIf :: .kwPrint :: .kwReturn :: .kwWhile :: .leftBrace :: expressionKinds

/-- The kinds that begin a declaration. -/
def declarationKinds : List TokenKind := .kwClass :: .kwFun :: .kwVar :: statementKinds

/-- The kinds that the words of a rule begin with. -/
def Nonterminal.first : Nonterminal → List TokenKind
  | .program => .eof :: declarationKinds
  | .declaration => declarationKinds
  | .classDecl => [.kwClass]
  | .funDecl => [.kwFun]
  | .varDecl => [.kwVar]
  | .function | .varItem | .parameters => [.identifier]
  | .statement => statementKinds
  | .forStmt => [.kwFor]
  | .ifStmt => [.kwIf]
  | .printStmt => [.kwPrint]
  | .returnStmt => [.kwReturn]
  | .whileStmt => [.kwWhile]
  | .block => [.leftBrace]
  | .call | .primary => operandKinds
  | _ => expressionKinds

/-- The phrase may spell nothing. No rule may. -/
def Phrase.nullable : Phrase → Bool
  | .oneOf _ | .rule _ => false
  | .both φ ψ => φ.nullable && ψ.nullable
  | .either φ ψ => φ.nullable || ψ.nullable
  | .optional _ | .many _ => true

/-- The kinds that the words of a phrase begin with. -/
def Phrase.first : Phrase → List TokenKind
  | .oneOf kinds => kinds
  | .rule name => name.first
  | .both φ ψ => if φ.nullable then φ.first ++ ψ.first else φ.first
  | .either φ ψ => φ.first ++ ψ.first
  | .optional φ | .many φ => φ.first

/-- The table is right: no rule spells nothing, and each begins with what it lists. -/
theorem first_checked (name : Nonterminal) :
    (relaxed name).nullable = false ∧ ∀ kind ∈ (relaxed name).first, kind ∈ name.first := by
  cases name <;> decide

theorem Spells.first {φ : Phrase} {ts : List Token} (h : Spells relaxed φ ts) :
    (ts = [] → φ.nullable = true) ∧ ∀ t ∈ ts.head?, t.kind ∈ φ.first := by
  induction h with
  | oneOf kind _ => simpa [Phrase.first] using kind
  | @rule name ts h ih =>
    obtain ⟨nonempty, listed⟩ := first_checked name
    refine ⟨fun none => ?_, fun t head => listed _ (ih.2 t head)⟩
    rw [nonempty] at ih
    exact nomatch ih.1 none
  | @both φ ψ ts us _ _ ih ih' =>
    cases ts with
    | nil =>
      have nullable := ih.1 rfl
      refine ⟨fun none => ?_, fun t head => ?_⟩
      · rw [Phrase.nullable, nullable, ih'.1 none]
        rfl
      · rw [Phrase.first, if_pos nullable]
        exact List.mem_append_right _ (ih'.2 t head)
    | cons s ts =>
      refine ⟨nofun, fun t head => ?_⟩
      have here := ih.2 t head
      rw [Phrase.first]
      split
      · exact List.mem_append_left _ here
      · exact here
  | left _ ih =>
    exact ⟨fun none => by rw [Phrase.nullable, ih.1 none, Bool.true_or],
      fun t head => List.mem_append_left _ (ih.2 t head)⟩
  | right _ ih =>
    exact ⟨fun none => by rw [Phrase.nullable, ih.1 none, Bool.or_true],
      fun t head => List.mem_append_right _ (ih.2 t head)⟩
  | absent => exact ⟨fun _ => rfl, nofun⟩
  | present _ ih => exact ⟨fun _ => rfl, ih.2⟩
  | none => exact ⟨fun _ => rfl, nofun⟩
  | @more φ ts us _ _ ih ih' =>
    refine ⟨fun _ => rfl, fun t head => ?_⟩
    cases ts with
    | nil => exact ih'.2 t head
    | cons s ts => exact ih.2 t head

/-! Each rule derives some tokens. -/

/-- A bound of the height of a derivation. -/
def Nonterminal.height : Nonterminal → Nat
  | .primary | .varItem | .parameters | .block | .classDecl | .program | .returnStmt => 0
  | .call | .varDecl | .statement | .function => 1
  | .unary | .forStmt | .funDecl => 2
  | .factor => 3
  | .term => 4
  | .comparison => 5
  | .equality => 6
  | .logicAnd => 7
  | .logicOr => 8
  | .assignment => 9
  | .expression | .arguments => 10
  | .exprStmt | .printStmt | .ifStmt | .whileStmt => 11
  | .declaration => 12

/-- The phrase spells something if the rules below this height do. -/
def Phrase.productive (height : Nat) : Phrase → Bool
  | .oneOf kinds => !kinds.isEmpty
  | .rule name => name.height < height
  | .both φ ψ => φ.productive height && ψ.productive height
  | .either φ ψ => φ.productive height || ψ.productive height
  | .optional _ | .many _ => true

theorem productive_checked (name : Nonterminal) :
    (relaxed name).productive name.height = true := by
  cases name <;> decide

theorem spells_of_productive {height : Nat}
    (below : ∀ name : Nonterminal, name.height < height → ∃ ts, Spells relaxed (rule name) ts)
    (φ : Phrase) (h : φ.productive height = true) : ∃ ts, Spells relaxed φ ts := by
  induction φ with
  | oneOf kinds =>
    cases kinds with
    | nil => cases h
    | cons kind kinds =>
      exact ⟨_, .oneOf (t := ⟨kind, "", some (.text ""), 1⟩) List.mem_cons_self nofun⟩
  | rule name => exact below name (by simpa [productive] using h)
  | both φ ψ ih ih' =>
    rw [productive, Bool.and_eq_true] at h
    obtain ⟨_, first⟩ := ih h.1
    obtain ⟨_, second⟩ := ih' h.2
    exact ⟨_, .both first second⟩
  | either φ ψ ih ih' =>
    rw [productive, Bool.or_eq_true] at h
    rcases h with h | h
    · obtain ⟨_, h⟩ := ih h
      exact ⟨_, .left h⟩
    · obtain ⟨_, h⟩ := ih' h
      exact ⟨_, .right h⟩
  | optional φ => exact ⟨_, .absent⟩
  | many φ => exact ⟨_, .none⟩

theorem exists_spells_rule (name : Nonterminal) : ∃ ts, Spells relaxed (rule name) ts := by
  induction height : name.height using Nat.strongRecOn generalizing name with
  | ind n ih =>
    obtain ⟨_, h⟩ := spells_of_productive (fun other lower => ih _ (height ▸ lower) other rfl)
      (relaxed name) (productive_checked name)
    exact ⟨_, .rule h⟩

end Treewalk.Grammar
