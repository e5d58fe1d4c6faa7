import Treewalk.Proofs.Source.Characters
import Treewalk.Proofs.Source.Munch

/-!
# Tokens without a value

A token that is no literal and no end has no value. It is an identifier, whose text is a name, or
its kind has only one spelling.
-/

namespace Treewalk

/-- The kinds of tokens that are always spelled in one way, and how. -/
def TokenKind.spellings : List (String × TokenKind) :=
  [("(", leftParen), (")", rightParen), ("\x7b", leftBrace), ("\x7d", rightBrace), (",", comma),
    (".", dot), ("-", minus), ("+", plus), (";", semicolon), ("*", star), ("/", slash),
    ("!", bang), ("!=", bangEqual), ("=", equal), ("==", equalEqual), ("<", less),
    ("<=", lessEqual), (">", greater), (">=", greaterEqual)] ++ keywords

theorem TokenKind.spellings_text :
    ∀ p ∈ spellings, ∀ q ∈ spellings, p.1 = q.1 → p.2 = q.2 := by decide

theorem TokenKind.spellings_kind :
    ∀ p ∈ spellings, ∀ q ∈ spellings, p.2 = q.2 → p.1 = q.1 := by decide

/-- A word that is no keyword. -/
structure IsName (s : String) : Prop where
  plain : TokenKind.keyword? s = none
  word : ∃ c cs, s.toList = c :: cs ∧ (c.isAlpha = true ∨ c = '_') ∧
    ∀ d ∈ cs, d.isAlphanum = true ∨ d = '_'

/-- What a token is like that has no value of its own. -/
structure Token.Bare (t : Token) : Prop where
  literal : t.literal = none
  name : t.kind = .identifier → IsName t.lexeme
  spelled : t.kind ≠ .identifier → (t.lexeme, t.kind) ∈ TokenKind.spellings

namespace Source

theorem operators_spelled : ∀ p ∈ operators, (Utf8.decode p.1, p.2) ∈ TokenKind.spellings := by
  decide +kernel

theorem keywordTexts_spelled :
    ∀ p ∈ keywordTexts, (Utf8.decode p.1, p.2) ∈ TokenKind.spellings := by
  decide +kernel

theorem operators_named : ∀ p ∈ operators, p.2 ≠ .identifier := by decide

theorem keywordTexts_named : ∀ p ∈ keywordTexts, p.2 ≠ .identifier := by decide +kernel

theorem asciiChar_letter {b : UInt8} (letter : isLetter b = true) :
    (Utf8.asciiChar b).isAlpha = true ∨ Utf8.asciiChar b = '_' :=
  forall_byte (p := fun b => isLetter b = true →
    (Utf8.asciiChar b).isAlpha = true ∨ Utf8.asciiChar b = '_') (by decide +kernel) b letter

theorem asciiChar_word {b : UInt8} (word : isWordByte b = true) :
    (Utf8.asciiChar b).isAlphanum = true ∨ Utf8.asciiChar b = '_' :=
  forall_byte (p := fun b => isWordByte b = true →
    (Utf8.asciiChar b).isAlphanum = true ∨ Utf8.asciiChar b = '_') (by decide +kernel) b word

/-- The characters of an identifier. -/
theorem Rule.identifier_shape {text : List UInt8} (h : Rule text .identifier) :
    ∃ c cs, (Utf8.decode text).toList = c :: cs ∧ (c.isAlpha = true ∨ c = '_') ∧
      ∀ d ∈ cs, d.isAlphanum = true ∨ d = '_' := by
  rw [Utf8.decode_ascii (h.ascii (by decide)), String.toList_ofList]
  generalize same : TokenKind.identifier = kind at h
  cases h with
  | whole | fraction | string => cases same
  | keyword entry => exact absurd same.symm (keywordTexts_named _ entry)
  | identifier letter all _ =>
    exact ⟨_, _, rfl, asciiChar_letter letter,
      List.forall_mem_map.2 fun b member => asciiChar_word (all b member)⟩
  | operator entry => exact absurd same.symm (operators_named _ entry)

/-- A token that is no literal and no identifier is spelled as its kind is. -/
theorem Rule.spelled {text : List UInt8} {kind : TokenKind} (h : Rule text kind)
    (plain : kind ∉ [.string, .number, .identifier]) :
    (Utf8.decode text, kind) ∈ TokenKind.spellings := by
  cases h with
  | whole | fraction | string | identifier => exact absurd (by decide) plain
  | keyword entry => exact keywordTexts_spelled _ entry
  | operator entry => exact operators_spelled _ entry

/-- A token that is no literal and no end has no value and is spelled by the rules. -/
theorem bare_of_mem_scan {source : List UInt8} {t : Token} (member : t ∈ tokens (scan source))
    (kind : t.kind ∉ [.string, .number, .eof]) : t.Bare := by
  have spelled := spelled_of_mem_scan member
  rcases mem_itemsAfter (mem_tokens.1 member) with none | ⟨piece, isPiece, line, h⟩ | ⟨line, h⟩
  · cases none
  · obtain ⟨after, munched⟩ := (allMunched_pieces source).munched_of_mem isPiece
    unfold itemOf at h
    split at h <;> cases h
    next pieceKind is =>
      obtain ⟨sort, slice⟩ := piece
      dsimp only at is
      subst is
      cases munched with
      | token longest =>
        have rule := longest.rule
        simp only [List.mem_cons, List.not_mem_nil, or_false, not_or] at kind
        constructor
        · show literalOf pieceKind slice = none
          unfold literalOf
          split
          · exact absurd rfl kind.2.1
          · exact absurd rfl kind.1
          · rfl
        · intro identifier
          refine ⟨spelled.identifier identifier, ?_⟩
          cases identifier
          exact rule.identifier_shape
        · intro other
          apply rule.spelled
          simp only [List.mem_cons, List.not_mem_nil, or_false, not_or]
          exact ⟨kind.1, kind.2.1, other⟩
  · cases h
    exact absurd (by simp [Token.eof]) kind

end Source

end Treewalk
