import Treewalk.Token.Scan

/-!
# Words

A token that is an identifier or a keyword was a word of the source, and its kind is the one that
the table of keywords gives to its text.
-/

namespace Treewalk

/-- The kinds that words have. -/
def TokenKind.isWord (kind : TokenKind) : Bool :=
  kind == .identifier || TokenKind.keywords.any (·.2 == kind)

/-- A word has the kind that its text says. -/
def Token.Spelled (t : Token) : Prop :=
  t.kind.isWord = true → t.kind = (TokenKind.keyword? t.lexeme).getD .identifier

namespace Source

theorem isWord_single {b : UInt8} {kind : TokenKind} (h : single? b = some kind) :
    kind.isWord = false := by
  unfold single? at h
  repeat' split at h
  all_goals first
    | cases h; rfl
    | cases h

theorem isWord_beforeEqual {b : UInt8} {alone withEqual : TokenKind}
    (h : beforeEqual? b = some (alone, withEqual)) :
    alone.isWord = false ∧ withEqual.isWord = false := by
  unfold beforeEqual? at h
  repeat' split at h
  all_goals first
    | cases h; exact ⟨rfl, rfl⟩
    | cases h

theorem cutNumber_kind (source : List UInt8) : (cutNumber source).1 = .token .number := by
  unfold cutNumber
  split
  · split <;> rfl
  · rfl

theorem cutString_kind {source : List UInt8} {kind : TokenKind}
    (h : (cutString source).1 = .token kind) : kind = .string := by
  unfold cutString at h
  split at h <;> cases h
  rfl

theorem cutSlash_kind {source : List UInt8} {kind : TokenKind}
    (h : (cutSlash source).1 = .token kind) : kind = .slash := by
  unfold cutSlash at h
  repeat' split at h
  all_goals first
    | cases h; rfl
    | cases h

theorem cutOperator_kind {alone withEqual kind : TokenKind} {source : List UInt8}
    (h : (cutOperator alone withEqual source).1 = .token kind) :
    kind = alone ∨ kind = withEqual := by
  unfold cutOperator at h
  repeat' split at h
  · exact .inl (PieceKind.token.inj h).symm
  · exact .inr (PieceKind.token.inj h).symm
  · exact .inl (PieceKind.token.inj h).symm

theorem cutStray_kind (b : UInt8) (source : List UInt8) : (cutStray b source).1 = .stray := by
  unfold cutStray
  split <;> rfl

/-- What the first byte of a source begins is a word only if it has the kind that its text says. -/
theorem cut_word {b : UInt8} {rest : List UInt8} {kind : TokenKind}
    (h : (cut b rest).1 = .token kind) (word : kind.isWord = true) :
    kind = wordKind (b :: (cut b rest).2.1) := by
  have other : ∀ kind' : TokenKind, kind'.isWord = false → kind ≠ kind' := by
    rintro _ plain rfl
    rw [plain] at word
    cases word
  unfold cut at h ⊢
  split at h
  · cases h
  split at h
  · rw [cutNumber_kind] at h
    exact absurd (PieceKind.token.inj h).symm (other _ rfl)
  split at h
  · next notBlank notDigit isLetter =>
    rw [if_neg notBlank, if_neg notDigit, if_pos isLetter]
    exact (PieceKind.token.inj h).symm
  split at h
  · exact absurd (cutString_kind h) (other _ rfl)
  split at h
  · exact absurd (cutSlash_kind h) (other _ rfl)
  split at h
  · next found =>
    exact absurd (PieceKind.token.inj h).symm (other _ (isWord_single found))
  · next found =>
    obtain ⟨plain, plain'⟩ := isWord_beforeEqual found
    rcases cutOperator_kind h with same | same
    · exact absurd same (other _ plain)
    · exact absurd same (other _ plain')
  · rw [cutStray_kind] at h
    cases h

/-- A piece of a source is a word only if it has the kind that its text says. -/
theorem pieces_word {source : List UInt8} {piece : Piece} (member : piece ∈ pieces source)
    {kind : TokenKind} (h : piece.kind = .token kind) (word : kind.isWord = true) :
    kind = wordKind piece.slice := by
  induction size : source.length using Nat.strongRecOn generalizing source with
  | ind n ih =>
    cases source with
    | nil =>
      rw [pieces_nil] at member
      cases member
    | cons b rest =>
      rw [pieces_cons] at member
      rcases List.mem_cons.1 member with rfl | member
      · exact cut_word h word
      · have shorter := length_cut_le b rest
        simp only [List.length_cons] at size
        exact ih _ (by omega) member rfl

/-- An item of a source is one of its pieces, or stands for the end. -/
theorem mem_itemsAfter {pieces : List Piece} {done : List Item} {line : Nat} {item : Item}
    (member : item ∈ itemsAfter done line pieces) :
    item ∈ done ∨ (∃ piece ∈ pieces, ∃ line, itemOf piece line = some item) ∨
      ∃ line, item = .ok (Token.eof line) := by
  induction pieces generalizing done line with
  | nil =>
    rw [itemsAfter, List.mem_reverse] at member
    rcases List.mem_cons.1 member with rfl | member
    · exact .inr (.inr ⟨_, rfl⟩)
    · exact .inl member
  | cons piece rest ih =>
    rw [itemsAfter] at member
    split at member
    · next found =>
      rcases ih member with known | ⟨piece', member', found'⟩ | last
      · rcases List.mem_cons.1 known with rfl | known
        · exact .inr (.inl ⟨piece, .head _, _, found⟩)
        · exact .inl known
      · exact .inr (.inl ⟨piece', .tail _ member', found'⟩)
      · exact .inr (.inr last)
    · rcases ih member with known | ⟨piece', member', found'⟩ | last
      · exact .inl known
      · exact .inr (.inl ⟨piece', .tail _ member', found'⟩)
      · exact .inr (.inr last)

theorem mem_tokens {items : List Item} {t : Token} : t ∈ tokens items ↔ .ok t ∈ items := by
  rw [tokens, List.mem_filterMap]
  constructor
  · rintro ⟨item, member, h⟩
    cases item with
    | error e => cases h
    | ok t' =>
      cases h
      exact member
  · exact fun member => ⟨_, member, rfl⟩

theorem spelled_of_mem_scan {source : List UInt8} {t : Token}
    (member : t ∈ tokens (scan source)) : t.Spelled := by
  intro word
  rcases mem_itemsAfter (mem_tokens.1 member) with none | ⟨piece, isPiece, line, h⟩ | ⟨line, h⟩
  · cases none
  · unfold itemOf at h
    split at h <;> cases h
    next kind => exact pieces_word isPiece kind word
  · cases h
    cases word

end Source

theorem TokenKind.mem_keywords {word : String} {kind : TokenKind}
    (h : TokenKind.keyword? word = some kind) : (word, kind) ∈ TokenKind.keywords := by
  obtain ⟨before, after, split, -⟩ := List.lookup_eq_some_iff.1 h
  rw [split]
  exact List.mem_append_right _ (.head _)

theorem TokenKind.keyword_ne_identifier :
    ∀ p ∈ TokenKind.keywords, p.2 ≠ .identifier := by decide

/-- An identifier is no keyword. -/
theorem Token.Spelled.identifier {t : Token} (h : t.Spelled) (kind : t.kind = .identifier) :
    TokenKind.keyword? t.lexeme = none := by
  have same := h (by rw [kind]; rfl)
  rw [kind] at same
  cases found : TokenKind.keyword? t.lexeme with
  | none => rfl
  | some other =>
    rw [found] at same
    exact absurd same.symm (TokenKind.keyword_ne_identifier _ (TokenKind.mem_keywords found))

/-- A keyword is written as the table says. -/
theorem Token.Spelled.keyword {t : Token} (h : t.Spelled) (word : t.kind.isWord = true)
    (kind : t.kind ≠ .identifier) : (t.lexeme, t.kind) ∈ TokenKind.keywords := by
  have same := h word
  cases found : TokenKind.keyword? t.lexeme with
  | none =>
    rw [found] at same
    exact absurd same kind
  | some other =>
    rw [found] at same
    rw [show t.kind = other from same]
    exact TokenKind.mem_keywords found

end Treewalk
