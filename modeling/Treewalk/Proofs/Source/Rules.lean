import Mathlib.Data.List.TakeWhile
import Treewalk.Proofs.Source.Words
import Treewalk.Proofs.Text.Utf8

/-!
# The rules of tokens

What a token may look like, said of bytes alone and without a scanner. `Rule` holds of a slice and
the kind of token that it is; `Longest` of the longest slice at the beginning of a source that is a
token there. How the rules begin tells them apart.
-/

namespace Treewalk.Source

/-- The tokens that are neither words nor literals. -/
def operators : List (List UInt8 × TokenKind) :=
  [([byte '('], .leftParen), ([byte ')'], .rightParen), ([byte '{'], .leftBrace),
    ([byte '}'], .rightBrace), ([byte ','], .comma), ([byte '.'], .dot), ([byte '-'], .minus),
    ([byte '+'], .plus), ([byte ';'], .semicolon), ([byte '*'], .star), ([byte '/'], .slash),
    ([byte '!'], .bang), ([byte '!', byte '='], .bangEqual), ([byte '='], .equal),
    ([byte '=', byte '='], .equalEqual), ([byte '<'], .less), ([byte '<', byte '='], .lessEqual),
    ([byte '>'], .greater), ([byte '>', byte '='], .greaterEqual)]

/-- The sixteen keywords as bytes. -/
def keywordTexts : List (List UInt8 × TokenKind) :=
  TokenKind.keywords.map fun p => (Utf8.encode p.1, p.2)

/-- The slice is a token of this kind. -/
inductive Rule : List UInt8 → TokenKind → Prop
  | whole {digits : List UInt8} (some : digits ≠ []) (all : ∀ b ∈ digits, isDigit b = true) :
    Rule digits .number
  | fraction {digits more : List UInt8} (some : digits ≠ []) (all : ∀ b ∈ digits, isDigit b = true)
    (some' : more ≠ []) (all' : ∀ b ∈ more, isDigit b = true) :
    Rule (digits ++ byte '.' :: more) .number
  | keyword {text : List UInt8} {kind : TokenKind} (entry : (text, kind) ∈ keywordTexts) :
    Rule text kind
  | identifier {b : UInt8} {more : List UInt8} (letter : isLetter b = true)
    (all : ∀ c ∈ more, isWordByte c = true) (plain : ∀ kind, (b :: more, kind) ∉ keywordTexts) :
    Rule (b :: more) .identifier
  | string {inside : List UInt8} (closed : byte '"' ∉ inside) :
    Rule (byte '"' :: (inside ++ [byte '"'])) .string
  | operator {text : List UInt8} {kind : TokenKind} (entry : (text, kind) ∈ operators) :
    Rule text kind

/-- A source begins with this token: a slash is one only if it begins no comment. -/
structure Begins (source text : List UInt8) (kind : TokenKind) : Prop where
  rule : Rule text kind
  start : text <+: source
  slash : text = [byte '/'] →
    ¬ [byte '/', byte '/'] <+: source ∧ ¬ [byte '/', byte '*'] <+: source

/-- A source begins with this token and with no longer one. -/
structure Longest (source text : List UInt8) (kind : TokenKind) : Prop extends
    Begins source text kind where
  longest : ∀ text' kind', Begins source text' kind' → text'.length ≤ text.length

/-- The bytes of a keyword or an identifier. -/
def IsWord : List UInt8 → Prop
  | [] => False
  | b :: more => isLetter b = true ∧ ∀ c ∈ more, isWordByte c = true

instance (text : List UInt8) : Decidable (IsWord text) :=
  match text with
  | [] => inferInstanceAs (Decidable False)
  | _ :: _ => inferInstanceAs (Decidable (_ ∧ _))

theorem keywordTexts_isWord : ∀ p ∈ keywordTexts, IsWord p.1 := by decide +kernel

/-- How an operator begins: with no digit, letter or blank and with no quote. -/
theorem operators_begin : ∀ p ∈ operators, ∃ b more, p.1 = b :: more ∧ isBlank b = false ∧
    isDigit b = false ∧ isLetter b = false ∧ b ≠ byte '"' := by
  simp only [operators, List.forall_mem_cons, List.not_mem_nil, false_implies, implies_true]
  refine ⟨?_, ?_, ?_, ?_, ?_, ?_, ?_, ?_, ?_, ?_, ?_, ?_, ?_, ?_, ?_, ?_, ?_, ?_, ?_, trivial⟩ <;>
    exact ⟨_, _, rfl, by decide⟩

/-- A fact about all bytes is a fact about 256 of them. -/
theorem forall_byte {p : UInt8 → Prop} (h : ∀ n, n < 256 → p (UInt8.ofNat n)) (b : UInt8) :
    p b := by
  have at_ := h b.toNat b.toNat_lt
  rwa [UInt8.ofNat_toNat] at at_

theorem isLetter_of_isDigit {b : UInt8} (h : isDigit b = true) : isLetter b = false :=
  forall_byte (p := fun b => isDigit b = true → isLetter b = false) (by decide +kernel) b h

/-- What begins a number, a word or a string is no blank and no slash. -/
theorem not_blank_of_isWordByte {b : UInt8} (h : isWordByte b = true) :
    isBlank b = false ∧ b ≠ byte '"' ∧ b ≠ byte '/' :=
  forall_byte
    (p := fun b => isWordByte b = true → isBlank b = false ∧ b ≠ byte '"' ∧ b ≠ byte '/')
    (by decide +kernel) b h

theorem isWordByte_of_isDigit {b : UInt8} (h : isDigit b = true) : isWordByte b = true := by
  rw [isWordByte, h, Bool.or_true]

theorem isWordByte_of_isLetter {b : UInt8} (h : isLetter b = true) : isWordByte b = true := by
  rw [isWordByte, h, Bool.true_or]

/-- The four sorts of tokens, by how they begin. -/
inductive Beginning (b : UInt8) (more : List UInt8) (kind : TokenKind) : Prop
  | number (digit : isDigit b = true) (is : kind = .number)
  | word (letter : isLetter b = true) (all : ∀ c ∈ more, isWordByte c = true)
  | string (quote : b = byte '"') (is : kind = .string) {inside : List UInt8}
    (closed : byte '"' ∉ inside) (ends : more = inside ++ [byte '"'])
  | operator (entry : (b :: more, kind) ∈ operators)

theorem Rule.ne_nil {text : List UInt8} {kind : TokenKind} (h : Rule text kind) : text ≠ [] := by
  cases h with
  | whole some _ => exact some
  | fraction => simp
  | keyword entry =>
    intro same
    have word := keywordTexts_isWord _ entry
    rw [same] at word
    exact word
  | identifier | string => exact List.cons_ne_nil _ _
  | operator entry =>
    obtain ⟨b, more, same, -⟩ := operators_begin _ entry
    intro none
    rw [none] at same
    cases same

variable {b : UInt8} {more : List UInt8} {kind kind' : TokenKind}

theorem Rule.beginning (h : Rule (b :: more) kind) : Beginning b more kind := by
  generalize same : b :: more = text at h
  cases h with
  | whole some all =>
    subst same
    exact .number (all b (.head _)) rfl
  | @fraction digits part some all =>
    cases digits with
    | nil => exact absurd rfl some
    | cons d ds =>
      cases same
      exact .number (all b (.head _)) rfl
  | keyword entry =>
    subst same
    obtain ⟨letter, all⟩ := keywordTexts_isWord _ entry
    exact .word letter all
  | identifier letter all _ =>
    cases same
    exact .word letter all
  | string closed =>
    cases same
    exact .string rfl rfl closed rfl
  | operator entry =>
    subst same
    exact .operator entry

theorem operator_begins (entry : (b :: more, kind) ∈ operators) :
    isBlank b = false ∧ isDigit b = false ∧ isLetter b = false ∧ b ≠ byte '"' := by
  obtain ⟨b', more', same, facts⟩ := operators_begin _ entry
  cases same
  exact facts

/-- No token begins with a blank. -/
theorem Rule.notBlank (h : Rule (b :: more) kind) : isBlank b = false := by
  cases h.beginning with
  | number digit _ => exact (not_blank_of_isWordByte (isWordByte_of_isDigit digit)).1
  | word letter _ => exact (not_blank_of_isWordByte (isWordByte_of_isLetter letter)).1
  | string quote _ _ _ =>
    subst quote
    rfl
  | operator entry => exact (operator_begins entry).1

/-- A token that begins with a digit is a number. -/
theorem Rule.of_digit (h : Rule (b :: more) kind) (digit : isDigit b = true) : kind = .number := by
  cases h.beginning with
  | number _ is => exact is
  | word letter _ =>
    rw [isLetter_of_isDigit digit] at letter
    cases letter
  | string quote _ _ _ =>
    subst quote
    cases digit
  | operator entry =>
    rw [(operator_begins entry).2.1] at digit
    cases digit

/-- A token that begins with a letter is a word. -/
theorem Rule.of_letter (h : Rule (b :: more) kind) (letter : isLetter b = true) :
    ∀ c ∈ more, isWordByte c = true := by
  cases h.beginning with
  | number digit _ =>
    rw [isLetter_of_isDigit digit] at letter
    cases letter
  | word _ all => exact all
  | string quote _ _ _ =>
    subst quote
    cases letter
  | operator entry =>
    rw [(operator_begins entry).2.2.1] at letter
    cases letter

/-- A token that begins with a quote is a string, and ends at the next quote. -/
theorem Rule.of_quote (h : Rule (byte '"' :: more) kind) :
    kind = .string ∧ ∃ inside, byte '"' ∉ inside ∧ more = inside ++ [byte '"'] := by
  cases h.beginning with
  | number digit _ => cases digit
  | word letter _ => cases letter
  | string _ is closed ends => exact ⟨is, _, closed, ends⟩
  | operator entry => exact absurd rfl (operator_begins entry).2.2.2

/-- A token that begins in no other way is an operator. -/
theorem Rule.of_other (h : Rule (b :: more) kind) (digit : isDigit b = false)
    (letter : isLetter b = false) (quote : b ≠ byte '"') : (b :: more, kind) ∈ operators := by
  cases h.beginning with
  | number isDigit _ =>
    rw [digit] at isDigit
    cases isDigit
  | word isLetter _ =>
    rw [letter] at isLetter
    cases isLetter
  | string same _ _ _ => exact absurd same quote
  | operator entry => exact entry

theorem keywordTexts_unique : ∀ p ∈ keywordTexts, ∀ q ∈ keywordTexts, p.1 = q.1 → p.2 = q.2 := by
  decide +kernel

theorem operators_unique : ∀ p ∈ operators, ∀ q ∈ operators, p.1 = q.1 → p.2 = q.2 := by
  decide

/-- A word is the keyword that the table says, and otherwise an identifier. -/
theorem Rule.word_kind {text : List UInt8} (h : Rule text kind) (word : IsWord text) :
    (text, kind) ∈ keywordTexts ∨ kind = .identifier ∧ ∀ other, (text, other) ∉ keywordTexts := by
  have ne := h.ne_nil
  cases text with
  | nil => exact absurd rfl ne
  | cons b more =>
    obtain ⟨letter, all⟩ := word
    generalize same : b :: more = text at h
    cases h with
    | whole some all =>
      subst same
      rw [isLetter_of_isDigit (all b (.head _))] at letter
      cases letter
    | @fraction digits part some figures =>
      cases digits with
      | nil => exact absurd rfl some
      | cons d ds =>
        cases same
        rw [isLetter_of_isDigit (figures b (.head _))] at letter
        cases letter
    | keyword entry => exact .inl entry
    | identifier _ _ plain => exact .inr ⟨rfl, plain⟩
    | string =>
      cases same
      cases letter
    | operator entry =>
      subst same
      rw [(operator_begins entry).2.2.1] at letter
      cases letter

/-- What kind of token a slice is its bytes say. -/
theorem Rule.kind_unique {text : List UInt8} (h : Rule text kind) (h' : Rule text kind') :
    kind = kind' := by
  cases text with
  | nil => exact absurd rfl h.ne_nil
  | cons b more =>
    by_cases digit : isDigit b = true
    · rw [h.of_digit digit, h'.of_digit digit]
    by_cases letter : isLetter b = true
    · have word : IsWord (b :: more) := ⟨letter, h.of_letter letter⟩
      rcases h.word_kind word with entry | ⟨rfl, plain⟩
      · rcases h'.word_kind word with entry' | ⟨-, plain'⟩
        · exact keywordTexts_unique _ entry _ entry' rfl
        · exact absurd entry (plain' kind)
      · rcases h'.word_kind word with entry' | ⟨rfl, -⟩
        · exact absurd entry' (plain kind')
        · rfl
    by_cases quote : b = byte '"'
    · subst quote
      rw [h.of_quote.1, h'.of_quote.1]
    have entry := h.of_other (by simpa using digit) (by simpa using letter) quote
    have entry' := h'.of_other (by simpa using digit) (by simpa using letter) quote
    exact operators_unique _ entry _ entry' rfl

/-- Of two longest tokens at one place both are the same. -/
theorem Longest.unique {source text text' : List UInt8} (h : Longest source text kind)
    (h' : Longest source text' kind') : text = text' ∧ kind = kind' := by
  have size : text.length = text'.length := by
    have := h.longest _ _ h'.toBegins
    have := h'.longest _ _ h.toBegins
    omega
  have same : text = text' := by
    have inside := List.prefix_of_prefix_length_le h.start h'.start (Nat.le_of_eq size)
    exact inside.eq_of_length size
  subst same
  exact ⟨rfl, h.rule.kind_unique h'.rule⟩

theorem keywordTexts_kind : ∀ p ∈ keywordTexts, p.2 ≠ .number := by decide +kernel

theorem operators_kind : ∀ p ∈ operators, p.2 ≠ .number := by decide

/-- A number is digits, perhaps with a point and more digits behind it. -/
theorem Rule.number_shape {text : List UInt8} (h : Rule text .number) :
    (∀ b ∈ text, isDigit b = true) ∨
      ∃ digits part, text = digits ++ byte '.' :: part ∧ (∀ b ∈ digits, isDigit b = true) ∧
        part ≠ [] ∧ ∀ b ∈ part, isDigit b = true := by
  generalize same : TokenKind.number = kind at h
  cases h with
  | whole _ all => exact .inl all
  | fraction _ all some all' => exact .inr ⟨_, _, rfl, all, some, all'⟩
  | keyword entry => exact absurd same.symm (keywordTexts_kind _ entry)
  | identifier | string => cases same
  | operator entry => exact absurd same.symm (operators_kind _ entry)

theorem keyword?_of_mem : ∀ p ∈ TokenKind.keywords, TokenKind.keyword? p.1 = some p.2 := by decide

theorem isWordByte_lt {b : UInt8} (h : isWordByte b = true) : b < 0x80 :=
  forall_byte (p := fun b => isWordByte b = true → b < 0x80) (by decide +kernel) b h

/-- The kind that the table of keywords gives to a word. -/
theorem rule_wordKind {text : List UInt8} (word : IsWord text) : Rule text (wordKind text) := by
  cases text with
  | nil => exact absurd word not_false
  | cons b more =>
    obtain ⟨letter, all⟩ := word
    cases found : TokenKind.keyword? (Utf8.decode (b :: more)) with
    | some kind =>
      have ascii : ∀ c ∈ b :: more, c < 0x80 := by
        intro c member
        rcases List.mem_cons.1 member with rfl | member
        · exact isWordByte_lt (isWordByte_of_isLetter letter)
        · exact isWordByte_lt (all c member)
      rw [wordKind, found]
      apply Rule.keyword
      have entry := List.mem_map_of_mem (f := fun p => (Utf8.encode p.1, p.2))
        (TokenKind.mem_keywords found)
      rwa [Utf8.encode_decode ascii] at entry
    | none =>
      rw [wordKind, found]
      apply Rule.identifier letter all
      intro kind entry
      obtain ⟨⟨name, kind'⟩, member, same⟩ := List.mem_map.1 entry
      have text : Utf8.encode name = b :: more := congrArg Prod.fst same
      rw [← text, Utf8.decode_encode, keyword?_of_mem _ member] at found
      cases found

/-- How an operator is recognised: by its first byte, and by an equals sign behind it. -/
def OperatorCut : List UInt8 → TokenKind → Prop
  | [b], kind => b = byte '/' ∧ kind = .slash ∨ single? b = some kind ∨
    single? b = none ∧ (beforeEqual? b).map Prod.fst = some kind
  | [b, next], kind => next = byte '=' ∧ single? b = none ∧
    (beforeEqual? b).map Prod.snd = some kind
  | _, _ => False

instance : (text : List UInt8) → (kind : TokenKind) → Decidable (OperatorCut text kind)
  | [], _ => inferInstanceAs (Decidable False)
  | [_], _ => inferInstanceAs (Decidable (_ ∨ _ ∨ _))
  | [_, _], _ => inferInstanceAs (Decidable (_ ∧ _ ∧ _))
  | _ :: _ :: _ :: _, _ => inferInstanceAs (Decidable False)

theorem operators_cut : ∀ p ∈ operators, OperatorCut p.1 p.2 := by decide +kernel

theorem single_entry {b : UInt8} {kind : TokenKind} (h : single? b = some kind) :
    ([b], kind) ∈ operators :=
  forall_byte (p := fun b => ∀ kind ∈ single? b, ([b], kind) ∈ operators)
    (by decide +kernel) b kind h

theorem beforeEqual_entry {b : UInt8} {alone withEqual : TokenKind}
    (h : beforeEqual? b = some (alone, withEqual)) :
    ([b], alone) ∈ operators ∧ ([b, byte '='], withEqual) ∈ operators :=
  forall_byte
    (p := fun b => ∀ q ∈ beforeEqual? b, ([b], q.1) ∈ operators ∧ ([b, byte '='], q.2) ∈ operators)
    (by decide +kernel) b (alone, withEqual) h

end Treewalk.Source
