import Treewalk.Proofs.Source.Items

/-!
# Pieces and characters

Of a source that is text every piece ends between two characters: it ends with a byte that is a
character by itself, or before one that does not stand inside a character. So a piece has a text,
and the texts of the pieces, one after the other, are the text of the source.
-/

namespace Treewalk

/-- The text of a piece. -/
def Piece.text (p : Piece) : String := Utf8.decode p.slice

/-- A piece that may hold any text: a string or a comment, complete or not. -/
def PieceKind.holdsText : PieceKind → Bool
  | .comment | .token .string | .openString | .openComment => true
  | .blank | .token _ | .stray => false

namespace Source

open Utf8

/-- The bytes of characters. -/
abbrev bytesOf (cs : List Char) : List UInt8 := cs.flatMap String.utf8EncodeChar

/-- The characters of pieces. -/
def charsOf (ps : List Piece) : List Char := ps.flatMap (·.text.toList)

/-- The first byte of a character is no continuation byte, and all others are. Below 0x80 the first
byte is the only one. -/
theorem encodeChar_shape (c : Char) : ∃ b more, String.utf8EncodeChar c = b :: more ∧
    isContinuation b = false ∧ (∀ k ∈ more, isContinuation k = true) ∧
    (b < 0x80 ↔ c.toNat < 128) ∧ (b < 0x80 → more = []) := by
  have scalar := scalar_of_char c
  have same : c.val.toNat = c.toNat := rfl
  have single : ∀ n < 128, isContinuation (UInt8.ofNat n) = false ∧ UInt8.ofNat n < 0x80 := by
    decide +kernel
  have inside : ∀ n < 192, 128 ≤ n → isContinuation (UInt8.ofNat n) = true := by decide +kernel
  have leading : ∀ n < 256, 192 ≤ n → isContinuation (UInt8.ofNat n) = false ∧
      ¬ UInt8.ofNat n < 0x80 := by decide +kernel
  generalize c.toNat = v at scalar same
  unfold String.utf8EncodeChar
  simp only [same]
  split
  · next one =>
    obtain ⟨first, small⟩ := single v (by omega)
    exact ⟨_, _, rfl, first, nofun, iff_of_true small (by omega), fun _ => rfl⟩
  split
  · next more two =>
    obtain ⟨first, large⟩ := leading (v / 64 % 32 + 192) (by omega) (by omega)
    refine ⟨_, _, rfl, first, ?_, iff_of_false large (by omega), fun small => absurd small large⟩
    exact List.forall_mem_singleton.2 (inside _ (by omega) (by omega))
  split
  · next more more' three =>
    obtain ⟨first, large⟩ := leading (v / 4096 % 16 + 224) (by omega) (by omega)
    refine ⟨_, _, rfl, first, ?_, iff_of_false large (by omega), fun small => absurd small large⟩
    exact List.forall_mem_cons.2 ⟨inside _ (by omega) (by omega),
      List.forall_mem_singleton.2 (inside _ (by omega) (by omega))⟩
  · next more more' more'' =>
    obtain ⟨first, large⟩ := leading (v / 262144 % 8 + 240) (by omega) (by omega)
    refine ⟨_, _, rfl, first, ?_, iff_of_false large (by omega), fun small => absurd small large⟩
    exact List.forall_mem_cons.2 ⟨inside _ (by omega) (by omega),
      List.forall_mem_cons.2 ⟨inside _ (by omega) (by omega),
        List.forall_mem_singleton.2 (inside _ (by omega) (by omega))⟩⟩

/-- Text never begins inside a character. -/
theorem head_bytesOf (cs : List Char) : ∀ b ∈ (bytesOf cs).head?, isContinuation b = false := by
  cases cs with
  | nil => exact nofun
  | cons c cs =>
    obtain ⟨b, more, bytes, first, -⟩ := encodeChar_shape c
    rw [bytesOf, List.flatMap_cons, bytes]
    rintro _ ⟨⟩
    exact first

/-- Bytes of text that are cut before no continuation byte are cut between two characters. -/
theorem split_characters {cs : List Char} {before after : List UInt8}
    (whole : bytesOf cs = before ++ after)
    (boundary : ∀ b ∈ after.head?, isContinuation b = false) :
    ∃ cs₁ cs₂, cs = cs₁ ++ cs₂ ∧ bytesOf cs₁ = before ∧ bytesOf cs₂ = after := by
  induction cs generalizing before with
  | nil =>
    obtain ⟨rfl, rfl⟩ := List.append_eq_nil_iff.1 whole.symm
    exact ⟨[], [], rfl, rfl, rfl⟩
  | cons c cs ih =>
    obtain ⟨b, more, bytes, -, inside, -⟩ := encodeChar_shape c
    cases before with
    | nil => exact ⟨[], c :: cs, rfl, rfl, whole⟩
    | cons b' before =>
      have first : bytesOf (c :: cs) = b :: (more ++ bytesOf cs) := by
        rw [bytesOf, List.flatMap_cons, bytes, List.cons_append]
      rw [first, List.cons_append] at whole
      obtain ⟨rfl, others⟩ := List.cons.inj whole
      rcases List.append_eq_append_iff.1 others with ⟨more', rfl, rest⟩ | ⟨early, split, rest⟩
      · obtain ⟨cs₁, cs₂, rfl, left, right⟩ := ih rest
        refine ⟨c :: cs₁, cs₂, rfl, ?_, right⟩
        rw [bytesOf, List.flatMap_cons, bytes, List.cons_append, ← left]
      · cases early with
        | nil =>
          rw [List.append_nil] at split
          refine ⟨[c], cs, rfl, ?_, rest.symm⟩
          rw [bytesOf, List.flatMap_singleton, bytes, split]
        | cons k early =>
          -- The cut would be inside of `c`.
          have cut := inside k (by rw [split]; exact List.mem_append_right _ (.head _))
          rw [boundary k (by rw [rest]; rfl)] at cut
          cases cut

/-- Behind a byte that is a character by itself no continuation byte stands. -/
theorem boundary_of_ascii {cs : List Char} {before after : List UInt8} {b : UInt8}
    (whole : bytesOf cs = before ++ b :: after) (ascii : b < 0x80) :
    ∀ k ∈ after.head?, isContinuation k = false := by
  have alone : isContinuation b = false := by
    rw [isContinuation, Bool.and_eq_false_iff]
    exact .inl (decide_eq_false (UInt8.not_le.2 ascii))
  obtain ⟨cs₁, cs₂, rfl, -, right⟩ := split_characters whole fun _ first => by
    cases first
    exact alone
  cases cs₂ with
  | nil => cases right
  | cons c cs =>
    obtain ⟨b', more, bytes, -, -, -, short⟩ := encodeChar_shape c
    rw [bytesOf, List.flatMap_cons, bytes, List.cons_append] at right
    obtain ⟨rfl, rfl⟩ := List.cons.inj right
    rw [short ascii]
    exact head_bytesOf cs

/-- A token that is no string is made of bytes that are characters by themselves. -/
theorem Rule.ascii {text : List UInt8} {kind : TokenKind} (h : Rule text kind)
    (notString : kind ≠ .string) : ∀ b ∈ text, b < 0x80 := by
  have operators' : ∀ p ∈ operators, ∀ b ∈ p.1, b < 0x80 := by decide +kernel
  have digits {bytes : List UInt8} (all : ∀ b ∈ bytes, isDigit b = true) :
      ∀ b ∈ bytes, b < 0x80 :=
    fun b member => isWordByte_lt (isWordByte_of_isDigit (all b member))
  have word {b : UInt8} {more : List UInt8} (letter : isLetter b = true)
      (all : ∀ c ∈ more, isWordByte c = true) : ∀ c ∈ b :: more, c < 0x80 :=
    List.forall_mem_cons.2 ⟨isWordByte_lt (isWordByte_of_isLetter letter),
      fun c member => isWordByte_lt (all c member)⟩
  cases h with
  | whole _ all => exact digits all
  | fraction _ all _ all' =>
    intro b member
    rcases List.mem_append.1 member with whole | part
    · exact digits all b whole
    rcases List.mem_cons.1 part with rfl | part
    · decide
    · exact digits all' b part
  | keyword entry =>
    have isWord := keywordTexts_isWord _ entry
    cases text with
    | nil => exact isWord.elim
    | cons b more => exact word isWord.1 isWord.2
  | identifier letter all _ => exact word letter all
  | string => exact absurd rfl notString
  | operator entry => exact operators' _ entry

/-- A string begins and ends with a quote. -/
theorem Rule.string_shape {text : List UInt8} (h : Rule text .string) :
    ∃ inside, text = byte '"' :: (inside ++ [byte '"']) := by
  have keywords : ∀ p ∈ keywordTexts, p.2 ≠ .string := by decide +kernel
  have operators' : ∀ p ∈ operators, p.2 ≠ .string := by decide
  generalize same : TokenKind.string = kind at h
  cases h with
  | whole | fraction | identifier => cases same
  | keyword entry => exact absurd same.symm (keywords _ entry)
  | string => exact ⟨_, rfl⟩
  | operator entry => exact absurd same.symm (operators' _ entry)

/-- A token ends with a byte that is a character by itself. -/
theorem Rule.last_ascii {text : List UInt8} {kind : TokenKind} (h : Rule text kind) :
    ∃ before b, text = before ++ [b] ∧ b < 0x80 := by
  by_cases isString : kind = .string
  · subst isString
    obtain ⟨inside, rfl⟩ := h.string_shape
    exact ⟨byte '"' :: inside, byte '"', rfl, by decide⟩
  · refine ⟨text.dropLast, text.getLast h.ne_nil, (List.dropLast_concat_getLast _).symm, ?_⟩
    exact h.ascii isString _ (List.getLast_mem _)

/-- A piece of text ends between two characters. -/
theorem Munched.split {piece : Piece} {after : List UInt8} (h : Munched piece after)
    {cs : List Char} (whole : bytesOf cs = piece.slice ++ after) :
    ∃ cs₁ cs₂, cs = cs₁ ++ cs₂ ∧ bytesOf cs₁ = piece.slice ∧ bytesOf cs₂ = after := by
  have behind (before : List UInt8) {b : UInt8} (ends : piece.slice = before ++ [b])
      (ascii : b < 0x80) :
      ∃ cs₁ cs₂, cs = cs₁ ++ cs₂ ∧ bytesOf cs₁ = piece.slice ∧ bytesOf cs₂ = after := by
    have around : bytesOf cs = before ++ b :: after := by
      rw [whole, ends, List.append_assoc]
      rfl
    exact split_characters whole (boundary_of_ascii around ascii)
  cases h with
  | @blank b _ blank =>
    have ascii : ∀ b, isBlank b = true → b < 0x80 := forall_byte (by decide +kernel)
    exact behind [] rfl (ascii b blank)
  | lineComment _ ends =>
    refine split_characters whole ?_
    rcases ends with rfl | ⟨more, rfl⟩
    · exact nofun
    · rintro _ ⟨⟩
      rfl
  | @blockComment body _ _ =>
    exact behind (byte '/' :: byte '*' :: (body ++ [byte '*'])) (b := byte '/')
      (by simp) (by decide)
  | token longest =>
    obtain ⟨before, b, ends, ascii⟩ := longest.rule.last_ascii
    exact behind before ends ascii
  | openString | openComment => exact split_characters whole nofun
  | @stray b more _ _ _ _ _ short _ ends =>
    by_cases ascii : b < 0x80
    · exact behind [] (by rw [short ascii]; rfl) ascii
    · exact split_characters whole (ends (UInt8.not_lt.1 ascii))

/-- Of pieces that make up a text each one is written back from its text, and their texts make up
that text. -/
theorem AllMunched.texts {ps : List Piece} (h : AllMunched ps) {cs : List Char}
    (whole : bytesOf cs = ps.flatMap Piece.slice) :
    (∀ p ∈ ps, encode p.text = p.slice) ∧ charsOf ps = cs := by
  induction h generalizing cs with
  | nil =>
    cases cs with
    | nil => exact ⟨nofun, rfl⟩
    | cons c cs =>
      obtain ⟨b, more, bytes, -⟩ := encodeChar_shape c
      rw [bytesOf, List.flatMap_cons, bytes] at whole
      cases whole
  | @cons p ps first _ ih =>
    obtain ⟨cs₁, cs₂, rfl, left, right⟩ := first.split whole
    obtain ⟨written, texts⟩ := ih right
    have text : p.text = String.ofList cs₁ := by
      rw [Piece.text, ← left]
      exact (congrArg decode (congrArg bytesOf String.toList_ofList.symm)).trans (decode_encode _)
    refine ⟨List.forall_mem_cons.2 ⟨?_, written⟩, ?_⟩
    · rw [text, encode, String.toList_ofList]
      exact left
    · rw [charsOf, List.flatMap_cons, ← charsOf, texts, text, String.toList_ofList]

/-- A character of several bytes stands in a string or a comment, or it is a whole piece that is
none of the tokens. -/
theorem Munched.foreign {piece : Piece} {after : List UInt8} (h : Munched piece after)
    (text : encode piece.text = piece.slice) {c : Char} (member : c ∈ piece.text.toList)
    (foreign : 128 ≤ c.toNat) :
    piece.kind.holdsText = true ∨ piece.kind = .stray ∧ piece.text.toList = [c] := by
  obtain ⟨b, more, bytes, first, inside, ascii, -⟩ := encodeChar_shape c
  have long : ¬ b < 0x80 := fun small => absurd (ascii.1 small) (Nat.not_lt.2 foreign)
  have stands : b ∈ piece.slice := by
    rw [← text]
    exact List.mem_flatMap.2 ⟨c, member, by rw [bytes]; exact .head _⟩
  cases h with
  | @blank b' _ blank =>
    have ascii' : ∀ b, isBlank b = true → b < 0x80 := forall_byte (by decide +kernel)
    rw [List.mem_singleton.1 stands] at long
    exact absurd (ascii' b' blank) long
  | lineComment | blockComment | openString | openComment => exact .inl rfl
  | @token slice _ kind longest =>
    by_cases isString : kind = .string
    · subst isString
      exact .inl rfl
    · exact absurd (longest.rule.ascii isString b stands) long
  | @stray b' more' _ _ _ _ _ _ inside' _ =>
    refine .inr ⟨rfl, ?_⟩
    -- All bytes behind the first one are continuation bytes, so there is no second character.
    generalize (⟨.stray, b' :: more'⟩ : Piece).text = s at text member
    rw [encode] at text
    cases chars : s.toList with
    | nil =>
      rw [chars] at member
      cases member
    | cons d ds =>
      obtain ⟨k, ks, bytes', -⟩ := encodeChar_shape d
      rw [chars, List.flatMap_cons, bytes', List.cons_append] at text
      obtain ⟨rfl, rest⟩ := List.cons.inj text
      cases ds with
      | nil =>
        rw [chars] at member
        rw [List.mem_singleton.1 member]
      | cons d' ds =>
        obtain ⟨k', ks', bytes'', first', -⟩ := encodeChar_shape d'
        have continued := inside' k' (by
          rw [← rest, List.flatMap_cons, bytes'']
          exact List.mem_append_right _ (.head _))
        rw [first'] at continued
        cases continued

end Source

end Treewalk
