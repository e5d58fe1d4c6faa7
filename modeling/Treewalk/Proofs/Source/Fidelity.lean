import Treewalk.Proofs.Batches.Single
import Treewalk.Proofs.Run.Carrier
import Treewalk.Proofs.Source.Characters

/-!
# What a source of text shows

Of a source that is text nothing is cut inside a character. So what a token or an error shows of the
source stands in it as it is shown, a character of several bytes that stands neither in a string
nor in a comment is one error, and what a string holds is printed byte for byte.
-/

namespace Treewalk

namespace Source

open Utf8

/-- The texts that an item shows of its source. -/
def Item.shown : Item → List String
  | .ok ⟨_, lexeme, some (.text s), _⟩ => [lexeme, s]
  | .ok t => [t.lexeme]
  | .error ⟨.unexpectedCharacter text, _⟩ => [text]
  | .error _ => []

theorem bytesOf_decode {source : List UInt8} (valid : Utf8.valid source = true) :
    bytesOf (decode source).toList = source := by
  rw [decode, String.toList_ofList]
  exact eq_of_beq valid

/-- Valid bytes are those of a text. -/
theorem valid_iff {source : List UInt8} :
    Utf8.valid source = true ↔ ∃ text, source = encode text := by
  constructor
  · exact fun valid => ⟨decode source, (bytesOf_decode valid).symm⟩
  · rintro ⟨text, rfl⟩
    rw [Utf8.valid, beq_iff_eq, encode, foldl_step_encode, Decoder.finish, List.append_nil,
      List.reverse_reverse]

theorem charsOf_append (ps qs : List Piece) : charsOf (ps ++ qs) = charsOf ps ++ charsOf qs :=
  List.flatMap_append

/-- The text of each piece stands in the text of all. -/
theorem text_within {ps : List Piece} {p : Piece} (member : p ∈ ps) :
    p.text.toList <:+: charsOf ps := by
  obtain ⟨before, after, rfl⟩ := List.append_of_mem member
  exact ⟨charsOf before, charsOf after, by rw [charsOf_append]; simp [charsOf]⟩

/-- A character of pieces stands in one of them. -/
theorem mem_piece {ps : List Piece} {before after : List Char} {c : Char}
    (whole : charsOf ps = before ++ c :: after) :
    ∃ earlier p later left right, ps = earlier ++ p :: later ∧
      p.text.toList = left ++ c :: right ∧ before = charsOf earlier ++ left ∧
      after = right ++ charsOf later := by
  induction ps generalizing before with
  | nil => cases before <;> cases whole
  | cons p ps ih =>
    have both : p.text.toList ++ charsOf ps = before ++ c :: after := whole
    rcases List.append_eq_append_iff.1 both with ⟨more, rfl, rest⟩ | ⟨right, text, rest⟩
    · obtain ⟨earlier, p', later, left, right, rfl, text, rfl, rfl⟩ := ih rest
      exact ⟨p :: earlier, p', later, left, right, rfl, text, (List.append_assoc ..).symm, rfl⟩
    · cases right with
      | nil =>
        obtain ⟨earlier, p', later, left, right, rfl, text', before', rfl⟩ :=
          @ih [] rest.symm
        obtain ⟨none, rfl⟩ := List.append_eq_nil_iff.1 before'.symm
        refine ⟨p :: earlier, p', later, [], right, rfl, text', ?_, rfl⟩
        rw [List.append_nil] at text
        rw [List.append_nil, charsOf, List.flatMap_cons, ← charsOf, none, List.append_nil, text]
      | cons c' right =>
        obtain ⟨rfl, rfl⟩ := List.cons.inj rest
        exact ⟨[], p, ps, before, right, rfl, text, rfl, rfl⟩

/-- What stands between two quotes of a text is text. -/
theorem between_quotes {cs : List Char} {inside : List UInt8}
    (whole : bytesOf cs = byte '"' :: (inside ++ [byte '"'])) :
    (decode inside).toList <:+: cs := by
  have quote : (byte '"') < 0x80 := by decide
  have opened : bytesOf cs = [] ++ byte '"' :: (inside ++ [byte '"']) := whole
  have behind : bytesOf cs = [byte '"'] ++ (inside ++ [byte '"']) := whole
  obtain ⟨before, cs', rfl, -, right⟩ := split_characters behind (boundary_of_ascii opened quote)
  obtain ⟨held, after, rfl, left, -⟩ := split_characters right (by rintro _ ⟨⟩; rfl)
  have text : decode inside = String.ofList held := by
    rw [← left]
    exact (congrArg decode (congrArg bytesOf String.toList_ofList.symm)).trans (decode_encode _)
  rw [text, String.toList_ofList]
  exact ⟨before, after, List.append_assoc ..⟩

/-- What the item of a piece shows stands in the text of the piece. -/
theorem Munched.shown {p : Piece} {after : List UInt8} (h : Munched p after)
    (text : encode p.text = p.slice) {line : Nat} {item : Item} (is : itemOf p line = some item) :
    ∀ s ∈ item.shown, s.toList <:+: p.text.toList := by
  cases h with
  | blank | lineComment | blockComment => cases is
  | openString | openComment =>
    cases is
    exact nofun
  | stray =>
    cases is
    exact List.forall_mem_singleton.2 (List.infix_refl _)
  | @token slice _ kind longest =>
    cases is
    by_cases isString : kind = .string
    · subst isString
      obtain ⟨inside, rfl⟩ := longest.rule.string_shape
      refine List.forall_mem_cons.2 ⟨List.infix_refl _, List.forall_mem_singleton.2 ?_⟩
      rw [List.drop_one, List.tail_cons, List.dropLast_concat]
      exact between_quotes text
    · have noText : Item.shown (.ok ⟨kind, decode slice, literalOf kind slice, line⟩) =
          [decode slice] := by
        cases kind <;> first | rfl | exact absurd rfl isString
      rw [noText]
      exact List.forall_mem_singleton.2 (List.infix_refl _)

theorem mem_itemsFrom {ps : List Piece} {line : Nat} {item : Item}
    (member : item ∈ itemsFrom line ps) : ∃ p ∈ ps, ∃ line', itemOf p line' = some item := by
  induction ps generalizing line with
  | nil => cases member
  | cons p ps ih =>
    rcases List.mem_append.1 member with here | later
    · exact ⟨p, .head _, _, Option.mem_toList.1 here⟩
    · obtain ⟨p', member', line', is⟩ := ih later
      exact ⟨p', .tail _ member', line', is⟩

/-- An error shows no replacement character but one of its source. -/
theorem replacement_of_message {e : LexicalError} (h : replacement ∈ e.message.toList) :
    ∃ s ∈ Item.shown (.error e), replacement ∈ s.toList := by
  obtain ⟨cause, line⟩ := e
  cases cause with
  | unexpectedCharacter text =>
    have fixed : replacement ∉ "Unexpected character: ".toList := by decide
    rw [LexicalError.message, String.toList_append, List.mem_append] at h
    exact ⟨text, .head _, h.resolve_left fixed⟩
  | unterminatedString =>
    exact absurd h (by decide : replacement ∉ "Unterminated string.".toList)
  | unterminatedComment =>
    exact absurd h (by decide : replacement ∉ "Unterminated block comment.".toList)

/-- A piece that is none of the tokens, of one character, is one error among the items. -/
theorem scan_stray {source : List UInt8} {earlier later : List Piece} {p : Piece}
    (split : pieces source = earlier ++ p :: later) (stray : p.kind = .stray) :
    ∃ line, scan source = itemsFrom 1 earlier ++ .error ⟨.unexpectedCharacter p.text, line⟩ ::
      (itemsFrom line later ++ [.ok (Token.eof (1 + linesIn source))]) := by
  obtain ⟨kind, slice⟩ := p
  cases stray
  refine ⟨1 + linesIn (earlier.flatMap Piece.slice) + linesIn slice, ?_⟩
  rw [scan_eq, split, itemsFrom_append, List.append_assoc]
  rfl

end Source

open Run

theorem write_of_taken {m : Machine} {piece : String}
    (taken : m.sink.refusal m.sink.written piece = none) :
    write piece m = .ok () { m with sink := m.sink.take piece } := by
  rw [write, taken]

/-- A `print` of a string writes it and ends the line, if the output takes both. -/
theorem execute_print_text {m : Machine} {text : String}
    (takes : m.sink.refusal m.sink.written text = none)
    (ends : m.sink.refusal (m.sink.written.add text) "\n" = none) (steps : Nat) :
    execute (steps + 2) (.print (.constant (.text text))) m =
      .ok .normal { m with sink := (m.sink.take text).take "\n" } := by
  have first : write text m = .ok () { m with sink := m.sink.take text } := write_of_taken takes
  have second : write "\n" { m with sink := m.sink.take text } =
      .ok () { m with sink := (m.sink.take text).take "\n" } := write_of_taken ends
  have printed : Run.print (.text text) m = .ok () { m with sink := (m.sink.take text).take "\n" } :=
    (bind_of_ok first).trans second
  rw [execute, evaluate]
  exact bind_of_ok printed

/-- The output takes a text and a line end behind it, and it can be flushed. -/
structure Sink.Takes (sink : Sink) (text : String) : Prop where
  taken : sink.refusal sink.written text = none
  lineEnd : sink.refusal (sink.written.add text) "\n" = none
  flush : sink.flushRefusal = none

/-- A batch that is a `print` of a string writes the string and a line end. -/
theorem Session.run_print {inside : String} (noQuote : '"' ∉ inside.toList) {s : Session}
    (takes : s.machine.sink.Takes inside) (steps : Nat) :
    (s.run (steps + 2) (Utf8.encode ("print \"" ++ inside ++ "\";"))).1 = .ok () ∧
      (s.run (steps + 2) (Utf8.encode ("print \"" ++ inside ++ "\";"))).2.output =
        s.output ++ (inside ++ "\n") := by
  have one : [Stmt.print (.constant (.text inside))].forM
      (fun s => discard (execute (steps + 2) s)) s.machine =
      .ok () { s.machine with sink := (s.machine.sink.take inside).take "\n" } := by
    have printed := execute_print_text takes.taken takes.lineEnd steps
    exact bind_of_ok (bind_of_ok printed)
  have ran : interpret (steps + 2) [] [.print (.constant (.text inside))] s.machine =
      .ok () { s.machine with sink := (s.machine.sink.take inside).take "\n" } := by
    have unchanged : s.machine.addDistances [] = s.machine := rfl
    have flushes : ((s.machine.sink.take inside).take "\n").flushRefusal = none := takes.flush
    rw [interpret, unchanged, one]
    show flush _ = _
    rw [flush]
    simp only [flushes]
  simp only [Session.run, compile_print noQuote s.nextId, Session.perform, ran]
  exact ⟨trivial, String.append_assoc ..⟩

open Source

/-- A source that is text is shown as it is. Every piece that is cut off is text, and the texts of
the pieces make up that of the source. What a token or an error shows stands in the source as it is
shown, so no replacement character is shown that is not in the source. A character of several bytes
stands in a string or a comment, or else it is a piece by itself, whose one item is an error that
names it. A `print` of a string writes the bytes of the string and a line end. -/
theorem text_faithful (source : List UInt8) (valid : Utf8.valid source = true) :
    ((∀ p ∈ pieces source, Utf8.encode p.text = p.slice) ∧
      charsOf (pieces source) = (Utf8.decode source).toList) ∧
    (∀ item ∈ scan source, ∀ shown ∈ item.shown,
      shown.toList <:+: (Utf8.decode source).toList) ∧
    (∀ e, .error e ∈ scan source → Utf8.replacement ∈ e.message.toList →
      Utf8.replacement ∈ (Utf8.decode source).toList) ∧
    (∀ before c after, (Utf8.decode source).toList = before ++ c :: after → 128 ≤ c.toNat →
      ∃ earlier p later left right, pieces source = earlier ++ p :: later ∧
        p.text.toList = left ++ c :: right ∧ before = charsOf earlier ++ left ∧
        after = right ++ charsOf later ∧
        (p.kind.holdsText = true ∨ p.text.toList = [c] ∧ ∃ line last,
          scan source = itemsFrom 1 earlier ++ .error ⟨.unexpectedCharacter p.text, line⟩ ::
            (itemsFrom line later ++ [.ok (Token.eof last)]))) ∧
    ∀ inside : String, '"' ∉ inside.toList → ∀ (s : Session) (steps : Nat),
      s.machine.sink.Takes inside →
      (s.run (steps + 2) (Utf8.encode ("print \"" ++ inside ++ "\";"))).1 = .ok () ∧
        Utf8.encode (s.run (steps + 2) (Utf8.encode ("print \"" ++ inside ++ "\";"))).2.output =
          Utf8.encode s.output ++ (Utf8.encode inside ++ [lineFeed]) := by
  have munched := allMunched_pieces source
  have whole : bytesOf (Utf8.decode source).toList = (pieces source).flatMap Piece.slice := by
    rw [flatMap_pieces, bytesOf_decode valid]
  obtain ⟨written, texts⟩ := munched.texts whole
  have shows : ∀ item ∈ scan source, ∀ shown ∈ item.shown,
      shown.toList <:+: (Utf8.decode source).toList := by
    intro item member shown shows
    rw [scan_eq, List.mem_append] at member
    rcases member with member | last
    · obtain ⟨p, member, line, is⟩ := mem_itemsFrom member
      obtain ⟨after, here⟩ := munched.munched_of_mem member
      rw [← texts]
      exact (here.shown (written p member) is shown shows).trans (text_within member)
    · rw [List.mem_singleton.1 last] at shows
      rw [List.mem_singleton.1 shows]
      exact List.nil_infix
  refine ⟨⟨written, texts⟩, shows, ?_, ?_, ?_⟩
  · intro e member shown
    obtain ⟨s, text, within⟩ := replacement_of_message shown
    exact (shows _ member s text).subset within
  · intro before c after split foreign
    rw [← texts] at split
    obtain ⟨earlier, p, later, left, right, parts, text, before', after'⟩ := mem_piece split
    refine ⟨earlier, p, later, left, right, parts, text, before', after', ?_⟩
    have member : p ∈ pieces source := by simp [parts]
    obtain ⟨behind, here⟩ := munched.munched_of_mem member
    rcases here.foreign (written p member) (by simp [text]) foreign with holds | ⟨stray, alone⟩
    · exact .inl holds
    · obtain ⟨line, scanned⟩ := scan_stray parts stray
      exact .inr ⟨alone, line, _, scanned⟩
  · intro inside noQuote s steps takes
    obtain ⟨ok, printed⟩ := Session.run_print noQuote takes steps
    have lineEnd : Utf8.encode "\n" = [lineFeed] := by decide +kernel
    exact ⟨ok, by rw [printed, encode_append, encode_append, lineEnd]⟩

/-- An accented letter before a string of another one, and a string of two characters of several
bytes that is printed. -/
theorem text_faithful_accented :
    let source := Utf8.encode "é\"ü\""
    let session := Session.start .unlimited fun _ => 0
    Utf8.valid source = true ∧ charsOf (pieces source) = (Utf8.decode source).toList ∧
      Utf8.encode (session.run 2 (Utf8.encode "print \"ü€\";")).2.output =
        [0xC3, 0xBC, 0xE2, 0x82, 0xAC, 0x0A] := by
  intro source session
  have valid : Utf8.valid source = true := valid_iff.2 ⟨_, rfl⟩
  have faithful := text_faithful source valid
  have takes : session.machine.sink.Takes "ü€" := ⟨rfl, rfl, rfl⟩
  obtain ⟨-, printed⟩ := faithful.2.2.2.2 "ü€" (by decide) session 0 takes
  refine ⟨valid, faithful.1.2, ?_⟩
  have bytes : Utf8.encode session.output ++ (Utf8.encode "ü€" ++ [lineFeed]) =
      [0xC3, 0xBC, 0xE2, 0x82, 0xAC, 0x0A] := by decide +kernel
  rw [← bytes, ← printed]
  rfl

end Treewalk
