import Treewalk.Proofs.Source.Items
import Treewalk.Token.Lexer

/-!
# Exact lines

Every item of a source has the line that the line feeds before its end put it on. `Counts` is what
a lexer keeps from call to call: it stands between two pieces of the source and has counted the line
feeds of those before it, each once. The three places where it counts enter through
`Lexer.scanByte_cuts` only.
-/

namespace Treewalk

namespace Source

def Item.line : Item → Nat
  | .ok t => t.line
  | .error e => e.line

/-- The item is the end, or a string or a comment that runs into the end. -/
def Item.AtEnd : Item → Prop
  | .ok t => t.kind = .eof
  | .error e => e.cause = .unterminatedString ∨ e.cause = .unterminatedComment

theorem line_of_itemOf {piece : Piece} {line : Nat} {item : Item}
    (h : itemOf piece line = some item) : item.line = line := by
  unfold itemOf at h
  split at h <;> cases h <;> rfl

theorem AllMunched.middle {before after : List Piece} {piece : Piece}
    (h : AllMunched (before ++ piece :: after)) : Munched piece (after.flatMap Piece.slice) := by
  induction before with
  | nil =>
    cases h with
    | cons first _ => exact first
  | cons _ _ ih =>
    cases h with
    | cons _ rest => exact ih rest

/-- A piece that has an item of the end stands at the end. -/
theorem Munched.ended {piece : Piece} {after : List UInt8} (h : Munched piece after) {line : Nat}
    {item : Item} (told : itemOf piece line = some item) (last : item.AtEnd) : after = [] := by
  cases h with
  | blank | lineComment | blockComment => cases told
  | openString | openComment => rfl
  | token longest =>
    cases told
    exact absurd last longest.rule.ne_eof
  | stray =>
    cases told
    rcases last with same | same <;> cases same

namespace Lexer

variable {source bytes : List UInt8} {l l' : Lexer} {b : UInt8} {more : List UInt8} {item : Item}

/-- The lexer stands between two pieces of the source, on the line that those before it end on. -/
structure Counts (source : List UInt8) (l : Lexer) : Prop where
  pieces : ∃ done, pieces source = done ++ pieces l.rest ∧ done.flatMap Piece.slice = l.passed
  line : l.line = 1 + linesIn l.passed

/-- The item is that of the piece of the source which the lexer has just read, or that of the
end. -/
inductive Tells (source : List UInt8) (l : Lexer) : Item → Prop
  | piece {done : List Piece} {kind : PieceKind} {item : Item}
    (pieces : pieces source = done ++ ⟨kind, l.lexeme⟩ :: pieces l.rest)
    (before : done.flatMap Piece.slice = l.behind.reverse)
    (told : itemOf ⟨kind, l.lexeme⟩ l.line = some item) : Tells source l item
  | eof (empty : l.lexeme = []) (ended : l.rest = []) : Tells source l (.ok (Token.eof l.line))

theorem passed_begin (l : Lexer) : l.begin.passed = l.passed := by
  simp [passed, begin, lexeme]

theorem Reads.passed (h : Reads l bytes l') : l'.passed = l.passed ++ bytes := by
  rw [Lexer.passed, h.behind, h.lexeme, ← List.append_assoc]
  rfl

namespace Counts

theorem start (source : List UInt8) : Counts source (start source) := ⟨⟨[], rfl, rfl⟩, rfl⟩

theorem begin (h : Counts source l) : Counts source l.begin where
  pieces := by
    rw [passed_begin]
    exact h.pieces
  line := by
    rw [passed_begin]
    exact h.line

theorem source_eq (h : Counts source l) : l.passed ++ l.rest = source := by
  obtain ⟨done, whole, passed⟩ := h.pieces
  rw [← passed, ← flatMap_pieces l.rest, ← List.flatMap_append, ← whole, flatMap_pieces]

end Counts

/-! ### One piece -/

section Piece

variable (found : l.rest = b :: more) (new : l.lexeme = [])

include found new

theorem lexeme_scanByte : (scanByte b (l.read b more)).2.lexeme = b :: (cut b more).2.1 := by
  rw [(scanByte_cuts found new).reads.lexeme, new]
  rfl

theorem rest_scanByte : (scanByte b (l.read b more)).2.rest = (cut b more).2.2 := by
  have same : more = (cut b more).2.1 ++ (scanByte b (l.read b more)).2.rest :=
    List.tail_eq_of_cons_eq (found.symm.trans (scanByte_cuts found new).reads.rest)
  exact (List.append_cancel_left ((cut_append b more).trans same)).symm

theorem line_scanByte :
    (scanByte b (l.read b more)).2.line = l.line + linesIn (b :: (cut b more).2.1) :=
  (scanByte_cuts found new).reads.line

theorem item_scanByte :
    (scanByte b (l.read b more)).item =
      itemOf ⟨(cut b more).1, b :: (cut b more).2.1⟩ (l.line + linesIn (b :: (cut b more).2.1)) := by
  rw [(scanByte_cuts found new).item, lexeme_scanByte found new, line_scanByte found new]

end Piece

/-- Reading a piece: the next one of the source has been read, and its line feeds are counted. -/
theorem Counts.scanByte (h : Counts source l) (found : l.rest = b :: more) (new : l.lexeme = []) :
    let outcome := Lexer.scanByte b (l.read b more)
    Counts source outcome.2 ∧ ∀ item, outcome.item = some item → Tells source outcome.2 item := by
  intro outcome
  have cuts : Cuts l _ outcome := scanByte_cuts found new
  obtain ⟨done, whole, passed⟩ := h.pieces
  have read : Source.pieces source =
      done ++ ⟨(cut b more).1, outcome.2.lexeme⟩ :: Source.pieces outcome.2.rest := by
    rw [whole, found, pieces_cons, lexeme_scanByte found new, rest_scanByte found new]
  have behind : done.flatMap Piece.slice = outcome.2.behind.reverse := by
    rw [passed, Lexer.passed, new, List.append_nil, cuts.reads.behind]
  constructor
  · constructor
    · refine ⟨done ++ [⟨(cut b more).1, outcome.2.lexeme⟩], by simpa using read, ?_⟩
      rw [List.flatMap_append, behind, Lexer.passed]
      simp
    · rw [cuts.reads.line, cuts.reads.passed, h.line, linesIn_append l.passed, Nat.add_assoc]
  · intro item told
    exact .piece read behind (cuts.item.symm.trans told)

/-! ### From call to call -/

theorem Counts.next (h : Counts source l) :
    Counts source l.next.2 ∧ ∀ item, l.next.1 = some item → Tells source l.next.2 item := by
  fun_induction Lexer.next l with
  | case1 l _ => exact ⟨h, fun _ none => nomatch none⟩
  | case2 l _ ended =>
    refine ⟨⟨h.begin.pieces, h.begin.line⟩, ?_⟩
    intro item told
    cases told
    exact .eof rfl ended
  | case3 l _ b more found item told =>
    obtain ⟨counts, tells⟩ := h.begin.scanByte found rfl
    refine ⟨counts, ?_⟩
    intro item' same
    cases same
    exact tells item told
  | case4 l _ b more found _ ih => exact ih (h.begin.scanByte found rfl).1

theorem passed_next (l : Lexer) : l.passed <+: l.next.2.passed := by
  have read {l : Lexer} {b : UInt8} {more : List UInt8} (found : l.rest = b :: more) :
      l.passed <+: (scanByte b (l.begin.read b more)).2.passed := by
    rw [(scanByte_cuts (l := l.begin) found rfl).reads.passed, passed_begin]
    exact List.prefix_append _ _
  fun_induction Lexer.next l with
  | case1 l _ => exact List.prefix_refl _
  | case2 l _ _ =>
    rw [← passed_begin l]
    exact List.prefix_refl _
  | case3 l _ b more found item told => exact read found
  | case4 l _ b more found _ ih => exact (read found).trans ih

theorem call_succ (l : Lexer) (k : Nat) : l.call (k + 1) = (l.call k).2.next := by
  induction k generalizing l with
  | zero => rfl
  | succ k ih => exact ih l.next.2

theorem Counts.call (h : Counts source l) (k : Nat) :
    Counts source (l.call k).2 ∧ ∀ item, (l.call k).1 = some item → Tells source (l.call k).2 item := by
  induction k with
  | zero => exact h.next
  | succ k ih =>
    rw [call_succ]
    exact ih.1.next

theorem passed_call (l : Lexer) {j k : Nat} (le : j ≤ k) :
    (l.call j).2.passed <+: (l.call k).2.passed := by
  induction le with
  | refl => exact List.prefix_refl _
  | step _ ih =>
    rw [call_succ]
    exact ih.trans (passed_next _)

/-! ### Lexers and readers -/

/-- The reader of whole pieces that has come as far. -/
def toReader (l : Lexer) : Reader := ⟨if l.ended then none else some l.rest, l.line⟩

theorem toReader_eq (unended : ¬ l.ended = true) : l.toReader = ⟨some l.rest, l.line⟩ := by
  rw [toReader, if_neg unended]

theorem toReader_scanByte (found : l.rest = b :: more) (unended : ¬ l.ended = true) :
    (scanByte b (l.begin.read b more)).2.toReader =
      ⟨some (cut b more).2.2, l.line + linesIn (b :: (cut b more).2.1)⟩ := by
  have reads := (scanByte_cuts (l := l.begin) found rfl).reads
  rw [toReader_eq (reads.ended ▸ unended), rest_scanByte (l := l.begin) found rfl, reads.line]
  rfl

theorem item_toReader (found : l.rest = b :: more) :
    itemOf ⟨(cut b more).1, b :: (cut b more).2.1⟩ (l.line + linesIn (b :: (cut b more).2.1)) =
      (scanByte b (l.begin.read b more)).item :=
  (item_scanByte (l := l.begin) found rfl).symm

theorem next_toReader (l : Lexer) : l.toReader.next = (l.next.1, l.next.2.toReader) := by
  fun_induction Lexer.next l with
  | case1 l ended => simp [toReader, ended, Reader.next]
  | case2 l unended ended =>
    simp [toReader, unended, ended, Reader.next, Reader.advance, begin]
  | case3 l unended b more found item told =>
    rw [toReader_scanByte found unended, toReader_eq unended, found]
    simp only [Reader.next]
    rw [Reader.advance]
    simp only [item_toReader found, told]
  | case4 l unended b more found none ih =>
    rw [← ih, toReader_scanByte found unended, toReader_eq unended, found]
    simp only [Reader.next]
    rw [Reader.advance]
    simp only [item_toReader found, none]

theorem call_toReader (l : Lexer) (k : Nat) : l.toReader.call k = (l.call k).1 := by
  induction k generalizing l with
  | zero => exact congrArg Prod.fst (next_toReader l)
  | succ k ih =>
    rw [Reader.call, next_toReader]
    exact ih l.next.2

/-- Call by call a lexer yields the items of a source. -/
theorem call_eq (source : List UInt8) (k : Nat) : ((start source).call k).1 = (scan source)[k]? := by
  rw [← call_toReader, scan_eq]
  exact Reader.call_some source 1 k

namespace Tells

theorem line_eq (h : Tells source l item) : item.line = l.line := by
  cases h with
  | piece _ _ told => exact line_of_itemOf told
  | eof => rfl

theorem ended (h : Tells source l item) (last : item.AtEnd) : l.rest = [] := by
  cases h with
  | piece pieces _ told =>
    have munched := (pieces ▸ allMunched_pieces source).middle
    rw [flatMap_pieces] at munched
    exact munched.ended told last
  | eof _ ended => exact ended

end Tells

/-- The item that a call yields stands on the line that the bytes passed by then end on. -/
theorem tells_call {k : Nat} (found : (scan source)[k]? = some item) :
    let l := ((start source).call k).2
    Counts source l ∧ Tells source l item ∧ item.line = 1 + linesIn l.passed := by
  rw [← call_eq] at found
  obtain ⟨counts, tells⟩ := (Counts.start source).call k
  refine ⟨counts, tells item found, ?_⟩
  rw [(tells item found).line_eq, counts.line]

theorem linesIn_passed_le (source : List UInt8) {j k : Nat} (le : j ≤ k) :
    linesIn ((start source).call j).2.passed ≤ linesIn ((start source).call k).2.passed :=
  (passed_call _ le).sublist.count_le lineFeed

end Lexer

/-- Lines are exact. What a lexer yields call by call are the items of the source. Each is the item
of the piece just read, or that of the end, and its line is one more than the line feeds before the
end of its piece: for the end, and for a string or comment that runs into it, one more than all line
feeds. So lines never decrease, and of what stands before the end of a piece, in this source or
another, only the number of line feeds matters to its line. -/
theorem lines_exact (source : List UInt8) :
    (∀ k, ((Lexer.start source).call k).1 = (scan source)[k]?) ∧
    (∀ k item, (scan source)[k]? = some item →
      let l := ((Lexer.start source).call k).2
      l.passed ++ l.rest = source ∧ l.Tells source item ∧ item.line = 1 + linesIn l.passed ∧
        (item.AtEnd → l.passed = source ∧ item.line = 1 + linesIn source)) ∧
    ((scan source).map Item.line).Pairwise (· ≤ ·) ∧
    (∀ source' k k' item item', (scan source)[k]? = some item → (scan source')[k']? = some item' →
      linesIn ((Lexer.start source).call k).2.passed =
        linesIn ((Lexer.start source').call k').2.passed →
      item.line = item'.line) := by
  refine ⟨Lexer.call_eq source, ?_, ?_, ?_⟩
  · intro k item found
    obtain ⟨counts, tells, line⟩ := Lexer.tells_call found
    refine ⟨counts.source_eq, tells, line, ?_⟩
    intro last
    have all := counts.source_eq
    rw [tells.ended last, List.append_nil] at all
    rw [all] at line
    exact ⟨all, line⟩
  · rw [List.pairwise_map, List.pairwise_iff_getElem]
    intro j k hj hk before
    have first := (Lexer.tells_call (List.getElem?_eq_getElem hj)).2.2
    have second := (Lexer.tells_call (List.getElem?_eq_getElem hk)).2.2
    rw [first, second]
    exact Nat.add_le_add_left (Lexer.linesIn_passed_le source before.le) 1
  · intro source' k k' item item' found found' same
    rw [(Lexer.tells_call found).2.2, (Lexer.tells_call found').2.2, same]

/-- A line comment counts nothing, a string counts what it holds, and so does an open comment. -/
example : (scan ("// a\n\"b\nc\" /* d\n".toUTF8.toList)).map Item.line = [3, 4, 4] := by
  decide +kernel

end Source

end Treewalk
