import Treewalk.Proofs.Source.Items

/-!
# Scanning what was written

Lexemes written one after the other, with separators between them, are scanned as the tokens that
they are, whatever the separators. The pieces of the text are those of the lexemes and of the
separators: each is munched, as a separator begins with a blank and no token but a string holds one.
-/

namespace Treewalk

namespace Source

/-- What a token is written as: a string by the text between its quotes. -/
inductive Lexeme where
  | plain (text : String) (kind : TokenKind) (rule : Rule (Utf8.encode text) kind)
    (notString : kind ≠ .string)
  | string (inside : String) (noQuote : '"' ∉ inside.toList)

namespace Lexeme

def text : Lexeme → String
  | plain text _ _ _ => text
  | string inside _ => "\"" ++ inside ++ "\""

def kind : Lexeme → TokenKind
  | plain _ kind _ _ => kind
  | string _ _ => .string

/-- The value of a number, the text between the quotes of a string. -/
def literal : Lexeme → Option Token.Literal
  | plain text .number _ _ => some (.number (decimalOf (Utf8.encode text)).toFloat)
  | plain _ _ _ _ => none
  | string inside _ => some (.text inside)

/-- The token of a lexeme on a line. -/
def token (l : Lexeme) (line : Nat) : Token := ⟨l.kind, l.text, l.literal, line⟩

end Lexeme

/-- A blank, or a complete comment. -/
inductive Gap where
  | blank (b : UInt8) (blank : isBlank b = true)
  | line (body : List UInt8) (inside : lineFeed ∉ body)
  | block (body : List UInt8) (inside : ¬ [byte '*', byte '/'] <:+: body)

def Gap.bytes : Gap → List UInt8
  | blank b _ => [b]
  | line body _ => byte '/' :: byte '/' :: (body ++ [lineFeed])
  | block body _ => byte '/' :: byte '*' :: (body ++ [byte '*', byte '/'])

/-- Blanks and comments, a blank first. -/
structure Separator where
  first : UInt8
  blank : isBlank first = true
  more : List Gap

def Separator.bytes (s : Separator) : List UInt8 := s.first :: s.more.flatMap Gap.bytes

/-- A separator, if there is one. -/
def separated : Option Separator → List UInt8
  | none => []
  | some s => s.bytes

/-- Separators for the places between lexemes. -/
inductive Spacing : List Lexeme → Type
  | none : Spacing []
  | last (l : Lexeme) : Spacing [l]
  | next (l : Lexeme) (s : Separator) {l' : Lexeme} {ls : List Lexeme} (rest : Spacing (l' :: ls)) :
    Spacing (l :: l' :: ls)

/-- Lexemes written out with separators between them. -/
def Spacing.bytes {ls : List Lexeme} : Spacing ls → List UInt8
  | none => []
  | last l => Utf8.encode l.text
  | next l s rest => Utf8.encode l.text ++ (s.bytes ++ rest.bytes)

/-- Lexemes written out, perhaps with separators before and after. -/
def written {ls : List Lexeme} (before : Option Separator) (between : Spacing ls)
    (after : Option Separator) : List UInt8 :=
  separated before ++ (between.bytes ++ separated after)

/-- An item without its line. -/
def Item.placeless : Item → Item
  | .ok t => .ok { t with line := 0 }
  | .error e => .error { e with line := 0 }

/-! ### The bytes of a lexeme -/

theorem encode_append (s t : String) : Utf8.encode (s ++ t) = Utf8.encode s ++ Utf8.encode t := by
  rw [Utf8.encode, String.toList_append, List.flatMap_append]
  rfl

theorem encode_quote : Utf8.encode "\"" = [byte '"'] := by decide +kernel

theorem not_mem_encode {inside : String} (noQuote : '"' ∉ inside.toList) :
    byte '"' ∉ Utf8.encode inside := by
  intro member
  obtain ⟨c, written, member⟩ := List.mem_flatMap.1 member
  have same : Utf8.asciiChar (byte '"') = c := Utf8.asciiChar_of_mem member (by decide)
  rw [← same] at written
  exact noQuote written

theorem Lexeme.rule (l : Lexeme) : Rule (Utf8.encode l.text) l.kind := by
  cases l with
  | plain text kind rule notString => exact rule
  | string inside noQuote =>
    have bytes : Utf8.encode ("\"" ++ inside ++ "\"") =
        byte '"' :: (Utf8.encode inside ++ [byte '"']) := by
      rw [encode_append, encode_append, encode_quote]
      rfl
    rw [Lexeme.text, bytes]
    exact Rule.string (not_mem_encode noQuote)

theorem Lexeme.literalOf_eq (l : Lexeme) : literalOf l.kind (Utf8.encode l.text) = l.literal := by
  cases l with
  | plain text kind rule notString => 
    cases kind <;> first | rfl | exact absurd rfl notString
  | string inside noQuote =>
    show some (Token.Literal.text _) = some (Token.Literal.text _)
    rw [Lexeme.text, encode_append, encode_append, encode_quote, List.singleton_append,
      List.cons_append, List.drop_one, List.tail_cons, List.dropLast_concat, Utf8.decode_encode]

/-! ### The pieces of what is written -/

/-- A byte that only a string goes on with: a blank or a semicolon. -/
def isBreak (b : UInt8) : Bool := isBlank b || b == byte ';'

theorem isBreak_of_isBlank {b : UInt8} (h : isBlank b = true) : isBreak b = true := by
  rw [isBreak, h, Bool.true_or]

theorem not_break_of_isWordByte {b : UInt8} (h : isWordByte b = true) : isBreak b = false :=
  forall_byte (p := fun b => isWordByte b = true → isBreak b = false) (by decide +kernel) b h

/-- Only a string holds a break, but for the semicolon itself. -/
theorem Rule.no_break {b : UInt8} {more : List UInt8} {kind : TokenKind}
    (h : Rule (b :: more) kind) (notQuote : b ≠ byte '"') : ∀ c ∈ more, isBreak c = false := by
  intro c member
  cases h.beginning with
  | number digit is =>
    subst is
    rcases h.number_shape with all | ⟨digits, part, same, all, -, all'⟩
    · exact not_break_of_isWordByte (isWordByte_of_isDigit (all c (.tail _ member)))
    · have inside : c ∈ digits ++ byte '.' :: part := same ▸ List.mem_cons_of_mem b member
      rcases List.mem_append.1 inside with here | later
      · exact not_break_of_isWordByte (isWordByte_of_isDigit (all c here))
      rcases List.mem_cons.1 later with rfl | later
      · rfl
      · exact not_break_of_isWordByte (isWordByte_of_isDigit (all' c later))
  | word letter all => exact not_break_of_isWordByte (all c member)
  | string quote => exact absurd quote notQuote
  | operator entry =>
    have form := operators_cut _ entry
    match more, form with
    | [_], ⟨same, _⟩ =>
      rw [List.mem_singleton.1 member, same]
      rfl

/-- What a longer token has behind a shorter one is no break: only strings hold breaks, and no
string goes on behind its end. -/
theorem Rule.not_break_behind {text extra : List UInt8} {kind kind' : TokenKind}
    (h : Rule text kind) (h' : Rule (text ++ extra) kind') :
    ∀ c ∈ extra, isBreak c = false := by
  intro c member
  cases text with
  | nil => exact absurd rfl h.ne_nil
  | cons b more =>
    rw [List.cons_append] at h'
    by_cases quote : b = byte '"'
    · subst quote
      obtain ⟨-, inside, -, rfl⟩ := h.of_quote
      obtain ⟨-, inside', closed', same⟩ := h'.of_quote
      have whole : inside ++ [byte '"'] <+: inside' ++ [byte '"'] := ⟨_, same⟩
      have longer : 0 < extra.length := List.length_pos_of_mem member
      have size := congrArg List.length same
      simp only [List.length_append, List.length_cons, List.length_nil] at size
      have within := List.prefix_of_prefix_length_le whole
        (List.prefix_append inside' [byte '"']) (by simp; omega)
      exact absurd (within.subset (List.mem_append_right _ (.head _))) closed'
    · exact h'.no_break quote c (List.mem_append_right _ member)

/-- A token before a break or at the end is longest. -/
theorem Rule.longest {text after : List UInt8} {kind : TokenKind} (h : Rule text kind)
    (ends : ∀ c ∈ after.head?, isBreak c = true) : Longest (text ++ after) text kind where
  rule := h
  start := List.prefix_append _ _
  slash same := by
    subst same
    have notNext : ∀ next, isBreak next = false → ¬ [byte '/', next] <+: byte '/' :: after := by
      intro next notBreak start
      obtain ⟨-, more, rfl⟩ := List.cons_prefix_cons.1 start
      rw [ends next rfl] at notBreak
      cases notBreak
    exact ⟨notNext _ rfl, notNext _ rfl⟩
  longest text' kind' h' := by
    apply Nat.le_of_not_lt
    intro longer
    obtain ⟨extra, rfl⟩ := List.prefix_of_prefix_length_le (List.prefix_append text after) h'.start
      (Nat.le_of_lt longer)
    cases extra with
    | nil => simp at longer
    | cons c extra =>
      have stops : isBreak c = true := by
        obtain ⟨left, same⟩ := h'.start
        rw [List.append_assoc, List.append_cancel_left_eq] at same
        exact ends c (by rw [← same]; rfl)
      rw [h.not_break_behind h'.rule c (.head _)] at stops
      cases stops

theorem not_within_of_block {body : List UInt8} (inside : ¬ [byte '*', byte '/'] <:+: body) :
    ¬ [byte '*', byte '/'] <:+: body ++ [byte '*'] := by
  rw [List.infix_concat_iff]
  rintro (ends | within)
  · have last := ends.getLast (List.cons_ne_nil _ _)
    simp at last
    cases last
  · exact inside within

/-- The pieces of a gap: the line feed behind a line comment is a blank. -/
def Gap.pieces : Gap → List Piece
  | blank b _ => [⟨.blank, [b]⟩]
  | line body _ => [⟨.comment, byte '/' :: byte '/' :: body⟩, ⟨.blank, [lineFeed]⟩]
  | block body _ => [⟨.comment, byte '/' :: byte '*' :: (body ++ [byte '*', byte '/'])⟩]

def Separator.pieces (s : Separator) : List Piece :=
  ⟨.blank, [s.first]⟩ :: s.more.flatMap Gap.pieces

def separatedPieces : Option Separator → List Piece
  | none => []
  | some s => s.pieces

def Lexeme.piece (l : Lexeme) : Piece := ⟨.token l.kind, Utf8.encode l.text⟩

def Spacing.pieces {ls : List Lexeme} : Spacing ls → List Piece
  | none => []
  | last l => [l.piece]
  | next l s rest => l.piece :: (s.pieces ++ rest.pieces)

theorem Gap.flatMap_pieces (g : Gap) : g.pieces.flatMap Piece.slice = g.bytes := by
  cases g <;> simp [pieces, bytes]

theorem flatMap_gaps (gs : List Gap) :
    (gs.flatMap Gap.pieces).flatMap Piece.slice = gs.flatMap Gap.bytes := by
  induction gs with
  | nil => rfl
  | cons g gs ih =>
    rw [List.flatMap_cons, List.flatMap_append, g.flatMap_pieces, ih, List.flatMap_cons]

theorem Separator.flatMap_pieces (s : Separator) :
    s.pieces.flatMap Piece.slice = s.bytes := by
  rw [pieces, List.flatMap_cons, flatMap_gaps]
  rfl

theorem flatMap_separatedPieces (s : Option Separator) :
    (separatedPieces s).flatMap Piece.slice = separated s := by
  cases s with
  | none => rfl
  | some s => exact s.flatMap_pieces

theorem Spacing.flatMap_pieces {ls : List Lexeme} (between : Spacing ls) :
    between.pieces.flatMap Piece.slice = between.bytes := by
  induction between with
  | none => rfl
  | last l => exact List.append_nil _
  | next l s rest ih =>
    rw [pieces, List.flatMap_cons, List.flatMap_append, s.flatMap_pieces, ih]
    rfl

variable {ps : List Piece}

theorem AllMunched.gap (h : AllMunched ps) (g : Gap) : AllMunched (g.pieces ++ ps) := by
  cases g with
  | blank b blank => exact .cons (.blank blank) h
  | line body inside => exact .cons (.lineComment inside (.inr ⟨_, rfl⟩)) (.cons (.blank rfl) h)
  | block body inside => exact .cons (.blockComment (not_within_of_block inside)) h

theorem AllMunched.separator (h : AllMunched ps) (s : Separator) :
    AllMunched (s.pieces ++ ps) := by
  have gaps : AllMunched (s.more.flatMap Gap.pieces ++ ps) := by
    induction s.more with
    | nil => exact h
    | cons g gs ih =>
      rw [List.flatMap_cons, List.append_assoc]
      exact ih.gap g
  exact .cons (.blank s.blank) gaps

theorem AllMunched.separated (h : AllMunched ps) (s : Option Separator) :
    AllMunched (separatedPieces s ++ ps) := by
  cases s with
  | none => exact h
  | some s => exact h.separator s

theorem Separator.head_blank (s : Separator) (more : List UInt8) :
    ∀ c ∈ (s.bytes ++ more).head?, isBlank c = true := by
  intro c first
  cases first
  exact s.blank

theorem AllMunched.lexeme (h : AllMunched ps) (l : Lexeme)
    (ends : ∀ c ∈ (ps.flatMap Piece.slice).head?, isBlank c = true) :
    AllMunched (l.piece :: ps) :=
  .cons (.token (l.rule.longest fun c first => isBreak_of_isBlank (ends c first))) h

theorem AllMunched.spacing {ls : List Lexeme} (between : Spacing ls) (h : AllMunched ps)
    (ends : ∀ c ∈ (ps.flatMap Piece.slice).head?, isBlank c = true) :
    AllMunched (between.pieces ++ ps) := by
  induction between with
  | none => exact h
  | last l => exact h.lexeme l ends
  | next l s rest ih =>
    rw [Spacing.pieces, List.cons_append, List.append_assoc]
    apply (ih.separator s).lexeme l
    rw [List.flatMap_append, s.flatMap_pieces]
    exact s.head_blank _

/-- The pieces of what is written are those of its lexemes and separators. -/
theorem pieces_written {ls : List Lexeme} (before : Option Separator) (between : Spacing ls)
    (after : Option Separator) :
    pieces (written before between after) =
      separatedPieces before ++ (between.pieces ++ separatedPieces after) := by
  have ends : ∀ c ∈ ((separatedPieces after).flatMap Piece.slice).head?, isBlank c = true := by
    rw [flatMap_separatedPieces]
    cases after with
    | none => exact fun c first => nomatch first
    | some s =>
      rw [separated, ← List.append_nil s.bytes]
      exact s.head_blank []
  have behind : AllMunched (separatedPieces after) := by
    have munched := AllMunched.nil.separated after
    rwa [List.append_nil] at munched
  have munched := (AllMunched.spacing between behind ends).separated before
  have same := munched.pieces_eq
  rwa [List.flatMap_append, List.flatMap_append, flatMap_separatedPieces, between.flatMap_pieces,
    flatMap_separatedPieces] at same

/-! ### The items of what is written -/

/-- The items of pieces whatever the lines. -/
theorem map_placeless_itemsFrom (line : Nat) (ps : List Piece) :
    (itemsFrom line ps).map Item.placeless = ps.filterMap (itemOf · 0) := by
  induction ps generalizing line with
  | nil => rfl
  | cons piece ps ih =>
    obtain ⟨kind, slice⟩ := piece
    rw [itemsFrom, List.map_append, ih]
    cases kind <;> rfl

theorem itemOf_lexeme (l : Lexeme) (line : Nat) :
    itemOf l.piece line = some (.ok (l.token line)) := by
  have literal : literalOf l.kind l.piece.slice = l.literal := l.literalOf_eq
  have text : Utf8.decode l.piece.slice = l.text := Utf8.decode_encode l.text
  simp only [Lexeme.token, ← literal, ← text]
  rfl

theorem filterMap_gaps (gs : List Gap) :
    (gs.flatMap Gap.pieces).filterMap (itemOf · 0) = [] := by
  induction gs with
  | nil => rfl
  | cons g gs ih =>
    rw [List.flatMap_cons, List.filterMap_append, ih]
    cases g <;> rfl

theorem Separator.filterMap_pieces (s : Separator) : s.pieces.filterMap (itemOf · 0) = [] :=
  filterMap_gaps s.more

theorem filterMap_separatedPieces (s : Option Separator) :
    (separatedPieces s).filterMap (itemOf · 0) = [] := by
  cases s with
  | none => rfl
  | some s => exact s.filterMap_pieces

theorem Spacing.filterMap_pieces {ls : List Lexeme} (between : Spacing ls) :
    between.pieces.filterMap (itemOf · 0) = ls.map fun l => .ok (l.token 0) := by
  have first (l : Lexeme) (ps : List Piece) : (l.piece :: ps).filterMap (itemOf · 0) =
      .ok (l.token 0) :: ps.filterMap (itemOf · 0) :=
    List.filterMap_cons_some (itemOf_lexeme l 0)
  induction between with
  | none => rfl
  | last l =>
    rw [pieces, first]
    rfl
  | next l s rest ih =>
    rw [pieces, first, List.filterMap_append, s.filterMap_pieces, ih]
    rfl

theorem errors_of_placeless {items : List Item} {ts : List Token}
    (h : items.map Item.placeless = ts.map Except.ok) : errors items = [] := by
  induction items generalizing ts with
  | nil => rfl
  | cons item items ih =>
    cases ts with
    | nil => cases h
    | cons t ts =>
      obtain ⟨first, rest⟩ := List.cons.inj h
      cases item with
      | ok _ => exact ih rest
      | error e => cases first

/-- Scanning undoes writing: of lexemes written out with any separators between them, and perhaps
before and after, the items are the tokens of the lexemes and the token of the end. No byte of the
separators has a share in them but by their lines: other separators change nothing else. -/
theorem scan_written (ls : List Lexeme) (before : Option Separator) (between : Spacing ls)
    (after : Option Separator) :
    errors (scan (written before between after)) = [] ∧
      (scan (written before between after)).map Item.placeless =
        (ls.map fun l => .ok (l.token 0)) ++ [.ok (Token.eof 0)] ∧
      ∀ (before' : Option Separator) (between' : Spacing ls) (after' : Option Separator),
        (scan (written before' between' after')).map Item.placeless =
          (scan (written before between after)).map Item.placeless := by
  have items (before : Option Separator) (between : Spacing ls) (after : Option Separator) :
      (scan (written before between after)).map Item.placeless =
        (ls.map fun l => .ok (l.token 0)) ++ [.ok (Token.eof 0)] := by
    rw [scan_eq, pieces_written, List.map_append, map_placeless_itemsFrom, List.filterMap_append,
      List.filterMap_append, filterMap_separatedPieces, filterMap_separatedPieces,
      between.filterMap_pieces, List.nil_append, List.append_nil]
    rfl
  refine ⟨?_, items before between after, ?_⟩
  · have tokens : (scan (written before between after)).map Item.placeless =
        (ls.map (·.token 0) ++ [Token.eof 0]).map Except.ok := by
      rw [items, List.map_append, List.map_map]
      rfl
    exact errors_of_placeless tokens
  · intro before' between' after'
    rw [items, items]

end Source

end Treewalk
