import Treewalk.Text.Utf8
import Treewalk.Token

/-!
# A source cut into pieces

`pieces` cuts all bytes of a source into blanks, comments, tokens and pieces that are none of
these, in order and without a gap: the slices of the pieces, one after the other, are the source.
Every piece is the longest that its first byte allows.
-/

namespace Treewalk

/-- What a piece of source is. -/
inductive PieceKind where
  /-- A blank, a tab, or one byte of a line end. -/
  | blank
  | comment
  | token (kind : TokenKind)
  /-- A byte that begins no token, with the continuation bytes of its character. -/
  | stray
  /-- A string that runs into the end of the source. -/
  | openString
  /-- A block comment that runs into the end of the source. -/
  | openComment
deriving Repr, DecidableEq

/-- A piece of source: what it is, and its bytes. -/
structure Piece where
  kind : PieceKind
  slice : List UInt8
deriving Repr, DecidableEq

namespace Source

/-- The byte of an ASCII character. -/
def byte (c : Char) : UInt8 := c.toNat.toUInt8

/-- The byte that ends a line. -/
def lineFeed : UInt8 := 10

def isBlank (b : UInt8) : Bool := b == byte ' ' || b == byte '\t' || b == byte '\r' || b == lineFeed

def isDigit (b : UInt8) : Bool := byte '0' ≤ b && b ≤ byte '9'

/-- A byte that may begin a word: an ASCII letter or the underscore. -/
def isLetter (b : UInt8) : Bool :=
  (byte 'a' ≤ b && b ≤ byte 'z') || (byte 'A' ≤ b && b ≤ byte 'Z') || b == byte '_'

/-- A byte that may continue a word. -/
def isWordByte (b : UInt8) : Bool := isLetter b || isDigit b

/-- A byte inside a character of several bytes. -/
def isContinuation (b : UInt8) : Bool := 0x80 ≤ b && b < 0xC0

/-- The kind of a token of one byte that begins no longer token. -/
def single? (b : UInt8) : Option TokenKind :=
  if b = byte '(' then some .leftParen
  else if b = byte ')' then some .rightParen
  else if b = byte '{' then some .leftBrace
  else if b = byte '}' then some .rightBrace
  else if b = byte ',' then some .comma
  else if b = byte '.' then some .dot
  else if b = byte '-' then some .minus
  else if b = byte '+' then some .plus
  else if b = byte ';' then some .semicolon
  else if b = byte '*' then some .star
  else none

/-- The kinds of an operator alone and with an equals sign behind it. -/
def beforeEqual? (b : UInt8) : Option (TokenKind × TokenKind) :=
  if b = byte '!' then some (.bang, .bangEqual)
  else if b = byte '=' then some (.equal, .equalEqual)
  else if b = byte '<' then some (.less, .lessEqual)
  else if b = byte '>' then some (.greater, .greaterEqual)
  else none

/-- The kind of a word. -/
def wordKind (word : List UInt8) : TokenKind :=
  (TokenKind.keyword? (Utf8.decode word)).getD .identifier

/-- The bytes up to and including the first `*/`, newest first after `seen`, and the rest. -/
def closeComment (seen : List UInt8) : List UInt8 → Option (List UInt8 × List UInt8)
  | [] => none
  | [_] => none
  | a :: b :: rest =>
    if a = byte '*' ∧ b = byte '/' then some ((b :: a :: seen).reverse, rest)
    else closeComment (a :: seen) (b :: rest)

/-- A piece behind its first byte: what it is, its other bytes, and the rest of the source. -/
abbrev Cut := PieceKind × List UInt8 × List UInt8

/-- Digits, and a fraction if a digit stands behind the point. -/
def cutNumber (source : List UInt8) : Cut :=
  match source.dropWhile isDigit with
  | point :: next :: more =>
    if point = byte '.' ∧ isDigit next then
      (.token .number, source.takeWhile isDigit ++ point :: (next :: more).takeWhile isDigit,
        (next :: more).dropWhile isDigit)
    else (.token .number, source.takeWhile isDigit, source.dropWhile isDigit)
  | _ => (.token .number, source.takeWhile isDigit, source.dropWhile isDigit)

/-- A word that begins with `b`. -/
def cutWord (b : UInt8) (source : List UInt8) : Cut :=
  (.token (wordKind (b :: source.takeWhile isWordByte)), source.takeWhile isWordByte,
    source.dropWhile isWordByte)

/-- A string behind its first quote: it ends at the next one. -/
def cutString (source : List UInt8) : Cut :=
  match source.dropWhile (· != byte '"') with
  | [] => (.openString, source, [])
  | quote :: after => (.token .string, source.takeWhile (· != byte '"') ++ [quote], after)

/-- What stands behind a slash: a line comment leaves the line feed that ends it. -/
def cutSlash : List UInt8 → Cut
  | [] => (.token .slash, [], [])
  | next :: more =>
    if next = byte '/' then
      (.comment, next :: more.takeWhile (· != lineFeed), more.dropWhile (· != lineFeed))
    else if next = byte '*' then
      match closeComment [] more with
      | some (inside, after) => (.comment, next :: inside, after)
      | none => (.openComment, next :: more, [])
    else (.token .slash, [], next :: more)

/-- An operator that an equals sign may follow. -/
def cutOperator (alone withEqual : TokenKind) : List UInt8 → Cut
  | [] => (.token alone, [], [])
  | next :: more =>
    if next = byte '=' then (.token withEqual, [next], more) else (.token alone, [], next :: more)

/-- A byte that begins no token. -/
def cutStray (b : UInt8) (source : List UInt8) : Cut :=
  if b < 0x80 then (.stray, [], source)
  else (.stray, source.takeWhile isContinuation, source.dropWhile isContinuation)

/-- What the first byte `b` of a source begins. -/
def cut (b : UInt8) (rest : List UInt8) : Cut :=
  if isBlank b then (.blank, [], rest)
  else if isDigit b then cutNumber rest
  else if isLetter b then cutWord b rest
  else if b = byte '"' then cutString rest
  else if b = byte '/' then cutSlash rest
  else
    match single? b, beforeEqual? b with
    | some kind, _ => (.token kind, [], rest)
    | none, some (alone, withEqual) => cutOperator alone withEqual rest
    | none, none => cutStray b rest

theorem closeComment_append {seen source inside after : List UInt8}
    (h : closeComment seen source = some (inside, after)) :
    inside ++ after = seen.reverse ++ source := by
  fun_induction closeComment seen source with
  | case1 => simp at h
  | case2 => simp at h
  | case3 seen a b rest hab =>
    simp only [Option.some.injEq, Prod.mk.injEq] at h
    obtain ⟨rfl, rfl⟩ := h
    simp
  | case4 seen a b rest hab ih => simpa using ih h

theorem cutNumber_append (source : List UInt8) :
    (cutNumber source).2.1 ++ (cutNumber source).2.2 = source := by
  unfold cutNumber
  split
  · rename_i point next more h
    split
    · rw [List.append_assoc, List.cons_append, List.takeWhile_append_dropWhile, ← h,
        List.takeWhile_append_dropWhile]
    · exact List.takeWhile_append_dropWhile
  · exact List.takeWhile_append_dropWhile

theorem cutString_append (source : List UInt8) :
    (cutString source).2.1 ++ (cutString source).2.2 = source := by
  unfold cutString
  split
  · exact List.append_nil _
  · rename_i quote after h
    rw [List.append_assoc, List.singleton_append, ← h, List.takeWhile_append_dropWhile]

theorem cutSlash_append (source : List UInt8) :
    (cutSlash source).2.1 ++ (cutSlash source).2.2 = source := by
  unfold cutSlash
  split
  · rfl
  split
  · rw [List.cons_append, List.takeWhile_append_dropWhile]
  split
  · split
    · rename_i h
      simpa using closeComment_append h
    · exact List.append_nil _
  · rfl

theorem cutOperator_append (alone withEqual : TokenKind) (source : List UInt8) :
    (cutOperator alone withEqual source).2.1 ++ (cutOperator alone withEqual source).2.2 =
      source := by
  unfold cutOperator
  split
  · rfl
  split <;> rfl

theorem cutStray_append (b : UInt8) (source : List UInt8) :
    (cutStray b source).2.1 ++ (cutStray b source).2.2 = source := by
  unfold cutStray
  split
  · rfl
  · exact List.takeWhile_append_dropWhile

/-- Cutting loses no byte. -/
theorem cut_append (b : UInt8) (rest : List UInt8) :
    (cut b rest).2.1 ++ (cut b rest).2.2 = rest := by
  unfold cut
  split
  · rfl
  split
  · exact cutNumber_append rest
  split
  · exact List.takeWhile_append_dropWhile
  split
  · exact cutString_append rest
  split
  · exact cutSlash_append rest
  split
  · rfl
  · exact cutOperator_append _ _ rest
  · exact cutStray_append b rest

theorem length_cut_le (b : UInt8) (rest : List UInt8) : (cut b rest).2.2.length ≤ rest.length := by
  have h := congrArg List.length (cut_append b rest)
  rw [List.length_append] at h
  omega

/-- The pieces of a source behind the pieces `done`, which stand newest first. -/
def piecesAfter (done : List Piece) : List UInt8 → List Piece
  | [] => done.reverse
  | b :: rest =>
    piecesAfter (⟨(cut b rest).1, b :: (cut b rest).2.1⟩ :: done) (cut b rest).2.2
termination_by source => source.length
decreasing_by exact Nat.lt_succ_of_le (length_cut_le b rest)

/-- A source cut into pieces. -/
def pieces (source : List UInt8) : List Piece := piecesAfter [] source

theorem piecesAfter_eq (done : List Piece) (source : List UInt8) :
    piecesAfter done source = done.reverse ++ pieces source := by
  unfold pieces
  induction h : source.length using Nat.strongRecOn generalizing done source with
  | ind n ih =>
    cases source with
    | nil => simp [piecesAfter]
    | cons b rest =>
      have shorter : (cut b rest).2.2.length < n := by
        have := length_cut_le b rest
        simp only [List.length_cons] at h
        omega
      rw [piecesAfter, piecesAfter, ih _ shorter _ _ rfl, ih _ shorter [_] _ rfl]
      simp

@[simp] theorem pieces_nil : pieces [] = [] := by simp [pieces, piecesAfter]

/-- The first piece is what the first byte begins. -/
theorem pieces_cons (b : UInt8) (rest : List UInt8) :
    pieces (b :: rest) =
      ⟨(cut b rest).1, b :: (cut b rest).2.1⟩ :: pieces (cut b rest).2.2 := by
  rw [pieces, piecesAfter, piecesAfter_eq]
  rfl

end Source

end Treewalk
