import Treewalk.Token.Piece

/-!
# Scanning

`Source.scan` turns the pieces of a source into tokens and lexical errors. Each carries the line on
which its piece ends; blanks and comments only move the line on. An error ends nothing, and the
last item is the token that stands for the end.
-/

namespace Treewalk

/-- What is wrong with a piece of source. -/
inductive LexicalError.Cause where
  | unexpectedCharacter (text : String)
  | unterminatedString
  | unterminatedComment
deriving Repr, DecidableEq

/-- A piece that is no token, and the line it ends on. -/
structure LexicalError where
  cause : LexicalError.Cause
  line : Nat
deriving Repr, DecidableEq

def LexicalError.message (e : LexicalError) : String :=
  match e.cause with
  | .unexpectedCharacter text => "Unexpected character: " ++ text
  | .unterminatedString => "Unterminated string."
  | .unterminatedComment => "Unterminated block comment."

namespace Source

/-- The decimal that digits and perhaps a point and more digits stand for. -/
def decimalOf (text : List UInt8) : Decimal :=
  let fraction := (text.dropWhile isDigit).drop 1
  let figures := text.takeWhile isDigit ++ fraction
  ⟨figures.foldl (fun n b => 10 * n + (b.toNat - 48)) 0, -(fraction.length : Int)⟩

/-- The value of a token with these bytes: a number, or the text between the quotes. -/
def literalOf (kind : TokenKind) (slice : List UInt8) : Option Token.Literal :=
  match kind with
  | .number => some (.number (decimalOf slice).toFloat)
  | .string => some (.text (Utf8.decode (slice.drop 1).dropLast))
  | _ => none

/-- What scanning yields: a token or an error. -/
abbrev Item := Except LexicalError Token

/-- The item of a piece that ends on `line`; blanks and comments have none. -/
def itemOf (piece : Piece) (line : Nat) : Option Item :=
  match piece.kind with
  | .blank => none
  | .comment => none
  | .token kind => some (.ok ⟨kind, Utf8.decode piece.slice, literalOf kind piece.slice, line⟩)
  | .stray => some (.error ⟨.unexpectedCharacter (Utf8.decode piece.slice), line⟩)
  | .openString => some (.error ⟨.unterminatedString, line⟩)
  | .openComment => some (.error ⟨.unterminatedComment, line⟩)

/-- The lines that a slice ends. -/
def linesIn (slice : List UInt8) : Nat := slice.count lineFeed

/-- The items of pieces that begin on `line`, behind the items `done`, which stand newest first. -/
def itemsAfter (done : List Item) (line : Nat) : List Piece → List Item
  | [] => (.ok (Token.eof line) :: done).reverse
  | piece :: rest =>
    let last := line + linesIn piece.slice
    match itemOf piece last with
    | some item => itemsAfter (item :: done) last rest
    | none => itemsAfter done last rest

/-- All tokens and lexical errors of a source, in order, and the token at its end. -/
def scan (source : List UInt8) : List Item := itemsAfter [] 1 (pieces source)

/-- The tokens among items. -/
def tokens (items : List Item) : List Token := items.filterMap Except.toOption

/-- The errors among items. -/
def errors (items : List Item) : List LexicalError :=
  items.filterMap fun
    | .ok _ => none
    | .error e => some e

end Source

end Treewalk
