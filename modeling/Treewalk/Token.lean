import Treewalk.Number

/-!
# Tokens

A token is a piece of source with its kind, its text and the line it ends on; numbers and strings
also carry the value they stand for. `TokenKind.keyword?` is the table of the sixteen keywords.
-/

namespace Treewalk

/-- The kinds of tokens. Constructors that begin with `kw` are keywords. -/
inductive TokenKind where
  | leftParen | rightParen | leftBrace | rightBrace
  | comma | dot | minus | plus | semicolon | slash | star
  | bang | bangEqual | equal | equalEqual
  | greater | greaterEqual | less | lessEqual
  | identifier | string | number
  | kwAnd | kwClass | kwElse | kwFalse | kwFun | kwFor | kwIf | kwNil | kwOr
  | kwPrint | kwReturn | kwSuper | kwThis | kwTrue | kwVar | kwWhile
  | eof
deriving Repr, DecidableEq, Inhabited

namespace TokenKind

/-- The name a kind is shown by. -/
def name : TokenKind → String
  | leftParen => "LEFT_PAREN"
  | rightParen => "RIGHT_PAREN"
  | leftBrace => "LEFT_BRACE"
  | rightBrace => "RIGHT_BRACE"
  | comma => "COMMA"
  | dot => "DOT"
  | minus => "MINUS"
  | plus => "PLUS"
  | semicolon => "SEMICOLON"
  | slash => "SLASH"
  | star => "STAR"
  | bang => "BANG"
  | bangEqual => "BANG_EQUAL"
  | equal => "EQUAL"
  | equalEqual => "EQUAL_EQUAL"
  | greater => "GREATER"
  | greaterEqual => "GREATER_EQUAL"
  | less => "LESS"
  | lessEqual => "LESS_EQUAL"
  | identifier => "IDENTIFIER"
  | string => "STRING"
  | number => "NUMBER"
  | kwAnd => "AND"
  | kwClass => "CLASS"
  | kwElse => "ELSE"
  | kwFalse => "FALSE"
  | kwFun => "FUN"
  | kwFor => "FOR"
  | kwIf => "IF"
  | kwNil => "NIL"
  | kwOr => "OR"
  | kwPrint => "PRINT"
  | kwReturn => "RETURN"
  | kwSuper => "SUPER"
  | kwThis => "THIS"
  | kwTrue => "TRUE"
  | kwVar => "VAR"
  | kwWhile => "WHILE"
  | eof => "EOF"

/-- All kinds, in the order of their declaration. -/
def all : List TokenKind :=
  [leftParen, rightParen, leftBrace, rightBrace, comma, dot, minus, plus, semicolon, slash, star,
    bang, bangEqual, equal, equalEqual, greater, greaterEqual, less, lessEqual,
    identifier, string, number,
    kwAnd, kwClass, kwElse, kwFalse, kwFun, kwFor, kwIf, kwNil, kwOr,
    kwPrint, kwReturn, kwSuper, kwThis, kwTrue, kwVar, kwWhile, eof]

/-- The kind that is shown by a name. -/
def ofName? (name : String) : Option TokenKind := all.find? (·.name == name)

/-- The sixteen keywords. -/
def keywords : List (String × TokenKind) :=
  [("and", kwAnd), ("class", kwClass), ("else", kwElse), ("false", kwFalse), ("fun", kwFun),
    ("for", kwFor), ("if", kwIf), ("nil", kwNil), ("or", kwOr), ("print", kwPrint),
    ("return", kwReturn), ("super", kwSuper), ("this", kwThis), ("true", kwTrue), ("var", kwVar),
    ("while", kwWhile)]

/-- The kind of a word that is a keyword. -/
def keyword? (word : String) : Option TokenKind := keywords.lookup word

end TokenKind

/-- The value that a number or a string token stands for. -/
inductive Token.Literal where
  | number (value : Float)
  | text (value : String)
deriving DecidableEq

/-- A piece of source, and the line on which it ends. -/
structure Token where
  kind : TokenKind
  lexeme : String
  literal : Option Token.Literal
  line : Nat
deriving DecidableEq

namespace Token

/-- The token that ends a source. -/
def eof (line : Nat) : Token := ⟨.eof, "", none, line⟩

/-- The text of a literal behind its token. -/
def Literal.display : Literal → String
  | .number value => Number.tokenForm value
  | .text value => value

/-- Kind, lexeme and literal; a token without a literal shows `null`. -/
def display (t : Token) : String :=
  t.kind.name ++ " " ++ t.lexeme ++ " " ++ (t.literal.map Literal.display).getD "null"

end Token

end Treewalk
