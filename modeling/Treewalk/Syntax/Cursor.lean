import Treewalk.Syntax
import Treewalk.Syntax.Error

/-!
# Reading tokens

A `Parser` reads tokens from the front of a list, numbers the references it meets, and records
errors that do not stop it; an error that does stop it is thrown, and what was read and recorded
up to it is kept. The list holds no end token, so every step either keeps it or shortens it.
-/

namespace Treewalk

/-- Where a parser stands. -/
structure Cursor where
  /-- The tokens still to be read. -/
  rest : List Token
  /-- The token at the end. -/
  final : Token
  /-- The errors recorded so far, newest first. -/
  errors : List SyntaxError
  /-- The number of the next reference. -/
  nextId : NodeId

abbrev Parser := EStateM SyntaxError Cursor

namespace Parser

/-- The next token, or the one at the end. -/
def peek : Parser Token := fun c => .ok (c.rest.headD c.final) c

/-- All tokens are read. -/
def atEnd : Parser Bool := fun c => .ok c.rest.isEmpty c

/-- The next token has this kind. -/
def check (kind : TokenKind) : Parser Bool := fun c =>
  match c.rest with
  | [] => .ok false c
  | t :: _ => .ok (t.kind == kind) c

/-- Reads the next token. -/
def advance : Parser Unit := fun c => .ok () { c with rest := c.rest.tail }

/-- Reads the next token if its kind is among these. -/
def acceptAny (kinds : List TokenKind) : Parser (Option Token) := fun c =>
  match c.rest with
  | [] => .ok none c
  | t :: rest => if kinds.contains t.kind then .ok (some t) { c with rest } else .ok none c

/-- Reads the next token if it has this kind. -/
def accept (kind : TokenKind) : Parser (Option Token) := acceptAny [kind]

/-- Stops at the next token. -/
def stop {α : Type} (cause : SyntaxError.Cause) : Parser α := do
  throw ⟨← peek, cause⟩

/-- Reads a token of this kind, and stops if the next one has another. -/
def expect (kind : TokenKind) (cause : SyntaxError.Cause) : Parser Token := do
  match ← accept kind with
  | some t => pure t
  | none => stop cause

/-- Records an error and goes on. -/
def report (token : Token) (cause : SyntaxError.Cause) : Parser Unit :=
  modify fun c => { c with errors := ⟨token, cause⟩ :: c.errors }

/-- The number of a new reference. -/
def fresh : Parser NodeId := fun c => .ok c.nextId { c with nextId := c.nextId + 1 }

/-- A statement may begin with this kind, and nothing else. -/
def beginsStatement : TokenKind → Bool
  | .kwClass | .kwFun | .kwVar | .kwFor | .kwIf | .kwWhile | .kwPrint | .kwReturn => true
  | _ => false

/-- The tokens from the next statement on, where `last` was the token before them: a statement
begins behind a semicolon or with its keyword. -/
def skipFrom (last : Token) : List Token → List Token
  | [] => []
  | t :: rest =>
    if last.kind = .semicolon ∨ beginsStatement t.kind then t :: rest else skipFrom t rest

/-- Skips one token, and then all others up to the next statement. -/
def synchronize : List Token → List Token
  | [] => []
  | t :: rest => skipFrom t rest

/-- Runs a parser; if it stops, records why and goes on at the next statement. -/
@[inline] def recover {α : Type} (p : Parser α) : Parser (Option α) := fun c =>
  match p c with
  | .ok a c => .ok (some a) c
  | .error e c => .ok none { c with rest := synchronize c.rest, errors := e :: c.errors }

end Parser

end Treewalk
