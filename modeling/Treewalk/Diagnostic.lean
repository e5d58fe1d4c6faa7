import Treewalk.Operator
import Treewalk.Syntax.Resolution
import Treewalk.Token.Scan

/-!
# Diagnostics

Every error that a source can lead to, with the text that reports it: the line first for an error
that is found before anything runs, the message first for one that ends a run.
-/

namespace Treewalk

inductive Diagnostic where
  | lexical (e : LexicalError)
  | syntactic (e : SyntaxError)
  | scope (e : ScopeError)
  | runtime (e : RuntimeError)
  /-- The output refused to take text. -/
  | output (message : String)
  /-- A run used up its steps. -/
  | exhausted
deriving DecidableEq

namespace Diagnostic

/-- The line that a diagnostic points at, if it has one. -/
def line? : Diagnostic → Option Nat
  | .lexical e => some e.line
  | .syntactic e => some e.token.line
  | .scope e => some e.token.line
  | .runtime e => some e.line
  | .output _ => none
  | .exhausted => none

/-- The message alone. -/
def message : Diagnostic → String
  | .lexical e => e.message
  | .syntactic e => e.cause.message
  | .scope e => e.cause.message
  | .runtime e => e.cause.message
  | .output message => message
  | .exhausted => "The run took too many steps."

/-- The report of an error that stands on a line, behind that line. -/
def atLine (line : Nat) (place message : String) : String :=
  "[line " ++ Nat.repr line ++ "] Error" ++ place ++ ": " ++ message

/-- The report. -/
def text : Diagnostic → String
  | .lexical e => atLine e.line "" e.message
  | .syntactic e => atLine e.token.line e.token.place e.cause.message
  | .scope e => atLine e.token.line e.token.place e.cause.message
  | .runtime e => e.cause.message ++ "\n[line " ++ Nat.repr e.line ++ "]"
  | .output message => message
  | .exhausted => "The run took too many steps."

end Diagnostic

/-- Why a batch of source did not run to its end. -/
inductive Failure where
  /-- Nothing was run: every error that was found. -/
  | rejected (diagnostics : List Diagnostic)
  /-- The run stopped at its first error. -/
  | stopped (diagnostic : Diagnostic)
deriving DecidableEq

namespace Failure

def diagnostics : Failure → List Diagnostic
  | .rejected diagnostics => diagnostics
  | .stopped diagnostic => [diagnostic]

/-- The exit status of a program that ends in this way. -/
def exitCode : Failure → Nat
  | .rejected _ => 65
  | .stopped _ => 70

/-- The reports of all diagnostics, one after the other. -/
def text (f : Failure) : String := String.intercalate "\n" (f.diagnostics.map Diagnostic.text)

end Failure

end Treewalk
