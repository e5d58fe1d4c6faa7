import Treewalk.Diagnostic
import Treewalk.Run.Evaluate
import Treewalk.Syntax.Parser

/-!
# Sessions

A session runs batches of source one after the other on one machine, so that what a batch defines
is there for the next one. A batch that does not compile changes nothing but the number of the
next reference.
-/

namespace Treewalk

/-- A program that is ready to run. -/
structure Compiled where
  program : List Stmt
  distances : List (NodeId × Nat)

/-- Scans and parses a source. Lexical errors come before syntax errors; both are always found. -/
def parseSource (source : List UInt8) (firstId : NodeId) :
    Except (List Diagnostic) (List Stmt) × NodeId :=
  let items := Source.scan source
  let lexical := (Source.errors items).map Diagnostic.lexical
  let parsed := parse (Source.tokens items) firstId
  match parsed.result with
  | .ok program =>
    if lexical.isEmpty then (.ok program, parsed.nextId) else (.error lexical, parsed.nextId)
  | .error errors => (.error (lexical ++ errors.map Diagnostic.syntactic), parsed.nextId)

/-- Scans, parses and resolves a source. The errors of names and scopes are looked for only in a
program without other errors. -/
def compile (source : List UInt8) (firstId : NodeId) :
    Except (List Diagnostic) Compiled × NodeId :=
  match parseSource source firstId with
  | (.error diagnostics, nextId) => (.error diagnostics, nextId)
  | (.ok program, nextId) =>
    match resolve program with
    | .ok distances => (.ok ⟨program, distances⟩, nextId)
    | .error errors => (.error (errors.map Diagnostic.scope), nextId)

/-- Why a run stopped. -/
def Stop.diagnostic : Stop → Diagnostic
  | .fault e => .runtime e
  | .output message => .output message
  | .exhausted => .exhausted

/-- A machine, and the number of the next reference. -/
structure Session where
  machine : Machine
  nextId : NodeId

namespace Session

/-- A session before its first batch. -/
def start (sink : Sink) (clock : Nat → Float) : Session := ⟨.initial sink clock, 0⟩

/-- What the session has printed. -/
def output (s : Session) : String := s.machine.sink.written.text

/-- The session with another clock. -/
def withClock (s : Session) (clock : Nat → Float) : Session :=
  { s with machine := { s.machine with clock } }

/-- How a run on the machine of a session ends. -/
def perform {α : Type} (s : Session) (run : Run α) : Except Failure α × Session :=
  match run s.machine with
  | .ok a machine => (.ok a, { s with machine })
  | .error stop machine => (.error (.stopped stop.diagnostic), { s with machine })

/-- Runs one batch of source with so many steps for each of its statements. -/
def run (steps : Nat) (s : Session) (source : List UInt8) : Except Failure Unit × Session :=
  match compile source s.nextId with
  | (.error diagnostics, nextId) => (.error (.rejected diagnostics), { s with nextId })
  | (.ok compiled, nextId) =>
    { s with nextId }.perform (interpret steps compiled.distances compiled.program)

end Session

/-- What is done with a batch whose last statement is an expression: the statements before it are
run as a batch, and the expression is evaluated. `none` for any other batch. -/
def evaluateLast? (steps : Nat) (c : Compiled) : Option (Run Value) :=
  match c.program.getLast? with
  | some (.expression e) =>
    some do
      interpret steps c.distances c.program.dropLast
      evaluate steps e
  | _ => none

end Treewalk
