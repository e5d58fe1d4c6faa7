import Treewalk.CommandLine.Arguments
import Treewalk.Session
import Treewalk.Syntax.Dump
import Treewalk.Syntax.Form
import Treewalk.Text.Quoted
import Treewalk.Text.Utf8

/-!
# The command line

`CommandLine.perform` is the whole program as a function: from an invocation and what its host
holds to what it writes and the status it exits with. The commands show the stages of a run:
the tokens of a file, its statements, or its output. Without a file, `run` reads lines, each a
batch of one session; errors are reported and the session goes on.
-/

namespace Treewalk

/-- Why a file cannot be opened, read or created. -/
inductive FileError where
  | missing
  | denied
  | notDirectory
  | directory
  | nameTooLong
  | other (message : String)
deriving Repr, DecidableEq

/-- The message of a file error, with its number. -/
def FileError.message : FileError → String
  | .missing => "No such file or directory (os error 2)"
  | .denied => "Permission denied (os error 13)"
  | .notDirectory => "Not a directory (os error 20)"
  | .directory => "Is a directory (os error 21)"
  | .nameTooLong => "File name too long (os error 36)"
  | .other message => message

/-- Why an attempt failed, if it did. -/
def FileError.of? {α : Type} : Except FileError α → Option FileError
  | .ok _ => none
  | .error e => some e

/-- What the program finds around it. -/
structure Host where
  /-- Why a file cannot be opened. -/
  openError : String → Option FileError
  /-- The bytes of a file that can be opened. -/
  read : String → Except FileError (List UInt8)
  /-- Why a file cannot be created. -/
  createError : String → Option FileError
  input : List UInt8
  clock : Nat → Float
  /-- The steps that each statement may take. -/
  steps : Nat

/-- What the program leaves behind. -/
structure Report where
  exitCode : Nat
  stdout : String
  stderr : String
deriving Repr, DecidableEq

namespace CommandLine

/-- Each text on a line of its own. -/
def lines (texts : List String) : String := String.join (texts.map (· ++ "\n"))

/-- The report of a failure that is none of the source. -/
def failed (stdout context cause : String) : Report :=
  ⟨1, stdout, "Error: " ++ context ++ "\n\nCaused by:\n    " ++ cause ++ "\n"⟩

/-- Goes on with the bytes of a file. -/
def withFile (host : Host) (file : String) (next : List UInt8 → Report) : Report :=
  match host.openError file with
  | some e => failed "" ("Failed to open file " ++ Quoted.quote file) e.message
  | none =>
    match host.read file with
    | .ok bytes => next bytes
    | .error e => failed "" ("Failed to read file " ++ Quoted.quote file) e.message

/-- The tokens of a source, a line each. -/
def tokenize (source : List UInt8) : Report :=
  let items := Source.scan source
  let errors := Source.errors items
  ⟨if errors.isEmpty then 0 else 65, lines ((Source.tokens items).map Token.display),
    lines (errors.map fun e => (Diagnostic.lexical e).text)⟩

/-- The statements of a source, as prefix forms or as JSON. They are shown in spite of lexical
errors, if the tokens that are left make up a program. -/
def parse (json : Bool) (source : List UInt8) : Report :=
  let items := Source.scan source
  let lexical := (Source.errors items).map fun e => (Diagnostic.lexical e).text
  match (Treewalk.parse (Source.tokens items) 0).result with
  | .ok program =>
    let shown := if json then [(programJson program).pretty] else program.map Stmt.prefixText
    ⟨if lexical.isEmpty then 0 else 65, lines shown, lines lexical⟩
  | .error errors =>
    ⟨65, "", lines (lexical ++ errors.map fun e => (Diagnostic.syntactic e).text)⟩

/-- The exit status of a batch. -/
def exitCode : Except Failure Unit → Nat
  | .ok _ => 0
  | .error failure => failure.exitCode

/-- What a batch writes to the error output. -/
def complaint : Except Failure Unit → String
  | .ok _ => ""
  | .error failure => failure.text ++ "\n"

/-- The output of a source that is run as the only batch of a session. -/
def runFile (host : Host) (source : List UInt8) : Report :=
  let (result, session) := (Session.start .unlimited host.clock).run host.steps source
  ⟨exitCode result, session.output, complaint result⟩

/-- The first line of an input, with its line feed, and the rest. -/
def firstLine (input : List UInt8) : List UInt8 × List UInt8 :=
  match input.dropWhile (· != Source.lineFeed) with
  | [] => (input, [])
  | feed :: rest => (input.takeWhile (· != Source.lineFeed) ++ [feed], rest)

/-- A line without the line feed that ends it, and without a carriage return before that. -/
def chomp (line : List UInt8) : List UInt8 :=
  match line.reverse with
  | 10 :: 13 :: rest => rest.reverse
  | 10 :: rest => rest.reverse
  | _ => line

/-- Stands before each line that is read. -/
def prompt : String := "> "

/-- The answer to a line typed at the prompt. Without a session the conversation has failed. -/
structure Reply where
  stdout : String
  stderr : String
  session : Option Session

/-- Runs a line as a batch of its own. It has to be text. -/
def reply (steps : Nat) (session : Session) (line : List UInt8) : Reply :=
  if Utf8.valid line then
    let printed := session.output.length
    let (result, session) := session.run steps (chomp line)
    ⟨String.ofList (session.output.toList.drop printed), complaint result, some session⟩
  else
    let report := failed "" "Failed to read from stdin" "stream did not contain valid UTF-8"
    ⟨report.stdout, report.stderr, none⟩

/-- The exit status of a conversation that has failed. -/
def brokenOff : Nat := 1

/-- Written when there are no more lines. -/
def farewell : String := "\n"

/-- Runs the lines of an input, at most `count` of them; `stdout` and `stderr` are what was written
before. -/
def converse (steps : Nat) (session : Session) (stdout stderr : String) :
    Nat → List UInt8 → Report
  | 0, _ => ⟨0, stdout ++ prompt ++ farewell, stderr⟩
  | count + 1, input =>
    if input.isEmpty then ⟨0, stdout ++ prompt ++ farewell, stderr⟩
    else
      let (line, rest) := firstLine input
      let answer := reply steps session line
      let stdout := stdout ++ prompt ++ answer.stdout
      let stderr := stderr ++ answer.stderr
      match answer.session with
      | some session => converse steps session stdout stderr count rest
      | none => ⟨brokenOff, stdout, stderr⟩

/-- Runs the lines of the input, each as a batch of one session. There are no more lines than
bytes. -/
def runPrompt (host : Host) : Report :=
  converse host.steps (.start .unlimited host.clock) "" "" host.input.length host.input

/-- The report of arguments that are not an invocation. -/
def refused (refusal : Refusal) : Report :=
  match refusal with
  | .helpAsked => ⟨0, usage, ""⟩
  | .misused => ⟨2, "", usage⟩

/-- What a command does. -/
def runCommand (host : Host) : Command → Report
  | .tokenize file => withFile host file tokenize
  | .parse json file => withFile host file (parse json)
  | .run (some file) => withFile host file (runFile host)
  | .run none => runPrompt host

/-- The report of an invocation whose log file cannot be created. -/
def logFailure? (host : Host) (invocation : Invocation) : Option Report := do
  let path ← invocation.log
  let e ← host.createError path
  pure (failed "" ("Failed to create " ++ Quoted.quote path) e.message)

/-- What an invocation does. The log file is created first. -/
def perform (host : Host) (invocation : Invocation) : Report :=
  (logFailure? host invocation).getD (runCommand host invocation.command)

/-- The log file that an invocation leaves behind. -/
def created? (host : Host) (invocation : Invocation) : Option String :=
  invocation.log.filter fun path => (host.createError path).isNone

end CommandLine

end Treewalk
