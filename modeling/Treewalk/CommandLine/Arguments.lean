/-!
# The arguments of the program

`Invocation.ofArguments` reads the arguments: a command with its own, and the options for a log
file, which may stand before the command or behind it.
-/

namespace Treewalk

/-- What the program is asked to do. -/
inductive Command where
  | tokenize (file : String)
  | parse (json : Bool) (file : String)
  /-- Runs a file, or else the lines of the input one by one. -/
  | run (file : Option String)
deriving Repr, DecidableEq

/-- The file that a command reads. -/
def Command.file? : Command → Option String
  | .tokenize file => some file
  | .parse _ file => some file
  | .run file => file

/-- A command, and the log file that is to be created. -/
structure Invocation where
  command : Command
  log : Option String
deriving Repr, DecidableEq

/-- Why arguments are not an invocation. -/
inductive Refusal where
  | helpAsked
  | misused
deriving Repr, DecidableEq

/-- How the program is used. -/
def usage : String :=
  "usage: tokenize FILE | parse [--json] FILE | run [FILE]   with --log and --log-file PATH\n"

namespace Arguments

/-- The log file without an option that names another. -/
def defaultLog : String := "app.log"

/-- The options and other arguments of one level: those before the command, or those behind it. -/
structure Level where
  log : Bool
  logFile : Option String
  json : Bool
  others : List String
deriving Repr, DecidableEq

def Level.empty : Level := ⟨false, none, false, []⟩

/-- An argument that may be the value of an option. -/
def isValue (arg : String) : Bool := !arg.isEmpty && (!arg.startsWith "-" || arg == "-")

/-- Reads the arguments of a level. Before the command the first argument that is no option ends
the level: it is the command, and the rest is returned. An option may be given once. -/
def readLevel (behindCommand : Bool) (level : Level) :
    List String → Except Refusal (Level × List String)
  | [] => .ok (level, [])
  | arg :: rest =>
    if arg == "--" then
      if behindCommand then .ok ({ level with others := level.others ++ rest }, [])
      else .error .misused
    else if arg == "--help" || arg == "-h" then .error .helpAsked
    else if (arg == "--version" || arg == "-V") && !behindCommand then .error .helpAsked
    else if arg == "--log" then
      if level.log then .error .misused
      else readLevel behindCommand { level with log := true } rest
    else if arg == "--json" && behindCommand then
      if level.json then .error .misused
      else readLevel behindCommand { level with json := true } rest
    else if arg == "--log-file" then
      match rest with
      | value :: rest =>
        if isValue value && level.logFile.isNone then
          readLevel behindCommand { level with logFile := some value } rest
        else .error .misused
      | [] => .error .misused
    else if arg.startsWith "--log-file=" then
      let value := String.ofList (arg.toList.drop "--log-file=".length)
      if !value.isEmpty && level.logFile.isNone then
        readLevel behindCommand { level with logFile := some value } rest
      else .error .misused
    else if !isValue arg then .error .misused
    else if behindCommand then
      readLevel behindCommand { level with others := level.others ++ [arg] } rest
    else .ok (level, arg :: rest)

/-- The command of a name with the arguments behind it. -/
def command (name : String) (level : Level) : Except Refusal Command :=
  match name, level.json, level.others with
  | "tokenize", false, [file] => .ok (.tokenize file)
  | "parse", json, [file] => .ok (.parse json file)
  | "run", false, [] => .ok (.run none)
  | "run", false, [file] => .ok (.run (some file))
  | "help", _, _ => .error .helpAsked
  | _, _, _ => .error .misused

end Arguments

/-- The invocation that arguments stand for. -/
def Invocation.ofArguments (args : List String) : Except Refusal Invocation := do
  let (before, rest) ← Arguments.readLevel false .empty args
  match rest with
  | [] => .error .misused
  | name :: rest =>
    let (behind, _) ← Arguments.readLevel true .empty rest
    let command ← Arguments.command name behind
    let file := (behind.logFile.or before.logFile).getD Arguments.defaultLog
    pure ⟨command, if before.log || behind.log then some file else none⟩

end Treewalk
