import Std.Time.DateTime.Timestamp
import Treewalk.CommandLine

/-!
# The program

`main` fetches what an invocation asks for and writes what `CommandLine` makes of it. A file is
read and run as a whole; at the prompt each line is answered before the next one is read.
-/

namespace Treewalk.Main

/-- Steps for each statement: more than any run lives to take. -/
def stepsPerStatement : Nat := 1000000000000000000

/-- The time of day in seconds. Each later reading is a microsecond on, so that a program that
waits for a moment to pass comes to an end. -/
def readClock : IO (Nat → Float) := do
  let now ← Std.Time.Timestamp.now
  let start := Float.ofInt now.toMillisecondsSinceUnixEpoch.toInt / 1000
  pure fun reading => start + reading.toFloat / 1000000

/-- The cause of a failure to open, read or create a file. -/
def fileError (e : IO.Error) : FileError :=
  match e with
  | .noFileOrDirectory .. => .missing
  | .permissionDenied .. => .denied
  | .inappropriateType _ 20 _ => .notDirectory
  | .inappropriateType _ 21 _ => .directory
  | .invalidArgument _ 36 _ => .nameTooLong
  | e => .other e.toString

/-- The outcome of an action on a file. -/
def attempt {α : Type} (action : IO α) : IO (Except FileError α) :=
  try
    pure (.ok (← action))
  catch e =>
    pure (.error (fileError e))

/-- The host of an invocation, which touches at most two files: it creates the log file, and then
reads the file of the command. -/
def hostOf (invocation : Invocation) : IO Host := do
  let created ← attempt (invocation.log.mapM fun path => IO.FS.Handle.mk path .write)
  let opened ← attempt (invocation.command.file?.mapM fun path => IO.FS.Handle.mk path .read)
  let bytes ←
    match opened with
    | .ok (some handle) => attempt handle.readBinToEnd
    | _ => pure (.ok .empty)
  let clock ← readClock
  pure {
    openError := fun _ => FileError.of? opened
    read := fun _ => bytes.map (·.toList)
    createError := fun _ => FileError.of? created
    input := []
    clock := clock
    steps := stepsPerStatement
  }

/-- Writes to both outputs. -/
def write (stdout stderr : String) : IO Unit := do
  let output ← IO.getStdout
  output.putStr stdout
  output.flush
  (← IO.getStderr).putStr stderr

/-- Reads up to a line feed, which belongs to the line; `line` holds the bytes before, newest
first. At the end of the input the line is empty. -/
partial def readLine (input : IO.FS.Stream) (line : List UInt8) : IO (List UInt8) := do
  match (← input.read 1).toList with
  | [] => pure line.reverse
  | b :: _ => if b = Source.lineFeed then pure (b :: line).reverse else readLine input (b :: line)

/-- Answers the lines of the standard input one by one. -/
partial def converse (session : Session) : IO Nat := do
  write CommandLine.prompt ""
  let line ← readLine (← IO.getStdin) []
  if line.isEmpty then
    write CommandLine.farewell ""
    pure 0
  else
    let session := session.withClock (← readClock)
    let answer := CommandLine.reply stepsPerStatement session line
    write answer.stdout answer.stderr
    match answer.session with
    | some session => converse session
    | none => pure CommandLine.brokenOff

/-- Writes a report. -/
def publish (report : Report) : IO Nat := do
  write report.stdout report.stderr
  pure report.exitCode

/-- Does what an invocation asks for. -/
def run (invocation : Invocation) : IO Nat := do
  let host ← hostOf invocation
  match invocation.command, CommandLine.logFailure? host invocation with
  | .run none, none => converse (.start .unlimited host.clock)
  | _, _ => publish (CommandLine.perform host invocation)

end Treewalk.Main

def main (args : List String) : IO UInt32 := do
  let code ←
    match Treewalk.Invocation.ofArguments args with
    | .ok invocation => Treewalk.Main.run invocation
    | .error refusal => Treewalk.Main.publish (Treewalk.CommandLine.refused refusal)
  pure code.toUInt32
