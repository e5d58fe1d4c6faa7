import Treewalk.CommandLine

/-!
# A host with one directory of files

`Host.ofFiles` is a host whose files lie in the directory that the program is started in. Around it
stand directories of which only a few names are known. A path is followed part by part: each part
but the last has to lead to a directory, and the first one that leads nowhere is the error.
-/

namespace Treewalk

/-- A path: where it starts, the parts between its slashes, and whether it ends in a slash. -/
structure Path where
  absolute : Bool
  parts : List String
  endsInSlash : Bool
deriving Repr, DecidableEq

/-- The path that a text stands for. Slashes in a row count as one. -/
def Path.ofString (text : String) : Path where
  absolute := text.toList.head? == some '/'
  parts := (text.splitOn "/").filter (· != "")
  endsInSlash := text.toList.getLast? == some '/'

/-- The directories that a path can pass. -/
inductive Directory where
  | root
  | devices
  /-- Any directory that every root holds, but that of the devices. -/
  | standard
  /-- The directory around the working directory. -/
  | outer
  | working
deriving Repr, DecidableEq

namespace Directory

/-- The most bytes of a part of a path. -/
def maxPart : Nat := 255

/-- The most bytes of a path. -/
def maxPath : Nat := 4095

/-- The names in the root, but that of the devices. -/
def standardNames : List String :=
  ["bin", "boot", "etc", "home", "lib", "media", "mnt", "opt", "proc", "root", "run", "sbin", "srv",
    "sys", "tmp", "usr", "var"]

/-- The directory around a directory. The root stands in itself. -/
def outward : Directory → Directory
  | root => root
  | devices => root
  | standard => root
  | outer => root
  | working => outer

/-- What a path leads to. -/
inductive Entry where
  | directory (d : Directory)
  | file (bytes : List UInt8)

/-- The files of the working directory, and what can be read from the standard input. -/
structure Contents where
  files : List (String × List UInt8)
  input : List UInt8

/-- What a directory holds under a name. -/
def entry? (contents : Contents) (d : Directory) (name : String) : Option Entry :=
  match d with
  | root =>
    if name == "dev" then some (.directory devices)
    else if standardNames.contains name then some (.directory standard)
    else none
  | devices =>
    if name == "null" then some (.file [])
    else if name == "stdin" then some (.file contents.input)
    else none
  | working => (contents.files.lookup name).map .file
  | _ => none

/-- The parts that lead to the directory itself and to the one around it. -/
def isDots (part : String) : Bool := part == "." || part == ".."

/-- What a part of a path leads to from a directory. -/
def step (contents : Contents) (d : Directory) (part : String) : Except FileError Entry :=
  if part == "." then .ok (.directory d)
  else if part == ".." then .ok (.directory d.outward)
  else if maxPart < part.utf8ByteSize then .error .nameTooLong
  else
    match d.entry? contents part with
    | some entry => .ok entry
    | none => .error .missing

/-- The directory that parts of a path lead to. -/
def follow (contents : Contents) (d : Directory) : List String → Except FileError Directory
  | [] => .ok d
  | part :: rest =>
    match d.step contents part with
    | .ok (.directory inner) => inner.follow contents rest
    | .ok (.file _) => .error .notDirectory
    | .error e => .error e

/-- The directory that holds the last part of a path, and that part; a path without parts has
none. -/
def approach (contents : Contents) (text : String) :
    Except FileError (Directory × Option String) :=
  if maxPath < text.utf8ByteSize then .error .nameTooLong
  else
    let path := Path.ofString text
    let start := if path.absolute then root else working
    match start.follow contents path.parts.dropLast with
    | .ok d => .ok (d, path.parts.getLast?)
    | .error e => .error e

/-- What a path leads to. Only a directory may have a slash behind it. -/
def find (contents : Contents) (text : String) : Except FileError Entry :=
  match approach contents text with
  | .error e => .error e
  | .ok (d, none) => if text.isEmpty then .error .missing else .ok (.directory d)
  | .ok (d, some last) =>
    match d.step contents last with
    | .ok (.file bytes) =>
      if (Path.ofString text).endsInSlash then .error .notDirectory else .ok (.file bytes)
    | found => found

/-- The directory and the name under which a path can be created, or emptied if it is a file. -/
def place (contents : Contents) (text : String) : Except FileError (Directory × String) :=
  match approach contents text with
  | .error e => .error e
  | .ok (_, none) => if text.isEmpty then .error .missing else .error .directory
  | .ok (d, some last) =>
    if isDots last || (Path.ofString text).endsInSlash then .error .directory
    else
      match d.step contents last with
      | .ok (.directory _) => .error .directory
      | .ok (.file _) => .ok (d, last)
      | .error .missing => .ok (d, last)
      | .error e => .error e

/-- The name of the file in the working directory that creating a path adds to the files. -/
def added? (contents : Contents) (text : String) : Option String :=
  match place contents text with
  | .ok (working, name) => if (contents.files.lookup name).isNone then some name else none
  | _ => none

end Directory

/-- A host that holds files by name. Directories can be opened, and not read. -/
def Host.ofFiles (contents : Directory.Contents) (clock : Nat → Float) (steps : Nat) : Host where
  openError path := FileError.of? (Directory.find contents path)
  read path :=
    match Directory.find contents path with
    | .ok (.file bytes) => .ok bytes
    | .ok (.directory _) => .error .directory
    | .error e => .error e
  createError path := FileError.of? (Directory.place contents path)
  input := contents.input
  clock := clock
  steps := steps

end Treewalk
