import LuaHost.Library.Arguments
import LuaHost.Machine.Load
import LuaHost.Text.Lossy

/-!
# Files and streams

The files around the machine are a flat directory of names and contents, beside the three standard
streams.
-/

namespace LuaHost

/-- Why the outside refuses something. -/
inductive FileFault where
  | missing | badStream | exists_ | notDirectory | directory | invalid | noPosition
deriving DecidableEq, Inhabited

namespace FileFault

def code : FileFault → Int
  | missing => 2
  | badStream => 9
  | exists_ => 17
  | notDirectory => 20
  | directory => 21
  | invalid => 22
  | noPosition => 29

def message : FileFault → String
  | missing => "No such file or directory"
  | badStream => "Bad file descriptor"
  | exists_ => "File exists"
  | notDirectory => "Not a directory"
  | directory => "Is a directory"
  | invalid => "Invalid argument"
  | noPosition => "Illegal seek"

end FileFault

namespace Outside

/-! ## Files -/

/-- The plain name that a path denotes. -/
def plainName (path : String) : String :=
  if path.startsWith "./" then (path.drop 2).toString else path

/-- Whether a path is the directory itself. -/
def isDirectory (path : String) : Bool :=
  path == "." || path == "./" || path == "/" || path == ".."

def file? (o : Outside) (path : String) : Option Bytes := o.files.lookup (plainName path)

/-- Why nothing is found under a path. -/
def absence (o : Outside) (path : String) : FileFault :=
  if isDirectory path then .directory
  else
    match (plainName path).splitOn "/" with
    | [_] => .missing
    | head :: _ => if (o.file? head).isSome then .notDirectory else .missing
    | [] => .missing

/-- Whether a file could be made under a path. -/
def canCreate (path : String) : Bool :=
  !path.isEmpty && !isDirectory path && !(plainName path).contains '/'

def writeFile (o : Outside) (path : String) (content : Bytes) : Outside :=
  let name := plainName path
  { o with files := (name, content) :: o.files.filter (·.1 != name) }

def removeFile (o : Outside) (path : String) : Outside :=
  let name := plainName path
  { o with files := o.files.filter (·.1 != name) }

/-- Opens a file for reading. -/
def openRead (o : Outside) (path : String) : Except FileFault Bytes :=
  match o.file? path with
  | some b => .ok b
  | none => .error (o.absence path)

/-! ## The standard output -/

/-- How much of a standard stream goes through a buffer at a time. -/
def blockSize : Nat := 4096

/-- Hands on all that scripts have written. -/
def flush (o : Outside) : Outside :=
  { o with output := o.output ++ o.held, held := ByteArray.empty }

/-- How much of what scripts have written a buffer keeps. -/
def keptBack (b : Buffering) (written : Bytes) : Nat :=
  let rest := match b with
    | .none => 0
    | .line => (written.data.toList.reverse.takeWhile (· != 10)).length
    | .full => written.size
  if rest ≤ blockSize then rest else rest % blockSize

/-- Writes to the standard output for scripts. -/
def write (o : Outside) (s : Bytes) : Outside :=
  let written := o.held ++ s
  let n := written.size - keptBack o.buffering written
  { o with output := o.output ++ written.extract 0 n, held := written.extract n written.size }

/-- Writes to the standard output, past what scripts have written and is not handed on yet. -/
def writeThrough (o : Outside) (s : Bytes) : Outside := { o with output := o.output ++ s }

def writeErrors (o : Outside) (s : Bytes) : Outside := { o with errors := o.errors ++ s }

def setBuffering (o : Outside) (b : Buffering) : Outside :=
  let o := if b == .none then o.flush else o
  { o with buffering := b }

/-! ## The standard input -/

/-- All that scripts can still read of the standard input. -/
def unread (o : Outside) : Bytes := o.ahead ++ o.input

/-- Takes bytes off the standard input. -/
def take (o : Outside) (n : Nat) : Bytes × Outside :=
  (o.input.extract 0 n, { o with input := o.input.extract n o.input.size })

/-- Takes blocks off the standard input until `n` bytes are there for scripts. -/
def readAhead (o : Outside) (n : Nat) : Outside :=
  let blocks := (n - o.ahead.size + blockSize - 1) / blockSize
  let (b, o) := o.take (blocks * blockSize)
  { o with ahead := o.ahead ++ b }

/-- Uses up `n` bytes of what scripts can read.  Even where none are used, there is something to be
read afterwards, unless the input has ended. -/
def useUp (o : Outside) (n : Nat) : Outside :=
  let o := o.readAhead (max n 1)
  { o with ahead := o.ahead.extract n o.ahead.size }

end Outside

namespace Machine

def outside : M Outside := return (← get).outside

def writeOutput (s : Bytes) : M Unit := modifyOutside (·.write s)

def flushOutput : M Unit := modifyOutside (·.flush)

end Machine

namespace Library

open Machine

/-- A script file without what comes before its text: a byte order mark, and a first line that
begins with `#`, whose line break stays. -/
def scriptText (b : Bytes) : Bytes :=
  let b : Bytes := if b.startsWith (Bytes.ofList [0xEF, 0xBB, 0xBF]) then b.extract 3 b.size else b
  if b.byte? 0 == some 35 then
    match b.findByte? (· == 10) 0 with
    | some i =>
      if b.byte? (i + 1) == some 0x1b then b.extract (i + 1) b.size else b.extract i b.size
    | none => "\n".toUTF8
  else b

/-- All that is left of the standard input. -/
def restOfInput : M Bytes := do
  let b := (← outside).unread
  modifyOutside (·.useUp b.size)
  return b

/-- Loads a script file, or the standard input. -/
def loadFile (t : ThreadId) (name : Option Bytes) (mode : Option Bytes) : M Status := do
  match name with
  | none => loadChunk t (scriptText (← restOfInput)) "=stdin".toUTF8 mode
  | some n =>
    let n := n.untilNul
    match (← outside).openRead n.toText with
    | .ok b => loadChunk t (scriptText b) ("@".toUTF8 ++ n) mode
    | .error .directory =>
      pushBytes t ("cannot read ".toUTF8 ++ n ++ (": " ++ FileFault.directory.message).toUTF8)
      return .errFile
    | .error e =>
      pushBytes t ("cannot open ".toUTF8 ++ n ++ (": " ++ e.message).toUTF8)
      return .errFile

end Library

end LuaHost
