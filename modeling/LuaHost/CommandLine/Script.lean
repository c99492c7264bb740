import LuaHost.CommandLine.Options
import LuaHost.Interface.Execution
import LuaHost.Interface.Opening

/-!
# Running scripts

Chunks from the command line, from files and from the standard input are run under a message handler
that puts a traceback under the message of an error.
-/

namespace LuaHost.CommandLine

open Interface

/-! ## Calls with tracebacks -/

/-- The text of an error object. -/
def errorText (t : ThreadId) : M String := do
  match ← typeOf t 1 with
  | .string | .number => return (← toText t 1).getD ""
  | .nil | .none => return "(error object is a nil value)"
  | _ =>
    let s ← displayValue t 1
    pop t 1
    return s

/-- Puts a traceback under the text of an error object. -/
def handleMessage (t : ThreadId) : M Nat := do
  let message ← errorText t
  pushTraceback t t (some message) 1
  return 1

/-- The only host function: the message handler. -/
def messageHandler : HostFn := ⟨0⟩

def embedding : Embedding := { function := fun _ => handleMessage }

/-- Calls the function under `nargs` arguments, with tracebacks. -/
def callTraced (t : ThreadId) (nargs : Nat) (wanted : Int) : M Status := do
  let base := (← getTop t) - nargs
  pushFunction t messageHandler
  insert t base
  let status ← pcall t nargs wanted base
  remove t base
  return status

/-- Takes the message of an error off the stack. -/
def takeMessage (t : ThreadId) (status : Status) : M (Except String Unit) := do
  if status.isOk then return .ok ()
  let message ← match ← toText t (-1) with
    | some s => pure s
    | none => do pure ("(error object is a " ++ (← typeName t (-1)) ++ " value)")
  pop t 1
  return .error message

/-! ## Chunks -/

/-- Runs a chunk without arguments, for no results. -/
def runChunk (t : ThreadId) (chunk : Bytes) (name : String) : M (Except String Unit) := do
  let status ← loadBuffer t chunk name none
  let status ← if status.isOk then callTraced t 0 0 else pure status
  takeMessage t status

/-- Runs a chunk with arguments, for all its results. -/
def runWith (t : ThreadId) (chunk : Bytes) (name : String) (arguments : List String) :
    M (Except String Unit) := do
  let status ← loadBuffer t chunk name none
  let status ← if status.isOk then do
      arguments.forM (pushString t)
      callTraced t arguments.length multipleResults
    else pure status
  takeMessage t status

/-- A script file as a chunk: a first line that begins with `#` becomes a comment. -/
def fileChunk (b : Bytes) : Bytes :=
  if b.byte? 0 == some 35 then
    "--".toUTF8 ++ b.extract ((b.findByte? (· == 10) 0).getD b.size) b.size
  else b

/-- What is said about a file that cannot be read. -/
def unreadable (name : String) (f : FileFault) : String :=
  "cannot open " ++ name ++ ": " ++ f.message ++ " (os error " ++ toString f.code ++ ")"

def runFile (t : ThreadId) (name : String) (arguments : List String) :
    M (Except String Unit) := do
  match (← Machine.outside).openRead name with
  | .ok b => runWith t (fileChunk b) ("@" ++ name) arguments
  | .error f => return .error (unreadable name f)

/-- Runs all of the standard input that nobody has taken. -/
def runInput (t : ThreadId) (arguments : List String) : M (Except String Unit) := do
  let (chunk, o) := (← Machine.outside).take (← Machine.outside).input.size
  Machine.modifyOutside fun _ => o
  runWith t chunk "=stdin" arguments

end LuaHost.CommandLine
