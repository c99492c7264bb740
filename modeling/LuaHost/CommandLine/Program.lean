import LuaHost.CommandLine.Prompt
import LuaHost.Interface.PushHost

/-!
# The program

The order in which a command line is carried out: the version, warnings, the table of arguments, the
environment's chunk, the statements, the script or the standard input, and the prompt.  The first
error ends the program.
-/

namespace LuaHost.CommandLine

open Interface

/-- The name of the program. -/
def programName : String := "lua"

/-- The table of arguments: the program at −1, the script at 0, and the arguments from 1 on. -/
def argumentTable (script : Option String) (arguments : List String) : Data.Table :=
  let t := Data.Table.ofValues (arguments.map .string)
  let t := t.set (.integer (-1)) (.string programName)
  match script with
  | some name => t.set (.integer 0) (.string name)
  | none => t

/-- The first of the environment's variables for a chunk that is set: its name and its value. -/
def initialChunk? (environment : List (String × String)) : Option (String × String) :=
  ["LUA_INIT_5_4", "LUA_INIT"].findSome? fun name =>
    (environment.lookup name).map fun v => (name, v)

/-- Runs the chunk that the environment gives, or the file that it names. -/
def runInitialChunk (t : ThreadId) : M (Except String Unit) := do
  match initialChunk? (← Machine.outside).environment with
  | none => return .ok ()
  | some (name, chunk) =>
    match chunk.toList with
    | '@' :: file => runFile t (String.ofList file) []
    | _ => runChunk t chunk.toUTF8 ("=" ++ name)

def runStatement (t : ThreadId) (statement : String) : M (Except String Unit) :=
  runChunk t statement.toUTF8 "=(command line)"

/-- Makes the table of arguments the global `arg`. -/
def installArguments (t : ThreadId) (o : Options) : M Unit := do
  pushHost t (.table (argumentTable o.script o.arguments))
  setGlobal t "arg"

/-- Runs the script, or the standard input in its place. -/
def runScript (t : ThreadId) (o : Options) : M (Except String Unit) := do
  match o.script with
  | some name => runFile t name o.arguments
  | none => if o.readInput then runInput t o.arguments else return .ok ()

/-- Carries out what comes before the prompt, up to the first error. -/
def runChunks (t : ThreadId) (o : Options) : ExceptT String M Unit := do
  if !o.ignoreEnvironment then ExceptT.mk (runInitialChunk t)
  o.statements.forM fun s => ExceptT.mk (runStatement t s)
  ExceptT.mk (runScript t o)

/-- Carries out a command line on a machine that is open: the exit code. -/
def carryOut (t : ThreadId) (o : Options) : M Nat := do
  if o.warnings then
    let _ ← runStatement t "warn('@on')"
  installArguments t o
  match ← (runChunks t o).run with
  | .error message =>
    writeErrorLine (programName ++ ": " ++ message)
    return 1
  | .ok () =>
    if o.prompts then
      if !o.showVersion then writeText (versionLine ++ "\n")
      prompt t
    return 0

/-- The program from the words after its name to its exit code. -/
def program (words : List String) : M Nat := do
  match Options.parse words with
  | .error f =>
    writeErrorLine (programName ++ ": " ++ f.message)
    usage.forM writeErrorLine
    return 1
  | .ok o =>
    if o.showVersion then writeText (versionLine ++ "\n")
    openMachine true
    let code ← carryOut (← get).mainThread o
    closeMachine
    return code

/-- The exit code of a program that is aborted. -/
def abortCode : Nat := 134

/-- What is said when an error is raised where nothing protects. -/
def abortMessage (w : World) (t : ThreadId) : String :=
  let th := w.heap.threads.get t.index
  let message := match th.stack.getD (th.top - 1) .nil with
    | .str s => s.untilNul.toText
    | _ => "error object is not a string"
  "PANIC: unprotected error in call to Lua API (" ++ message ++ ")\n"

/-- Runs the program in its surroundings: what it leaves of them, and its exit code. -/
def run (words : List String) (surroundings : Outside) : Outside × Nat :=
  let w := { freshWorld with outside := surroundings }
  match Machine.exec embedding.host (program words) w with
  | .ok code w => (w.outside.flush, code)
  | .error (.exit code) w => (w.outside.flush, code)
  | .error (.error t _) w => (w.outside.writeErrors (abortMessage w t).toUTF8, abortCode)
  | .error _ w => (w.outside, abortCode)

end LuaHost.CommandLine
