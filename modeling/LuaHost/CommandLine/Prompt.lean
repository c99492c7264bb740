import LuaHost.CommandLine.Script

/-!
# The prompt

Lines are gathered until they make up a complete chunk.  A line is tried as an expression first, so
that the values of expressions are printed.
-/

namespace LuaHost.CommandLine

open Interface

/-! ## Gathering lines -/

/-- What a prompt needs: something to show before each line, lines, and someone who tries the text
that has been gathered and answers whether it needs more lines. -/
structure Console (m : Type → Type) where
  announce : (pending : Bool) → m Unit
  nextLine : m (Option String)
  attempt : String → m Bool

/-- The gathered text with another line. -/
def addLine (gathered line : String) : String :=
  if gathered.isEmpty then line else gathered ++ "\n" ++ line

/-- Gathers lines and tries them, until the lines end; `fuel` bounds the lines. -/
def Console.run {m : Type → Type} [Monad m] (c : Console m) (gathered : String) : Nat → m Unit
  | 0 => return ()
  | fuel + 1 => do
    c.announce (!gathered.isEmpty)
    match ← c.nextLine with
    | none => return ()
    | some line =>
      let text := addLine gathered line
      if ← c.attempt text then c.run text fuel else c.run "" fuel

/-! ## Chunks at the prompt -/

/-- Loads a text as an expression, or else as statements. -/
def loadLine (t : ThreadId) (text : String) : M Status := do
  match ← loadBuffer t ("return " ++ text ++ ";").toUTF8 "=stdin" none with
  | .ok => return .ok
  | _ =>
    pop t 1
    loadBuffer t text.toUTF8 "=stdin" none

/-- Whether a chunk is refused only because it ends too early. -/
def isIncomplete (t : ThreadId) (status : Status) : M Bool := do
  if status != .errSyntax then return false
  return match ← toText t (-1) with
    | some message => Bytes.endsWith message.toUTF8 "<eof>".toUTF8
    | none => false

def writeErrorLine (s : String) : M Unit :=
  Machine.modifyOutside (·.writeErrors (s ++ "\n").toUTF8)

def writeText (s : String) : M Unit := Machine.modifyOutside (·.writeThrough s.toUTF8)

/-- Prints all values on the stack with the global `print`, if that is a function. -/
def printResults (t : ThreadId) : M Unit := do
  let n ← getTop t
  if n == 0 then return ()
  if (← getGlobal t "print") != .function then pop t (n + 1)
  else
    insert t 1
    let status ← pcall t n 0 0
    match ← takeMessage t status with
    | .ok () => return ()
    | .error message => writeErrorLine ("lua: error calling 'print' (" ++ message ++ ")")

/-- Runs a text and shows its results or its error; answers whether it needs more lines. -/
def tryText (t : ThreadId) (text : String) : M Bool := do
  let status ← loadLine t text
  if ← isIncomplete t status then
    pop t 1
    return true
  let status ← if status.isOk then callTraced t 0 multipleResults else pure status
  match ← takeMessage t status with
  | .ok () => printResults t
  | .error message => writeErrorLine message
  setTop t 0
  return false

/-! ## Lines of the standard input -/

/-- How many bytes the prompt takes from the standard input at a time. -/
def lineBlock : Nat := 8192

/-- Takes blocks until there is a whole line, or the input ends; `fuel` bounds the blocks. -/
def gatherLine (b : Bytes) : Nat → M Bytes
  | 0 => return b
  | fuel + 1 => do
    if (b.findByte? (· == 10) 0).isSome then return b
    let (more, o) := (← Machine.outside).take lineBlock
    if more.size == 0 then return b
    Machine.modifyOutside fun _ => o
    gatherLine (b ++ more) fuel

/-- A line without its end. -/
def dropLineEnd (b : Bytes) : Bytes :=
  if !b.endsWith "\n".toUTF8 then b
  else
    let b : Bytes := b.extract 0 (b.size - 1)
    if b.endsWith "\r".toUTF8 then b.extract 0 (b.size - 1) else b

/-- The next line; the state is what has been taken and not been read.  A line that is no text counts
as the end of the input. -/
def nextLine : StateT Bytes M (Option String) := do
  let b ← gatherLine (← get) ((← Machine.outside).input.size + 1)
  let n := match b.findByte? (· == 10) 0 with
    | some i => i + 1
    | none => b.size
  set (b.extract n b.size)
  if n == 0 then return none
  return String.fromUTF8? (dropLineEnd (b.extract 0 n))

def console (t : ThreadId) : Console (StateT Bytes M) :=
  { announce := fun pending => writeText (if pending then ">> " else "> ")
    nextLine := nextLine
    attempt := fun text => tryText t text }

/-- Shows the prompt until the standard input ends. -/
def prompt (t : ThreadId) : M Unit := do
  let lines := (← Machine.outside).input.size + 1
  let _ ← ((console t).run "" lines).run ByteArray.empty
  writeText "\n"

end LuaHost.CommandLine
