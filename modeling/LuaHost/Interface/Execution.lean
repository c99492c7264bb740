import LuaHost.Interface.Functions
import LuaHost.Fault
import LuaHost.Machine.Upvalues
import LuaHost.Library.Inspection

/-!
# Running code on behalf of the host

Loading chunks, calls, coroutines, tracebacks, hooks and the collector.
-/

namespace LuaHost.Interface

open Machine

/-! ## Loading -/

/-- Loads a chunk: pushes its function, or the message about what is wrong with it. -/
def loadBuffer (t : ThreadId) (chunk : Bytes) (name : String) (mode : Option String) :
    M Status := do
  reserve t 1
  loadChunk t chunk (cutName name) (mode.map cutName)

/-! ## Calls -/

/-- Calls the function under `nargs` arguments under protection. -/
def pcall (t : ThreadId) (nargs wanted handler : Int) : M Status := do
  if (← getTop t) ≤ nargs then abort "pcall without a function"
  protectedCall t nargs.toNat wanted handler

/-- Like `pcall`, but a yield may interrupt it; then `k` goes on. -/
def pcallWith (t : ThreadId) (nargs wanted handler : Int) (k : HostContinuation)
    (context : Int) : M Status := do
  if (← getTop t) ≤ nargs then abort "pcallk without a function"
  protectedCallWith t nargs.toNat wanted handler (.host k) context

def call (t : ThreadId) (nargs wanted : Int) : M Unit := do
  if (← getTop t) ≤ nargs then abort "call without a function"
  Machine.call t nargs.toNat wanted

/-- Loads and runs a chunk that is its own name; its results, or the error object, are pushed. -/
def doString (t : ThreadId) (code : String) : M Status := do
  match ← loadBuffer t code.toUTF8 code none with
  | .ok => pcall t 0 multipleResults 0
  | s => return s

/-- The fault that a status stands for, with the message on top of the stack. -/
def checkStatus (t : ThreadId) (s : Status) : M (Option Fault) := do
  if !s.isError then return none
  let message ← match ← typeOf t (-1) with
    | .string => pure ((← toText t (-1)).getD "")
    | .none => pure ""
    | k => pure ("(error object is a " ++ k.name ++ " value)")
  return Fault.ofStatus message s

/-! ## Coroutines -/

/-- Pushes a new thread. -/
def newThread (t : ThreadId) : M ThreadId := do
  reserve t 1
  pushNewThread t

def mainThread (t : ThreadId) : M ThreadId := do
  let _ ← rawGetInt t registryIndex mainThreadPlace
  let m ← toThread t (-1)
  pop t 1
  return m.getD t

/-- Starts or continues a thread with `nargs` values of its stack. -/
def resume (t : ThreadId) (caller : Option ThreadId) (nargs : Int) : M (Status × Nat) := do
  (← read).resume t caller nargs.toNat

def status (t : ThreadId) : M Status := return (← thread t).status

def isYieldable (t : ThreadId) : M Bool := yieldable t

/-- Yields the `n` topmost values; `k` goes on when the thread is resumed, or else the call of the
running function ends with the values it is resumed with. -/
def yieldWith {α : Type} (t : ThreadId) (n : Int) (k : Option HostContinuation) (context : Int) :
    M α := do
  let _ ← Machine.yieldValues t n.toNat (k.map .host) context
  abort "internal error: entered unreachable code: lua_yieldk returned outside a hook"

/-- Yields without values from a hook. -/
def yieldInHook (t : ThreadId) : M Unit := do
  let _ ← Machine.yieldValues t 0 none 0

/-- Sets or removes the host's hook for lines. -/
def setLineHook (t : ThreadId) (on : Bool) : M Unit :=
  Library.setHook t (if on then { function := some .host, onLine := true } else {})

/-- Pushes a traceback of a thread, from a level on, under a message. -/
def pushTraceback (t subject : ThreadId) (message : Option String) (level : Int) : M Unit := do
  reserve t 1
  push t (.str (← Machine.traceback subject (message.map cutName) level))

/-! ## Upvalues -/

/-- Pushes an upvalue of a function, if it has that one: its name. -/
def getUpvalue (t : ThreadId) (idx n : Int) : M (Option String) := do
  checkIndex t idx
  reserve t 1
  match ← numberedUpvalue (← value t idx) n with
  | some (name, v) =>
    push t v
    return some (Bytes.toText name)
  | none => return none

/-- Writes the top value to an upvalue of a function, and removes it, if the function has that
one. -/
def setUpvalue (t : ThreadId) (idx n : Int) : M (Option String) := do
  checkIndex t idx
  match ← assignUpvalue (← value t idx) n (← value t (-1)) with
  | some name =>
    drop t 1
    return some (Bytes.toText name)
  | none => return none

/-! ## The collector -/

/-- A request to the collector, which refuses all of them while a finalizer runs. -/
def askCollector {α : Type} (refused : α) (request : M α) : M α := do
  if ← Library.collectorRefuses then return refused else request

def stopCollector : M Unit :=
  askCollector () (modifyCollector fun c => { c with stopped := true })

def restartCollector : M Unit :=
  askCollector () (modifyCollector fun c => { c with stopped := false })

def collectAll (t : ThreadId) : M Unit := askCollector () (collect t)

/-- A step of the collector: whether it ended a cycle. -/
def stepCollector (t : ThreadId) : M Bool := askCollector true (Library.collectorStep t)

/-- Memory in use, in units of 1024 bytes. -/
def memoryUnits : M Int := askCollector (-1) do return ((← Library.memoryInUse) / 1024 : Nat)

/-- What is left over of the memory in use, in bytes. -/
def memoryRest : M Int := askCollector (-1) do return ((← Library.memoryInUse) % 1024 : Nat)

/-- Memory in use, in bytes. -/
def memoryBytes : M Nat := do
  let k : Int ← memoryUnits
  let b : Int ← memoryRest
  return k.toNat * 1024 + b.toNat

/-- Sets the pause between cycles: the old one. -/
def setPause (n : Int) : M Int := askCollector (-1) do
  let old := (← get).collector.pause
  modifyCollector fun c => { c with pause := Library.storedParameter n }
  return old

/-- Sets the speed of the collector: the old one. -/
def setStepMultiplier (n : Int) : M Int := askCollector (-1) do
  let old := (← get).collector.stepMultiplier
  modifyCollector fun c => { c with stepMultiplier := Library.storedParameter n }
  return old

def collectorRuns : M Bool := askCollector true do return !(← get).collector.stopped

end LuaHost.Interface
