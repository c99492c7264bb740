import LuaHost.Session.Book
import LuaHost.Stock.Functions

/-!
# Steps that run code

Steps that give host functions and values to scripts, that load, call and resume, that look at calls,
and that ask the collector.
-/

namespace LuaHost.Session

open Interface Stock

/-! ## Host functions and arguments -/

inductive FunctionStep where
  | push (f : HostFn)
  | register (name : String) (f : HostFn)
  | setFunction (idx : Int) (name : String) (f : HostFn)
  | preload (name : String) (f : HostFn)
  | newLibrary (fs : List (String × HostFn))
  | checkString (arg : Int)
  | checkInteger (arg : Int)
  | checkNumber (arg : Int)
  | checkAny (arg : Int)
  | checkUserData (arg : Int) (name : String)
  | argumentError (arg : Int) (message : String)
  | raise (message : String)
  | error

def runFunctionStep (t : ThreadId) : FunctionStep → Act Answer
  | .push f => do
    pushFunction t f
    return .nothing
  | .register name f => do
    registerGlobal t name f
    return .nothing
  | .setFunction idx name f => do
    setFunction t idx name f
    return .nothing
  | .preload name f => do return .flag (← preload t name f)
  | .newLibrary fs => do
    newLibrary t fs
    return .nothing
  | .checkString arg => do return .text (← checkString t arg)
  | .checkInteger arg => do return .slot (.int (← checkInteger t arg))
  | .checkNumber arg => do return .slot (.float (← checkNumber t arg))
  | .checkAny arg => do
    checkAny t arg
    return .nothing
  | .checkUserData arg name => do
    let _ ← checkUserData t arg name
    return .flag true
  | .argumentError arg message => argumentError t arg message
  | .raise message => raise t message
  | .error => raiseTop t

/-! ## Userdata -/

inductive UserDataStep where
  | push (type : StockType) (args : List Data.Value) (userValues : Nat)
  | get (type : StockType) (idx : Int)
  | pushForeign (size : Nat)

def runUserData (t : ThreadId) : UserDataStep → Act Answer
  | .push type args userValues => do
    let u ← pushUserData t type.type (type.make args) userValues
    return .description (describe type (← hostValue u))
  | .get type idx => do
    return .ofOption (fun x => .description (describe type x.2)) (← toUserData t type.type idx)
  | .pushForeign size => do
    pushForeign t size
    return .nothing

/-! ## Execution -/

/-- Where a chunk comes from: it is given, or it is a string on the stack. -/
inductive ChunkSource where
  | given (chunk : Bytes)
  | index (idx : Int)

inductive ExecutionStep where
  | load (chunk : ChunkSource) (name : String) (mode : Option String)
  | doString (code : String)
  | pcall (nargs wanted handler : Int)
  | call (nargs wanted : Int)
  | newThread
  | mainThread
  | resume (nargs : Int) (caller : Option Nat)
  | status
  | isYieldable
  | yieldValues (n : Int)
  | checkStatus (s : Status)
  | traceback (subject : Nat) (message : Option String) (level : Int)
  | setLineHook (on : Bool)
  | extraSpace (write : Option UInt64)

def chunkBytes (t : ThreadId) : ChunkSource → M Bytes
  | .given b => return b
  | .index idx => return (← toBytes t idx).getD ByteArray.empty

def resumeThread (t : ThreadId) (nargs : Int) (caller : Option ThreadId) : M Answer := do
  let (s, n) ← resume t caller nargs
  if s.isError then return .resumed s (.inl (← Machine.value t (-1)))
  return .resumed s (.inr n)

def runExecution (t : ThreadId) : ExecutionStep → Act Answer
  | .load chunk name mode => do
    return .ofStatus (← loadBuffer t (← chunkBytes t chunk) name mode)
  | .doString code => do return .ofStatus (← doString t code)
  | .pcall nargs wanted handler => do return .ofStatus (← pcall t nargs wanted handler)
  | .call nargs wanted => do
    call t nargs wanted
    return .nothing
  | .newThread => do Act.answerThread (← newThread t)
  | .mainThread => do Act.answerThread (← mainThread t)
  | .resume nargs caller => do
    let caller := caller.map (← get).thread
    resumeThread t nargs caller
  | .status => do return .ofStatus (← status t)
  | .isYieldable => do return .flag (← isYieldable t)
  | .yieldValues n => yieldWith t n none 0
  | .checkStatus s => do return .ofOption .fault (← checkStatus t s)
  | .traceback subject message level => do
    pushTraceback t ((← get).thread subject) message level
    return .nothing
  | .setLineHook on => do
    setLineHook t on
    return .nothing
  | .extraSpace write => do
    if let some n := write then Machine.modifyThread t fun th => { th with extraSpace := n }
    return .number (← Machine.thread t).extraSpace.toNat

/-! ## Looking at calls -/

inductive InspectionStep where
  | getStack (level : Int) (what : String)
  | functionInfo (what : String)
  | getUpvalue (idx n : Int)
  | setUpvalue (idx n : Int)

def runInspection (t : ThreadId) : InspectionStep → Act Answer
  | .getStack level what => do
    match ← getStack t level with
    | none => return .nothing
    | some a =>
      let (a, known) ← getInfo t what a
      return .call known a
  | .functionInfo what => do
    let (a, _) ← getInfo t (">" ++ what) {}
    return .host (.table a.toTable)
  | .getUpvalue idx n => do return .ofOption .text (← getUpvalue t idx n)
  | .setUpvalue idx n => do return .ofOption .text (← setUpvalue t idx n)

/-! ## The collector -/

inductive CollectorStep where
  | stop | restart | collect | isRunning | count
  | step
  | setPause (n : Int)
  | setStepMultiplier (n : Int)

/-- What is true of the memory in use: that there is some, that the remainder is one, and that the
two make up the whole. -/
def memoryFacts : M (List Bool) := do
  let k ← memoryUnits
  let b ← memoryRest
  let n ← memoryBytes
  return [0 < k, 0 ≤ b && b < 1024, (n : Int) == k * 1024 + b]

def runCollector (t : ThreadId) : CollectorStep → Act Answer
  | .stop => do
    stopCollector
    return .nothing
  | .restart => do
    restartCollector
    return .nothing
  | .collect => do
    collectAll t
    return .nothing
  | .isRunning => do return .flag (← collectorRuns)
  | .count => do return .flags (← memoryFacts)
  | .step => do return .flag (← stepCollector t)
  | .setPause n => do return .number (← setPause n)
  | .setStepMultiplier n => do return .number (← setStepMultiplier n)

end LuaHost.Session
