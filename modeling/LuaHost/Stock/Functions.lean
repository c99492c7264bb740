import LuaHost.Interface.Records
import LuaHost.Stock.Types

/-!
# Host functions at hand

The host's own functions that can be given to scripts, and the continuations of those that yield.
-/

namespace LuaHost.Stock

open Interface
open Machine (height recordEvent)

inductive StockFn where
  | add | half | greet | arity | identity | boom | boomFmt | boomAny | boomIndex | fail | badArg
  | throw_ | checkUd | info | tb | roundtrip | call | trycall | canYield | yieldAll | countTo
  | protected_ | yieldThenPanic | resume | hog | meters | isMeters | openMathx
deriving DecidableEq, Inhabited

inductive StockContinuation where
  | countTo | protected_ | yieldThenPanic
deriving DecidableEq, Inhabited

namespace StockFn

/-- All functions, with the names by which they are asked for. -/
def names : List (String × StockFn) :=
  [("add", .add), ("half", .half), ("greet", .greet), ("arity", .arity),
    ("identity", .identity), ("boom", .boom), ("boom_fmt", .boomFmt), ("boom_any", .boomAny),
    ("boom_index", .boomIndex), ("fail", .fail), ("bad_arg", .badArg), ("throw", .throw_),
    ("check_ud", .checkUd), ("info", .info), ("tb", .tb), ("roundtrip", .roundtrip),
    ("call", .call), ("trycall", .trycall), ("can_yield", .canYield), ("yield_all", .yieldAll),
    ("count_to", .countTo), ("protected", .protected_),
    ("yield_then_panic", .yieldThenPanic), ("resume", .resume), ("hog", .hog),
    ("meters", .meters), ("is_meters", .isMeters), ("open_mathx", .openMathx)]

def ofName? (name : String) : Option StockFn := names.lookup name

/-- The number of a function. -/
def fn (f : StockFn) : HostFn := ⟨f.ctorIdx⟩

def ofFn (f : HostFn) : StockFn := (names.map (·.2)).getD f.index .identity

end StockFn

namespace StockContinuation

def all : List StockContinuation := [.countTo, .protected_, .yieldThenPanic]

def continuation (k : StockContinuation) : HostContinuation := ⟨k.ctorIdx⟩

def ofContinuation (k : HostContinuation) : StockContinuation := all.getD k.index .countTo

end StockContinuation

/-! ## Numbers and texts -/

def add (t : ThreadId) : M Nat := do
  let a ← checkInteger t 1
  let b ← checkInteger t 2
  pushInteger t (a + b)
  return 1

def half (t : ThreadId) : M Nat := do
  let x ← checkNumber t 1
  pushNumber t (x.div (Double.ofInt 2))
  return 1

def greet (t : ThreadId) : M Nat := do
  let name ← checkString t 1
  pushString t ("hello, " ++ name)
  return 1

def arity (t : ThreadId) : M Nat := do
  checkAny t 1
  pushInteger t (Int64.ofNat (← height t))
  return 1

/-- An integer argument cut to 32 bits. -/
def smallInteger (t : ThreadId) (arg : Int) (default : Int) : M Int := do
  return match ← toInteger t arg with
  | some n => Int.bmod n.toInt (1 <<< 32)
  | none => default

/-! ## Failures -/

/-- The name of a metatable that nothing carries. -/
def otherMetatable : String := "other.Meta"

def throwFirst (t : ThreadId) : M Nat := do
  setTop t 1
  raiseTop t

def badArgument (t : ThreadId) : M Nat := do
  argumentError t (← smallInteger t 1 1) "made up"

def checkBound (t : ThreadId) : M Nat := do
  let name ← toText t 2
  let _ ← checkUserData t 1 (if name == some sharedMetatable then sharedMetatable
    else otherMetatable)
  pushBoolean t true
  return 1

/-- Asks for more memory than there is. -/
def hog (t : ThreadId) : M Nat := do
  pushForeign t (1 <<< 47)
  return 1

/-! ## Looking at calls and values -/

/-- A record of the call at a level, with two fields about how it was filled. -/
def info (t : ThreadId) : M Nat := do
  let level ← smallInteger t 1 0
  let what := (← toText t 2).getD ""
  match ← getStack t level with
  | none => return 0
  | some a =>
    let before ← getTop t
    let (a, ok) ← getInfo t what a
    let extra := (← getTop t) - before
    setTop t before
    let record := (a.toTable.set (.string "ok") (.bool ok)).set (.string "extra")
      (.ofInt (Int64.ofInt extra))
    pushHost t (.table record)
    return 1

def tb (t : ThreadId) : M Nat := do
  let message ← toText t 1
  pushTraceback t t message (← smallInteger t 2 0)
  return 1

def roundtrip (t : ThreadId) : M Nat := do
  match ← toHost t 1 with
  | some v => pushHost t v
  | none => pushString t "absent"
  return 1

/-! ## Calls -/

def callAll (t : ThreadId) : M Nat := do
  Interface.call t ((← getTop t) - 1) multipleResults
  height t

def tryCall (t : ThreadId) : M Nat := do
  let s ← pcall t ((← getTop t) - 1) multipleResults 0
  pushString t s.word
  insert t 1
  height t

/-! ## Yields -/

/-- Counts up to the first argument, yielding each number. -/
def continueCount (t : ThreadId) (s : Status) (context : Int) : M Nat := do
  recordEvent ("count_to " ++ s.word ++ " ctx=" ++ toString context ++ " top="
    ++ toString (← height t))
  let limit := ((← toInteger t 1).getD 0).toInt
  if context < limit then
    pushInteger t (Int64.ofInt (context + 1))
    yieldWith t 1 (some StockContinuation.countTo.continuation) (context + 1)
  else
    pushString t "done"
    pushInteger t (Int64.ofNat (← height t))
    return 2

def countTo (t : ThreadId) : M Nat := do
  let _ ← checkInteger t 1
  setTop t 1
  continueCount t .ok 0

/-- Answers all values on the stack, behind them the status and context of a protected call. -/
def finishProtected (t : ThreadId) (s : Status) (context : Int) : M Nat := do
  pushString t s.word
  pushInteger t (Int64.ofInt context)
  height t

/-- The context that `protected_` hands to its continuation. -/
def protectedContext : Int := -7

def protectedAll (t : ThreadId) : M Nat := do
  checkAny t 1
  let s ← pcallWith t ((← getTop t) - 1) multipleResults 0
    StockContinuation.protected_.continuation protectedContext
  finishProtected t s protectedContext

/-! ## Coroutines and userdata -/

/-- Resumes a thread with the other arguments: the status, the number of values, and the values. -/
def resumeWith (t : ThreadId) : M Nat := do
  match ← toThread t 1 with
  | none => return 0
  | some co =>
    let n := (← getTop t) - 1
    transfer t co n
    let (s, count) ← Interface.resume co (some t) n
    pushString t s.word
    if s.isError then
      pushNil t
      transfer co t 1
      return 3
    pushInteger t (Int64.ofNat count)
    transfer co t count
    return 2 + count

def meters (t : ThreadId) : M Nat := do
  let x ← checkNumber t 1
  let _ ← pushUserData t StockType.meters.type (.meters x) 0
  return 1

def isMeters (t : ThreadId) : M Nat := do
  match ← toUserData t StockType.meters.type 1 with
  | some (_, .meters x) => pushNumber t x
  | _ => pushNil t
  return 1

/-! ## The tables of functions -/

def runFunction (f : StockFn) (t : ThreadId) : M Nat := do
  match f with
  | .add => add t
  | .half => half t
  | .greet => greet t
  | .arity => arity t
  | .identity => height t
  | .boom => abort "host side failure"
  | .boomFmt => abort ("failed with " ++ toString (← height t) ++ " args")
  | .boomAny => throw (.panic .other)
  | .boomIndex =>
    Interface.pushValue t 0
    return 1
  | .fail => raise t "custom failure"
  | .badArg => badArgument t
  | .throw_ => throwFirst t
  | .checkUd => checkBound t
  | .info => info t
  | .tb => tb t
  | .roundtrip => roundtrip t
  | .call => callAll t
  | .trycall => tryCall t
  | .canYield =>
    pushBoolean t (← isYieldable t)
    return 1
  | .yieldAll => yieldWith t (← getTop t) none 0
  | .countTo => countTo t
  | .protected_ => protectedAll t
  | .yieldThenPanic =>
    yieldWith t 0 (some StockContinuation.yieldThenPanic.continuation) 3
  | .resume => resumeWith t
  | .hog => hog t
  | .meters => meters t
  | .isMeters => isMeters t
  | .openMathx =>
    newLibrary t [("add", StockFn.add.fn), ("half", StockFn.half.fn)]
    return 1

def runContinuation (k : StockContinuation) (t : ThreadId) (s : Status) (context : Int) :
    M Nat := do
  match k with
  | .countTo => continueCount t s context
  | .protected_ => finishProtected t s context
  | .yieldThenPanic => abort ("continuation panic " ++ toString context)

end LuaHost.Stock
