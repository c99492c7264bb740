import LuaHost.Interface.Fields
import LuaHost.Machine.Inspect

/-!
# Host functions

A function of the host becomes a function of the machine through one native function whose upvalue
says which host function to run.  A panic inside host code becomes an error whose object is the text
of the panic.
-/

namespace LuaHost.Interface

open Machine

/-! ## Errors -/

/-- Raises the value on top of the stack. -/
def raiseTop {α : Type} (t : ThreadId) : M α := do
  if (← height t) == 0 then abort "error without an error object"
  Machine.raiseTop t

/-- Pushes a message behind the position of the running function's caller. -/
def pushLocated (t : ThreadId) (message : String) : M Unit := do
  reserve t 2
  push t (.str (← positionAt t 1))
  pushString t message
  concat t 2

/-- Raises a message behind the position of the running function's caller. -/
def raise {α : Type} (t : ThreadId) (message : String) : M α := do
  pushLocated t message
  raiseTop t

/-! ## Guarding -/

/-- The text that a panic turns into. -/
def panicText : PanicPayload → String
  | .text s => s
  | .other => "host function panicked"

/-- Runs host code that the machine has called: a panic becomes an error. -/
def guarded (t : ThreadId) (body : M Nat) : M Nat :=
  tryCatch body fun
    | .panic payload => do
      let message := panicText payload
      log .warn ("host function panicked: " ++ message)
      pushString t message
      raiseTop t
    | r => throw r

/-- Runs the host function that the running native function stands for. -/
def trampoline (run : HostFn → ThreadId → M Nat) (t : ThreadId) : M Nat := do
  match ← value t (upvalueIndex 1) with
  | .light p => guarded t (run (HostFn.ofAddress p) t)
  | _ => abort "host trampoline without its function upvalue"

/-! ## Giving functions to scripts -/

/-- Pushes a host function. -/
def pushFunction (t : ThreadId) (f : HostFn) : M Unit := do
  pushLightUserData t f.address
  pushNative t .trampoline 1

/-- Writes a host function to a field. -/
def setFunction (t : ThreadId) (idx : Int) (name : String) (f : HostFn) : M Unit := do
  let i ← absIndex t idx
  pushFunction t f
  setField t i name

/-- Writes a host function to a global. -/
def registerGlobal (t : ThreadId) (name : String) (f : HostFn) : M Unit := do
  pushFunction t f
  setGlobal t name

/-- Pushes a table of host functions. -/
def newLibrary (t : ThreadId) (fs : List (String × HostFn)) : M Unit := do
  createTable t 0 fs.length
  fs.forM fun (name, f) => setFunction t (-1) name f

/-- Makes `require` open a module by calling a host function; `false` if the package library is not
open. -/
def preload (t : ThreadId) (name : String) (opener : HostFn) : M Bool := do
  if (← getGlobal t "package") != .table then
    pop t 1
    return false
  if (← getField t (-1) "preload") != .table then
    pop t 2
    return false
  setFunction t (-1) name opener
  pop t 2
  return true

/-! ## Arguments -/

/-- The record of the call at a level, with nothing filled in. -/
def getStack (t : ThreadId) (level : Int) : M (Option Activation) :=
  return (← frameAtLevel t level).map fun i => { frameIndex := i }

/-- Fills in the parts of a record that option letters name; with `>` in front the function is taken
from the stack.  The answer tells whether all letters are known. -/
def getInfo (t : ThreadId) (options : String) (a : Activation) : M (Activation × Bool) := do
  if options.startsWith ">" && (← height t) == 0 then abort "get_info('>') without a function"
  reserve t 2
  Machine.getInfo t (cutName options) a

/-- Pushes the error about an argument. -/
def pushArgumentError (t : ThreadId) (arg : Int) (extra : String) : M Unit := do
  let name ← match ← getStack t 0 with
    | some a => do pure (← getInfo t "n" a).1.name
    | none => pure none
  let callee := match name with
    | some n => " to '" ++ Bytes.toText n ++ "'"
    | none => ""
  pushLocated t ("bad argument #" ++ toString arg ++ callee ++ " (" ++ extra ++ ")")

def argumentError {α : Type} (t : ThreadId) (arg : Int) (extra : String) : M α := do
  pushArgumentError t arg extra
  raiseTop t

def typeError {α : Type} (t : ThreadId) (arg : Int) (expected : String) : M α := do
  let found ← typeName t arg
  argumentError t arg (expected ++ " expected, got " ++ found)

/-- A string argument; a number counts as one. -/
def checkString (t : ThreadId) (arg : Int) : M String := do
  let k ← typeOf t arg
  if k == .string || k == .number then return (← toText t arg).getD ""
  typeError t arg Kind.string.name

def checkInteger (t : ThreadId) (arg : Int) : M Int64 := do
  match ← toInteger t arg with
  | some n => return n
  | none =>
    if (← typeOf t arg) == .number then
      argumentError t arg "number has no integer representation"
    else typeError t arg Kind.number.name

def checkNumber (t : ThreadId) (arg : Int) : M Double := do
  match ← toNumber t arg with
  | some x => return x
  | none => typeError t arg Kind.number.name

/-- An argument of any type, which must be there. -/
def checkAny (t : ThreadId) (arg : Int) : M Unit := do
  if (← typeOf t arg) == .none then argumentError t arg "value expected"

/-- A userdata argument whose metatable is that of a name. -/
def checkUserData (t : ThreadId) (arg : Int) (name : String) : M Value := do
  match ← testUserData t arg name with
  | some v => return v
  | none => typeError t arg name

end LuaHost.Interface
