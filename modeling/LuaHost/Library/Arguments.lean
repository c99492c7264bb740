import LuaHost.Machine.Collect
import LuaHost.Machine.Invoke

/-!
# Arguments of library functions

Checks and conversions of the arguments of a native function.  A bad argument raises an error that
names the function, the argument and what is wrong with it.
-/

namespace LuaHost.Library

open Machine

/-- The number of arguments. -/
def count (t : ThreadId) : M Nat := height t

def isNone (t : ThreadId) (i : Int) : M Bool := return (← value? t i).isNone

def isNoneOrNil (t : ThreadId) (i : Int) : M Bool := return match ← value? t i with
  | none | some .nil => true
  | _ => false

/-- Raises an error about an argument unless a condition holds. -/
def argumentCheck (t : ThreadId) (ok : Bool) (i : Int) (what : String) : M Unit := do
  if !ok then argumentErrorText t i what

def kindError {α : Type} (t : ThreadId) (i : Int) (k : Kind) : M α :=
  argumentTypeError t i k.name.toUTF8

def checkAny (t : ThreadId) (i : Int) : M Unit := do
  if ← isNone t i then argumentErrorText t i "value expected"

def checkKind (t : ThreadId) (i : Int) (k : Kind) : M Unit := do
  if (← kindAt t i) != k then kindError t i k

def checkInteger (t : ThreadId) (i : Int) : M Int64 := do
  let v ← value t i
  match v.toInt64? with
  | some n => return n
  | none =>
    if v.toNumber?.isSome then argumentErrorText t i "number has no integer representation"
    else kindError t i .number

def checkInt (t : ThreadId) (i : Int) : M Int := return (← checkInteger t i).toInt

def checkDouble (t : ThreadId) (i : Int) : M Double := do
  match (← value t i).toDouble? with
  | some x => return x
  | none => kindError t i .number

/-- A string argument; a number is turned into one in place. -/
def checkString (t : ThreadId) (i : Int) : M Bytes := do
  match ← toBytesAt t i with
  | some s => return s
  | none => kindError t i .string

/-- An argument, or a default where it is missing. -/
def optional {α : Type} (check : ThreadId → Int → M α) (t : ThreadId) (i : Int) (default : α) :
    M α := do
  if ← isNoneOrNil t i then return default else check t i

def optInteger (t : ThreadId) (i : Int) (default : Int64) : M Int64 :=
  optional checkInteger t i default

def optInt (t : ThreadId) (i : Int) (default : Int) : M Int := optional checkInt t i default

def optDouble (t : ThreadId) (i : Int) (default : Double) : M Double :=
  optional checkDouble t i default

def optString (t : ThreadId) (i : Int) (default : Bytes) : M Bytes :=
  optional checkString t i default

/-- An argument that must be one of some words: its place among them. -/
def checkOption (t : ThreadId) (i : Int) (default : Option String) (options : List String) :
    M Nat := do
  let name ← match default with
    | some d => optString t i d.toUTF8
    | none => checkString t i
  let name := name.untilNul
  match options.findIdx? (·.toUTF8 == name) with
  | some n => return n
  | none => argumentError t i ("invalid option '".toUTF8 ++ name ++ "'".toUTF8)

/-- Makes room for more values, or raises an error. -/
def needRoom (t : ThreadId) (n : Nat) (what : String) : M Unit := do
  if n ≥ maxStack || !(← checkStack t n) then
    nativeErrorText t ("stack overflow (" ++ what ++ ")")

/-! ## Values -/

def isTrueAt (t : ThreadId) (i : Int) : M Bool := return (← value t i).isTrue

def pushInt (t : ThreadId) (n : Int) : M Unit := push t (.int (Int64.ofInt n))

def pushBool (t : ThreadId) (b : Bool) : M Unit := push t (.bool b)

def pushBytes (t : ThreadId) (s : Bytes) : M Unit := push t (.str s)

def pushFloat (t : ThreadId) (x : Double) : M Unit := push t (.float x)

/-- `nil`, by which a function tells that it failed. -/
def pushFailure (t : ThreadId) : M Unit := push t .nil

/-- The failure of an operation on the outside: `nil`, a message and a number. -/
def failure (t : ThreadId) (message : String) (code : Int) : M Nat := do
  pushFailure t
  pushText t message
  pushInt t code
  return 3

/-- The table at an index. -/
def tableAt? (t : ThreadId) (i : Int) : M (Option TableId) := return match ← value t i with
  | .table id => some id
  | _ => none

/-- The length of a value, with its handler, as an integer. -/
def lengthAt (t : ThreadId) (i : Int) : M Int := do
  let v ← lengthOf t (← value t i) .unknown
  match v.toInt64? with
  | some n => return n.toInt
  | none => nativeErrorText t "object length is not an integer"

/-- A new table, pushed. -/
def pushTable (t : ThreadId) (narr nrec : Nat) : M TableId := do
  let id ← newTable (Table.withRoom narr nrec)
  push t (.table id)
  return id

def setField (id : TableId) (name : String) (v : Value) : M Unit :=
  modifyTable id (·.setStr name.toUTF8 v)

/-- Sets the metatable of an object; one with a finalizer is noted. -/
def giveMetatable (v : Value) (mt : Option TableId) : M Unit := do
  setMetatableOf v mt
  match v, mt with
  | .table _, some m | .userdata _, some m => noteFinalizer v m
  | _, _ => return ()

end LuaHost.Library
