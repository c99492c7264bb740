import LuaHost.Machine.Naming

/-!
# Raising and catching errors

An error goes to the innermost protected section of its thread.  A thread without one is reset, and
the error goes on to the main thread.  Before that, the message handler of the running protected
call may replace the error object.
-/

namespace LuaHost.Machine

/-! ## Variables that are closed -/

/-- Takes the shared variables at or above a slot out of the stack; the list has the highest slot
first. -/
def closeUpvaluesIn (t : ThreadId) (level : Nat) : List UpvalueId → M (List UpvalueId)
  | [] => return []
  | u :: us => do
    match ← upvalue u with
    | .opened _ i =>
      if i < level then return u :: us
      let v ← slot t i
      modifyUpvalue u fun _ => .closed v
      closeUpvaluesIn t level us
    | .closed _ => closeUpvaluesIn t level us

def closeUpvalues (t : ThreadId) (level : Nat) : M Unit := do
  let left ← closeUpvaluesIn t level (← thread t).openUpvalues
  modifyThread t fun th => { th with openUpvalues := left }

/-- The text of the error object for exhausted memory. -/
def memoryText : Bytes := "not enough memory".toUTF8

/-- The object that stands for an error, at the place where it is reported. -/
def placeError (t : ThreadId) (status : Status) (i : Nat) : M Unit := do
  let v ← match status with
    | .errMem => pure (.str memoryText)
    | .errErr => pure (.ofText "error in error handling")
    | .ok => pure .nil
    | _ => do slot t ((← top t) - 1)
  setSlot t i v
  setTop t (i + 1)

/-- Calls the closing method of the variable in a slot.  `status` is the error that is being
handled; `none` at a normal exit from the block, where nothing goes above the stack's top. -/
def callClosing (t : ThreadId) (i : Nat) (status : Option Status) (yieldable : Bool) :
    M Unit := do
  let v ← slot t i
  let err ← match status with
    | none => pure .nil
    | some s => do
      placeError t s (i + 1)
      slot t (i + 1)
  let method ← metaEvent v .close
  let f ← top t
  pushAll t [method, v, err]
  (← read).call t f 0 yieldable

/-- Closes the variables to be closed at or above a slot, the latest first; `fuel` is how many there
are. -/
def closePending (t : ThreadId) (level : Nat) (status : Option Status) (yieldable : Bool) :
    Nat → M Unit
  | 0 => return ()
  | fuel + 1 => do
    match (← thread t).toClose with
    | i :: rest =>
      if level ≤ i then
        modifyThread t fun th => { th with toClose := rest }
        callClosing t i status yieldable
        closePending t level status yieldable fuel
      else return ()
    | [] => return ()

/-- Leaves the blocks at or above a slot: shared variables move out of the stack, and variables to
be closed are closed. -/
def closeFrom (t : ThreadId) (level : Nat) (status : Option Status) (yieldable : Bool) :
    M Unit := do
  closeUpvalues t level
  closePending t level status yieldable (← thread t).toClose.length

/-! ## Protected sections -/

/-- Runs a section under protection: an error of this thread that leaves it is answered as its
status.  What native calls were nested inside is forgotten then. -/
def attempt {α : Type} (t : ThreadId) (body : M α) : M (Except Status α) := do
  let th ← thread t
  let nesting := th.nesting
  let unyieldable := th.unyieldable
  let guards := th.guards
  modifyThread t fun th => { th with guards := guards + 1 }
  let restore : M Unit := modifyThread t fun th => { th with nesting, unyieldable, guards }
  tryCatch (do
      let a ← body
      restore
      return .ok a)
    fun
    | .error t' s => do
      restore
      if t' = t then return .error s else throw (.error t' s)
    | r => do
      modifyThread t fun th => { th with guards }
      throw r

/-- Runs a section without a result under protection. -/
def protect (t : ThreadId) (body : M Unit) : M Status := do
  match ← attempt t body with
  | .ok () => return .ok
  | .error s => return s

/-- Goes back to an outer call: the calls begun since are given up. -/
def unwindTo (t : ThreadId) (frames : Nat) (hooksAllowed : Bool) : M Unit :=
  modifyThread t fun th =>
    { th with
      frames := th.frames.take frames
      hook := { th.hook with allowed := hooksAllowed } }

/-- Closes variables under protection; an error in one closing method is handed to the next.
`fuel` bounds the errors by the number of variables. -/
def closeProtectedLoop (t : ThreadId) (level : Nat) (status : Status) (frames : Nat)
    (hooksAllowed : Bool) : Nat → M Status
  | 0 => return status
  | fuel + 1 => do
    match ← protect t (closeFrom t level (some status) false) with
    | .ok => return status
    | s =>
      unwindTo t frames hooksAllowed
      closeProtectedLoop t level s frames hooksAllowed fuel

def closeProtected (t : ThreadId) (level : Nat) (status : Status) : M Status := do
  let th ← thread t
  closeProtectedLoop t level status th.frames.size th.hook.allowed (th.toClose.length + 1)

/-- Gives up everything that a thread was doing: its stack then holds nothing but the error object,
if there was an error. -/
def resetThread (t : ThreadId) (status : Status) : M Status := do
  modifyThread t fun th =>
    { th with
      frames := #[{ func := 0, top := 1 + minStack }]
      status := .ok
      stack := th.stack.set! 0 .nil }
  let status := if status = .yield then .ok else status
  let status ← closeProtected t 1 status
  if status = .ok then setTop t 1 else placeError t status 1
  modifyThread t fun th =>
    let limit := th.top + minStack
    { th.modifyFrame fun f => { f with top := limit } with room := limit }
  return status

/-! ## Raising -/

/-- Raises the error whose object is on top of the stack. -/
def throwStatus {α : Type} (t : ThreadId) (status : Status) : M α := do
  if (← thread t).guards > 0 then throw (.error t status)
  else
    let status ← resetThread t status
    let main := (← get).mainThread
    let v ← slot t ((← top t) - 1)
    push main v
    throw (.error main status)

/-- Raises the error object on top of the stack, after the message handler has seen it. -/
def throwTop {α : Type} (t : ThreadId) : M α := do
  let h := (← thread t).handler
  if h != 0 then
    let v ← pop t
    push t (← slot t h)
    push t v
    (← read).call t ((← top t) - 2) 1 false
  throwStatus t .errRun

/-- Raises a value as an error. -/
def throwValue {α : Type} (t : ThreadId) (v : Value) : M α := do
  push t v
  throwTop t

/-- Raises the object on top of the stack on behalf of a script or of native code: the text of the
memory error stands for that error. -/
def raiseTop {α : Type} (t : ThreadId) : M α := do
  if (← slot t ((← top t) - 1)) = .str memoryText then throwStatus t .errMem else throwTop t

/-- Raises a value as an error on behalf of a script or of native code. -/
def raiseValue {α : Type} (t : ThreadId) (v : Value) : M α := do
  push t v
  raiseTop t

/-- A message with the position of a chunk in front. -/
def located (source : Option Bytes) (line : Int) (msg : Bytes) : Bytes :=
  let name := match source with
    | some s => ChunkName.display s
    | none => "?".toUTF8
  name ++ (":" ++ toString line ++ ": ").toUTF8 ++ msg

/-- The running script's position in front of a message; nothing in front in native code. -/
def withPosition (t : ThreadId) (msg : Bytes) : M Bytes := do
  let f ← frame t
  match f.kind with
  | .script p _ => return located p.source f.currentLine msg
  | .native => return msg

/-- Raises an error with a message, behind the position of the script that is running. -/
def runError {α : Type} (t : ThreadId) (msg : Bytes) : M α := do
  throwValue t (.str (← withPosition t msg))

def runErrorText {α : Type} (t : ThreadId) (msg : String) : M α := runError t msg.toUTF8

def memoryError {α : Type} (t : ThreadId) : M α := do
  push t (.str memoryText)
  throwStatus t .errMem

/-- An error in the handling of an error. -/
def handlingError {α : Type} (t : ThreadId) : M α := do
  pushText t "error in error handling"
  throwStatus t .errErr

/-- Makes room for `n` slots, or raises the error that there is none. -/
def needStack (t : ThreadId) (n : Nat) : M Unit := do
  let th ← thread t
  if th.room < th.top + n + 1 then
    if th.room > maxStack then handlingError t
    else if !(← growStack t n) then runErrorText t "stack overflow"

/-! ## Errors about operands -/

/-- "attempt to `op` a … value", with the name of the operand where it has one. -/
def typeErrorNamed {α : Type} (t : ThreadId) (v : Value) (op : String) (name : Option Naming) :
    M α := do
  let word ← typeWord v
  runError t (("attempt to " ++ op ++ " a ").toUTF8 ++ word ++ " value".toUTF8
    ++ Naming.suffix name)

def typeError {α : Type} (t : ThreadId) (v : Value) (o : Origin) (op : String) : M α := do
  typeErrorNamed t v op ((← frame t).operandName o)

/-- The error of calling something that cannot be called. -/
def callError {α : Type} (t : ThreadId) (v : Value) (o : Origin) : M α := do
  let f ← frame t
  typeErrorNamed t v "call" (f.calledName <|> f.operandName o)

/-- The error of a numeric loop with a bound that is no number. -/
def loopError {α : Type} (t : ThreadId) (v : Value) (what : String) : M α := do
  let word ← typeWord v
  runError t (("bad 'for' " ++ what ++ " (number expected, got ").toUTF8 ++ word ++ ")".toUTF8)

def isStringOrNumber : Value → Bool
  | .str _ | .int _ | .float _ => true
  | _ => false

def isNumber : Value → Bool
  | .int _ | .float _ => true
  | _ => false

/-- The error of a concatenation: the operand to blame is the first that is neither string nor
number. -/
def concatError {α : Type} (t : ThreadId) (a b : Value) (oa ob : Origin) : M α :=
  if isStringOrNumber a then typeError t b ob "concatenate" else typeError t a oa "concatenate"

/-- The error of arithmetic: the operand to blame is the first that is no number. -/
def operandError {α : Type} (t : ThreadId) (a b : Value) (oa ob : Origin) (what : String) : M α :=
  if isNumber a then typeError t b ob what else typeError t a oa what

/-- The error of a bitwise operation on a double that denotes no integer. -/
def integerError {α : Type} (t : ThreadId) (a : Value) (oa ob : Origin) : M α := do
  let integral : Value → Bool
    | .int _ => true
    | .float x => x.toInt64?.isSome
    | _ => true
  let name := (← frame t).operandName (if integral a then ob else oa)
  runError t ("number".toUTF8 ++ Naming.suffix name ++ " has no integer representation".toUTF8)

/-- The error of comparing values that have no order. -/
def orderError {α : Type} (t : ThreadId) (a b : Value) : M α := do
  let wa ← typeWord a
  let wb ← typeWord b
  if wa == wb then runError t ("attempt to compare two ".toUTF8 ++ wa ++ " values".toUTF8)
  else runError t ("attempt to compare ".toUTF8 ++ wa ++ " with ".toUTF8 ++ wb)

end LuaHost.Machine
