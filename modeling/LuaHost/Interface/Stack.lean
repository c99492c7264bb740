import LuaHost.Library.Base

/-!
# The stack as the host sees it

Operations of the host on the stack of one thread.  An index must be valid: not zero, and not below
the bottom.  An operation that is given another one, or that finds no room for what it pushes, ends
with a panic before it has changed anything.
-/

namespace LuaHost.Interface

open Machine

/-! ## Checks -/

/-- Ends the host code that is running with a panic. -/
def abort {α : Type} (message : String) : M α := Machine.panic message

/-- Makes room for `n` more values. -/
def reserve (t : ThreadId) (n : Nat) : M Unit := do
  if !(← Machine.checkStack t n) then
    abort ("lua stack overflow (cannot grow by " ++ toString n ++ " slots)")

/-- Whether an index is one that operations accept, on a stack with `n` values. -/
def validIndex (n : Nat) (idx : Int) : Bool :=
  idx != 0 && (idx > 0 || idx ≤ registryIndex || -idx ≤ n)

/-- The complaint about an index that is not valid. -/
def indexComplaint (n : Nat) (idx : Int) : String :=
  if idx == 0 then "stack index 0 is never valid"
  else
    "stack index " ++ toString idx ++ " is below the bottom of the stack (top = " ++ toString n
      ++ ")"

def checkIndex (t : ThreadId) (idx : Int) : M Unit := do
  let n ← height t
  if !validIndex n idx then abort (indexComplaint n idx)

/-! ## Control -/

def getTop (t : ThreadId) : M Int := return (← height t : Nat)

def setTop (t : ThreadId) (idx : Int) : M Unit := setHeight t idx

/-- Removes the `n` topmost values. -/
def pop (t : ThreadId) (n : Int) : M Unit := do
  let h ← height t
  if n > h then abort ("pop(" ++ toString n ++ ") with only " ++ toString h ++ " values")
  setTop t (-n - 1)

def absIndex (t : ThreadId) (idx : Int) : M Int := Machine.absIndex t idx

def checkStack (t : ThreadId) (n : Int) : M Bool := Machine.checkStack t n.toNat

def pushValue (t : ThreadId) (idx : Int) : M Unit := do
  checkIndex t idx
  reserve t 1
  Machine.pushValue t idx

def rotate (t : ThreadId) (idx n : Int) : M Unit := do
  checkIndex t idx
  Machine.rotate t idx n

/-- Moves the top value into the place of an index, shifting up the ones above. -/
def insert (t : ThreadId) (idx : Int) : M Unit := rotate t idx 1

def remove (t : ThreadId) (idx : Int) : M Unit := do
  rotate t idx (-1)
  pop t 1

def copy (t : ThreadId) (src dst : Int) : M Unit := do
  checkIndex t src
  checkIndex t dst
  Machine.copy t src dst

/-- Moves the top value over the one at an index. -/
def replace (t : ThreadId) (idx : Int) : M Unit := do
  checkIndex t idx
  copy t (-1) idx
  pop t 1

/-- Moves the `n` topmost values to another thread. -/
def transfer (t dst : ThreadId) (n : Int) : M Unit := do
  if n != 0 && dst != t then
    reserve dst n.toNat
    moveValues t dst n.toNat

/-! ## Pushing -/

/-- Pushes a value, in a slot that is made for it. -/
def pushNew (t : ThreadId) (v : Value) : M Unit := do
  reserve t 1
  push t v

def pushNil (t : ThreadId) : M Unit := pushNew t .nil

def pushBoolean (t : ThreadId) (b : Bool) : M Unit := pushNew t (.bool b)

def pushInteger (t : ThreadId) (i : Int64) : M Unit := pushNew t (.int i)

def pushNumber (t : ThreadId) (x : Double) : M Unit := pushNew t (.float x)

def pushString (t : ThreadId) (s : String) : M Unit := pushNew t (.ofText s)

def pushBytes (t : ThreadId) (s : Bytes) : M Unit := pushNew t (.str s)

def pushLightUserData (t : ThreadId) (p : UInt64) : M Unit := pushNew t (.light p)

/-- Pushes the thread itself: whether it is the main one. -/
def pushThread (t : ThreadId) : M Bool := do
  pushNew t (.thread t)
  return t == (← get).mainThread

/-- Pushes native code as a function, with `n` upvalues from the top of the stack. -/
def pushNative (t : ThreadId) (f : Native) (n : Nat) : M Unit := do
  reserve t 1
  if n == 0 then push t (.native f)
  else
    let th ← thread t
    let ups := th.slots (th.top - n) n
    drop t n
    push t (.closure (← newClosure (.native f ups.toArray)))

/-! ## Looking at values -/

def typeOf (t : ThreadId) (idx : Int) : M Kind := do
  checkIndex t idx
  kindAt t idx

/-- The name of a value's type; any index will do. -/
def typeName (t : ThreadId) (idx : Int) : M String := return (← kindAt t idx).name

/-- Whether there is an integer at an index; any index will do. -/
def isInteger (t : ThreadId) (idx : Int) : M Bool := return match ← value t idx with
  | .int _ => true
  | _ => false

def isNil (t : ThreadId) (idx : Int) : M Bool := return (← typeOf t idx) == .nil

def isNone (t : ThreadId) (idx : Int) : M Bool := return (← typeOf t idx) == .none

def isNoneOrNil (t : ThreadId) (idx : Int) : M Bool := do
  let k ← typeOf t idx
  return k == .none || k == .nil

def toBoolean (t : ThreadId) (idx : Int) : M Bool := do
  checkIndex t idx
  return (← value t idx).isTrue

/-- The integer that a number, or the number in a string, is equal to. -/
def toInteger (t : ThreadId) (idx : Int) : M (Option Int64) := do
  checkIndex t idx
  return (← value t idx).toInt64?

def toNumber (t : ThreadId) (idx : Int) : M (Option Double) := do
  checkIndex t idx
  return (← value t idx).toDouble?

/-- The bytes of a string; a number becomes a string in its slot. -/
def toBytes (t : ThreadId) (idx : Int) : M (Option Bytes) := do
  checkIndex t idx
  toBytesAt t idx

/-- The text of a string; what is not UTF-8 is replaced.  A number becomes a string in its slot. -/
def toText (t : ThreadId) (idx : Int) : M (Option String) :=
  return (← toBytes t idx).map Bytes.toText

def toLightUserData (t : ThreadId) (idx : Int) : M (Option UInt64) := do
  checkIndex t idx
  return match ← value t idx with
  | .light p => some p
  | _ => none

/-- The address of the block of a userdata, or the one that light userdata is. -/
def toUserDataAddress (t : ThreadId) (idx : Int) : M (Option UInt64) := do
  checkIndex t idx
  return match ← value t idx with
  | .light p => if p == 0 then none else some p
  | .userdata u => (Value.userdata u).address
  | _ => none

def toThread (t : ThreadId) (idx : Int) : M (Option ThreadId) := do
  checkIndex t idx
  return match ← value t idx with
  | .thread i => some i
  | _ => none

/-- The address that tells an object from others. -/
def toPointer (t : ThreadId) (idx : Int) : M (Option UInt64) := do
  checkIndex t idx
  return match (← value t idx).address with
  | some 0 => none
  | p => p

/-- The bytes that a userdata's block takes. -/
def payloadSize : Payload → Nat
  | .raw n => n
  | .stream _ => 16
  | .block b => 16 + match b.value with
    | .counter _ | .plain _ | .ops _ | .meters _ => 8
    | .echo .. => 40
    | .bad => 0
    | .record fs => 8 * fs.length

/-- Length without metamethods: of a string, of a table up to a border, of a userdata's block. -/
def rawLen (t : ThreadId) (idx : Int) : M Nat := do
  checkIndex t idx
  match ← value t idx with
  | .str s => return s.size
  | .table i => tableLength i
  | .userdata u => return payloadSize (← userdata u).payload
  | _ => return 0

/-! ## Operators -/

/-- Pushes what the length operator answers. -/
def len (t : ThreadId) (idx : Int) : M Unit := do
  checkIndex t idx
  reserve t 1
  push t (← lengthOf t (← value t idx) .unknown)

/-- Compares two values, with metamethods; an index without a value compares false. -/
def compare (t : ThreadId) (a b : Int) (c : Comparison) : M Bool := do
  match ← value? t a, ← value? t b with
  | some x, some y =>
    match c with
    | .eq => equals t x y
    | .lt => lessThan t x y
    | .le => lessEqual t x y
  | _, _ => return false

def rawEqual (t : ThreadId) (a b : Int) : M Bool := do
  match ← value? t a, ← value? t b with
  | some x, some y => return x.rawEq y
  | _, _ => return false

/-- Concatenates the `n` topmost values. -/
def concat (t : ThreadId) (n : Int) : M Unit := do
  if n > (← height t) then abort "assertion failed: n <= self.get_top()"
  if n == 0 then reserve t 1
  if n > 0 then concatTop t n.toNat else push t (.str ByteArray.empty)

/-- Pushes the text of a value, as its `__tostring` handler gives it. -/
def displayValue (t : ThreadId) (idx : Int) : M String := do
  checkIndex t idx
  reserve t 1
  return (← pushDisplay t idx).toText

end LuaHost.Interface
