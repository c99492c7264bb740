import LuaHost.Machine.Native
import LuaHost.Numeric.Numeral

/-!
# Values of the machine

Tables, closures, userdata and threads live in the heap and are values by identity; everything else
is a value by its contents.
-/

namespace LuaHost

structure TableId where
  index : Nat
deriving DecidableEq, Inhabited, Hashable

structure ClosureId where
  index : Nat
deriving DecidableEq, Inhabited, Hashable

structure UpvalueId where
  index : Nat
deriving DecidableEq, Inhabited, Hashable

structure UserDataId where
  index : Nat
deriving DecidableEq, Inhabited, Hashable

structure ThreadId where
  index : Nat
deriving DecidableEq, Inhabited, Hashable

/-- A value of the machine. -/
inductive Value where
  | nil
  | bool (b : Bool)
  | int (i : Int64)
  | float (x : Double)
  | str (s : Bytes)
  | light (address : UInt64)
  /-- A native function without upvalues. -/
  | native (f : Native)
  | closure (c : ClosureId)
  | table (t : TableId)
  | userdata (u : UserDataId)
  | thread (t : ThreadId)
deriving DecidableEq, Inhabited

namespace Value

def kind : Value → Kind
  | nil => .nil
  | bool _ => .boolean
  | int _ | float _ => .number
  | str _ => .string
  | light _ => .lightUserData
  | native _ | closure _ => .function
  | table _ => .table
  | userdata _ => .userData
  | thread _ => .thread

def isNil : Value → Bool
  | nil => true
  | _ => false

/-- Only `nil` and `false` count as false. -/
def isFalse : Value → Bool
  | nil | bool false => true
  | _ => false

def isTrue (v : Value) : Bool := !v.isFalse

def ofText (s : String) : Value := str s.toUTF8

def ofNat (n : Nat) : Value := int (Int64.ofNat n)

/-- A number as a value. -/
def ofNumber : Number → Value
  | .int i => int i
  | .float x => float x

/-- The number that a value is. -/
def number? : Value → Option Number
  | int i => some (.int i)
  | float x => some (.float x)
  | _ => none

/-- Equality without metamethods: numbers are compared by value across the subtypes. -/
def rawEq : Value → Value → Bool
  | int i, int j => i == j
  | float x, float y => x.eq y
  | int i, float y => y.toInt64? == some i
  | float x, int j => x.toInt64? == some j
  | a, b => a = b

/-! ## Keys

A double key that denotes an integer is stored as that integer, so that equal numbers are one key.
-/

/-- The form in which a value is stored as a key. -/
def asKey : Value → Value
  | float x =>
    match x.toInt64? with
    | some i => int i
    | none => float x
  | v => v

def keyRank : Value → Nat
  | int _ => 0
  | str _ => 1
  | bool _ => 2
  | float _ => 3
  | table _ => 4
  | closure _ => 5
  | native _ => 6
  | userdata _ => 7
  | thread _ => 8
  | light _ => 9
  | nil => 10

def nativeCode : Native → Nat × Nat
  | .base f => (0, f.ctorIdx)
  | .coroutine f => (1, f.ctorIdx)
  | .debug f => (2, f.ctorIdx)
  | .string (.arith m) => (3, 100 + m.ctorIdx)
  | .string f => (3, f.ctorIdx)
  | .table f => (4, f.ctorIdx)
  | .math f => (5, f.ctorIdx)
  | .utf8 f => (6, f.ctorIdx)
  | .io f => (7, f.ctorIdx)
  | .os f => (8, f.ctorIdx)
  | .package f => (9, f.ctorIdx)
  | .trampoline => (10, 0)
  | .metamethod m => (11, m.ctorIdx)
  | .probe => (12, 0)
  | .frame => (13, 0)

/-- The order of keys inside a table; integers come first, in their own order. -/
def keyCmp : Value → Value → Ordering
  | int a, int b => compare a b
  | str a, str b => (compare a.size b.size).then (Bytes.cmp a b)
  | bool a, bool b => compare a b
  | float a, float b => compare a.bits b.bits
  | table a, table b => compare a.index b.index
  | closure a, closure b => compare a.index b.index
  | userdata a, userdata b => compare a.index b.index
  | thread a, thread b => compare a.index b.index
  | light a, light b => compare a b
  | native a, native b =>
    (compare (nativeCode a).1 (nativeCode b).1).then (compare (nativeCode a).2 (nativeCode b).2)
  | a, b => compare a.keyRank b.keyRank

end Value

end LuaHost
