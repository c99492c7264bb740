import LuaHost.Machine.Convert

/-!
# Arithmetic

Integers wrap around; division and powers work on doubles; the bitwise operations work on values
that denote integers.  Where the operands do not fit, a handler of one of them is asked.
-/

namespace LuaHost

inductive ArithOp where
  | add | sub | mul | mod | pow | div | idiv | band | bor | bxor | shl | shr | unm | bnot
deriving DecidableEq, Inhabited

namespace ArithOp

def event : ArithOp → Event
  | add => .add
  | sub => .sub
  | mul => .mul
  | mod => .mod
  | pow => .pow
  | div => .div
  | idiv => .idiv
  | band => .band
  | bor => .bor
  | bxor => .bxor
  | shl => .shl
  | shr => .shr
  | unm => .unm
  | bnot => .bnot

def isBitwise : ArithOp → Bool
  | band | bor | bxor | shl | shr | bnot => true
  | _ => false

end ArithOp

/-- What stands in the way of an integer operation. -/
inductive ArithFault where
  | divisionByZero | moduloByZero
deriving DecidableEq, Inhabited

def ArithFault.message : ArithFault → String
  | divisionByZero => "attempt to divide by zero"
  | moduloByZero => "attempt to perform 'n%0'"

namespace Int64Ops

/-- Shifts left by `n`, or right for a negative `n`; vacated bits are zero. -/
def shiftLeft (x n : Int64) : Int64 :=
  let k := n.toInt
  if k ≤ -64 || k ≥ 64 then 0
  else if k ≥ 0 then (x.toUInt64 <<< k.toNat.toUInt64).toInt64
  else (x.toUInt64 >>> k.natAbs.toUInt64).toInt64

/-- The quotient rounded down, with wrap-around for the least integer over −1. -/
def floorDiv (a b : Int64) : Int64 := Int64.ofInt (Int.fdiv a.toInt b.toInt)

/-- The remainder with the sign of the divisor. -/
def floorMod (a b : Int64) : Int64 := Int64.ofInt (Int.fmod a.toInt b.toInt)

end Int64Ops

namespace Number

/-- An operation on two integers. -/
def intOp (op : ArithOp) (a b : Int64) : Option (Except ArithFault Int64) :=
  match op with
  | .add => some (.ok (a + b))
  | .sub => some (.ok (a - b))
  | .mul => some (.ok (a * b))
  | .idiv => some (if b == 0 then .error .divisionByZero else .ok (Int64Ops.floorDiv a b))
  | .mod => some (if b == 0 then .error .moduloByZero else .ok (Int64Ops.floorMod a b))
  | .unm => some (.ok (0 - a))
  | .band => some (.ok (a &&& b))
  | .bor => some (.ok (a ||| b))
  | .bxor => some (.ok (a ^^^ b))
  | .shl => some (.ok (Int64Ops.shiftLeft a b))
  | .shr => some (.ok (Int64Ops.shiftLeft a (0 - b)))
  | .bnot => some (.ok (~~~ a))
  | .div | .pow => none

/-- An operation on two doubles. -/
def floatOp (op : ArithOp) (x y : Double) : Double :=
  match op with
  | .add => x.add y
  | .sub => x.sub y
  | .mul => x.mul y
  | .div => x.div y
  | .mod => x.modulo y
  | .pow => x.pow y
  | .idiv => x.floorDiv y
  | .unm => x.neg
  | _ => x

/-- An operation on numbers: `none` if the operands do not denote what it needs. -/
def arith (op : ArithOp) (a b : Number) : Option (Except ArithFault Number) :=
  if op.isBitwise then
    match a.toInt64?, b.toInt64? with
    | some i, some j => (intOp op i j).map (·.map .int)
    | _, _ => none
  else
    match a, b with
    | .int i, .int j =>
      match intOp op i j with
      | some r => some (r.map .int)
      | none => some (.ok (.float (floatOp op (Double.ofInt64 i) (Double.ofInt64 j))))
    | a, b => some (.ok (.float (floatOp op a.toDouble b.toDouble)))

end Number

namespace Machine

/-- Arithmetic on numbers only. -/
def rawArith (op : ArithOp) (a b : Value) : Option (Except ArithFault Value) :=
  match a.number?, b.number? with
  | some x, some y => (Number.arith op x y).map (·.map Value.ofNumber)
  | _, _ => none

/-- The handler of the first operand that has one for an event. -/
def binaryHandler (a b : Value) (e : Event) : M Value := do
  let h ← metaEvent a e
  if h.isNil then metaEvent b e else return h

/-- The result of an operation by a handler; an error names the operand to blame. -/
def arithByHandler (t : ThreadId) (e : Event) (a b : Value) (oa ob : Origin) : M Value := do
  let h ← binaryHandler a b e
  if !h.isNil then callHandler t h [a, b]
  else
    match e with
    | .band | .bor | .bxor | .shl | .shr | .bnot =>
      if isNumber a && isNumber b then integerError t a oa ob
      else operandError t a b oa ob "perform bitwise operation on"
    | _ => operandError t a b oa ob "perform arithmetic on"

/-- An operation on any values, from given places. -/
def arith (t : ThreadId) (op : ArithOp) (a b : Value) (oa ob : Origin) : M Value := do
  match rawArith op a b with
  | some (.ok v) => return v
  | some (.error f) => runErrorText t f.message
  | none => arithByHandler t op.event a b oa ob

/-! ## Concatenation and length -/

/-- The longest string there can be. -/
def maxString : Nat := 1 <<< 40

/-- Concatenates the `n` topmost values into one, from the right; `fuel` is `n`. -/
def concatLoop (t : ThreadId) : Nat → Nat → M Unit
  | 0, _ => return ()
  | _, 0 => return ()
  | _, 1 => return ()
  | fuel + 1, n => do
    let th ← thread t
    let b := th.slot (th.top - 1)
    let a := th.slot (th.top - 2)
    match a.toBytes?, b.toBytes? with
    | some x, some y =>
      -- as many more operands to the left as are strings or numbers
      let more := ((List.range (n - 2)).map fun k => (th.slot (th.top - 3 - k)).toBytes?)
      let more := (more.takeWhile Option.isSome).filterMap id
      let s := more.foldl (fun acc z => z ++ acc) (x ++ y)
      let used := more.length + 2
      drop t used
      push t (.str s)
      concatLoop t fuel (n - used + 1)
    | _, _ =>
      let h ← binaryHandler a b .concat
      if h.isNil then
        concatError t a b (.slot (th.top - 2)) (.slot (th.top - 1))
      let r ← callHandler t h [a, b]
      drop t 2
      push t r
      concatLoop t fuel (n - 1)

/-- Concatenates the `n` topmost values into one. -/
def concatTop (t : ThreadId) (n : Nat) : M Unit := concatLoop t n n

/-- The length of a table; the search begins where an earlier one ended. -/
def tableLength (i : TableId) : M Nat := do
  let (n, hint) := (← table i).borderAndHint
  modifyTable i fun tb => { tb with hint }
  return n

/-- The length of a value, by its handler if it has one. -/
def lengthOf (t : ThreadId) (v : Value) (o : Origin) : M Value := do
  match v with
  | .str s => return .ofNat s.size
  | v =>
    let h ← metaEvent v .len
    if !h.isNil then callHandler t h [v, v]
    else
      match v with
      | .table i => return .ofNat (← tableLength i)
      | v => typeError t v o "get length of"

/-! ## Comparison -/

/-- The integer order against a double, exactly. -/
def intLtFloat (i : Int64) (x : Double) : Bool :=
  if x.isNaN then false
  else if x.isInfinite then !x.negative
  else
    match x.ceil.toInt? with
    | some n => i.toInt < n
    | none => false

def intLeFloat (i : Int64) (x : Double) : Bool :=
  if x.isNaN then false
  else if x.isInfinite then !x.negative
  else
    match x.floor.toInt? with
    | some n => i.toInt ≤ n
    | none => false

def floatLtInt (x : Double) (i : Int64) : Bool :=
  if x.isNaN then false
  else if x.isInfinite then x.negative
  else
    match x.floor.toInt? with
    | some n => n < i.toInt
    | none => false

def floatLeInt (x : Double) (i : Int64) : Bool :=
  if x.isNaN then false
  else if x.isInfinite then x.negative
  else
    match x.ceil.toInt? with
    | some n => n ≤ i.toInt
    | none => false

def numberLt : Number → Number → Bool
  | .int a, .int b => a < b
  | .float x, .float y => x.lt y
  | .int a, .float y => intLtFloat a y
  | .float x, .int b => floatLtInt x b

def numberLe : Number → Number → Bool
  | .int a, .int b => a ≤ b
  | .float x, .float y => x.le y
  | .int a, .float y => intLeFloat a y
  | .float x, .int b => floatLeInt x b

/-- The order of values that are both numbers or both strings. -/
def rawLess (strict : Bool) (a b : Value) : Option Bool :=
  match a.number?, b.number? with
  | some x, some y => some (if strict then numberLt x y else numberLe x y)
  | _, _ =>
    match a, b with
    | .str x, .str y =>
      match Bytes.cmp x y with
      | .lt => some true
      | .eq => some (!strict)
      | .gt => some false
    | _, _ => none

/-- The order of values by a handler.  Without one for "less or equal", "not greater" stands in. -/
def lessByHandler (t : ThreadId) (e : Event) (a b : Value) : M Bool := do
  let h ← binaryHandler a b e
  if !h.isNil then return (← callHandler t h [a, b]).isTrue
  if e == .le then
    let h ← binaryHandler b a .lt
    if !h.isNil then
      modifyFrame t fun f => { f with negated := true }
      let r ← callHandler t h [b, a]
      modifyFrame t fun f => { f with negated := false }
      return r.isFalse
  orderError t a b

def lessThan (t : ThreadId) (a b : Value) : M Bool := do
  match rawLess true a b with
  | some r => return r
  | none => lessByHandler t .lt a b

def lessEqual (t : ThreadId) (a b : Value) : M Bool := do
  match rawLess false a b with
  | some r => return r
  | none => lessByHandler t .le a b

/-- The handler that decides whether two different objects are equal. -/
def equalityHandler (a b : Value) : M Value := do
  match a, b with
  | .table _, .table _ | .userdata _, .userdata _ => binaryHandler a b .eq
  | _, _ => return .nil

/-- Equality of values, with handlers between tables and between userdata. -/
def equals (t : ThreadId) (a b : Value) : M Bool := do
  if a.rawEq b then return true
  let h ← equalityHandler a b
  if h.isNil then return false
  return (← callHandler t h [a, b]).isTrue

end Machine

end LuaHost
