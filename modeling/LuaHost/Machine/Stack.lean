import LuaHost.Machine.World

/-!
# The stack of a thread

A running call owns the slots above its function.  Indices count from there: positive ones from the
bottom, negative ones from the top, and pseudo-indices name the registry and the upvalues of the
running native function.
-/

namespace LuaHost

namespace Thread

/-! ## Slots -/

def slot (t : Thread) (i : Nat) : Value := t.stack.getD i .nil

/-- Writes a slot, extending the stack when it lies past its end. -/
def setSlot (t : Thread) (i : Nat) (v : Value) : Thread :=
  if i < t.stack.size then { t with stack := t.stack.set! i v }
  else
    { t with stack := (t.stack ++ Array.replicate (i - t.stack.size) Value.nil).push v }

def push (t : Thread) (v : Value) : Thread :=
  let i := t.top
  { t.setSlot i v with top := i + 1 }

/-- Moves the top, without touching slots. -/
def withTop (t : Thread) (n : Nat) : Thread := { t with top := n }

def drop (t : Thread) (n : Nat) : Thread := { t with top := t.top - n }

/-- Fills slots `i, …, i + n - 1` with `nil`. -/
def fillNil (t : Thread) (i : Nat) : Nat → Thread
  | 0 => t
  | n + 1 => fillNil (t.setSlot i .nil) (i + 1) n

/-- Copies `n` slots from `src` on to `dst` on, in ascending order. -/
def moveSlots (t : Thread) (src dst : Nat) : Nat → Thread
  | 0 => t
  | n + 1 => moveSlots (t.setSlot dst (t.slot src)) (src + 1) (dst + 1) n

/-- Puts values from slot `i` on. -/
def putSlots (t : Thread) (i : Nat) : List Value → Thread
  | [] => t
  | v :: vs => putSlots (t.setSlot i v) (i + 1) vs

/-- The `n` values from slot `i` on. -/
def slots (t : Thread) (i n : Nat) : List Value := (List.range n).map fun k => t.slot (i + k)

/-! ## The running call's part -/

/-- The first slot of the running call. -/
def base (t : Thread) : Nat := t.frame.func + 1

/-- How many values the running call has. -/
def height (t : Thread) : Nat := t.top - t.base

/-- The values of the running call, bottom to top. -/
def values (t : Thread) : List Value := t.slots t.base t.height

@[inline] def modifyFrame (t : Thread) (f : Frame → Frame) : Thread :=
  { t with frames := t.frames.modify (t.frames.size - 1) f }

def pushFrame (t : Thread) (f : Frame) : Thread := { t with frames := t.frames.push f }

def popFrame (t : Thread) : Thread := { t with frames := t.frames.pop }

/-- The call that began the innermost one. -/
def previousFrame (t : Thread) : Frame :=
  t.frames.getD (t.frames.size - 2) { func := 0, top := 0 }

/-- A new stack: the base level, with room for a native function. -/
def fresh : Thread :=
  { stack := #[.nil], top := 1, frames := #[{ func := 0, top := 1 + minStack }] }

end Thread

/-! ## Places -/

/-- What a stack index denotes. -/
inductive Place where
  | slot (i : Nat)
  | registry
  | upvalue (c : ClosureId) (i : Nat)
  | nowhere
deriving DecidableEq, Inhabited

namespace Machine

@[inline] def top (t : ThreadId) : M Nat := return (← thread t).top

@[inline] def frame (t : ThreadId) : M Frame := return (← thread t).frame

@[inline] def modifyFrame (t : ThreadId) (f : Frame → Frame) : M Unit :=
  modifyThread t (·.modifyFrame f)

@[inline] def slot (t : ThreadId) (i : Nat) : M Value := return (← thread t).slot i

@[inline] def setSlot (t : ThreadId) (i : Nat) (v : Value) : M Unit :=
  modifyThread t (·.setSlot i v)

@[inline] def setTop (t : ThreadId) (n : Nat) : M Unit := modifyThread t (·.withTop n)

@[inline] def push (t : ThreadId) (v : Value) : M Unit := modifyThread t (·.push v)

def pushAll (t : ThreadId) (vs : List Value) : M Unit := vs.forM (push t)

def pushText (t : ThreadId) (s : String) : M Unit := push t (.ofText s)

/-- Removes the `n` topmost values. -/
@[inline] def drop (t : ThreadId) (n : Nat) : M Unit := modifyThread t (·.drop n)

/-- The topmost value, removed. -/
def pop (t : ThreadId) : M Value := do
  let th ← thread t
  let v := th.slot (th.top - 1)
  drop t 1
  return v

/-- The number of values of the running call. -/
def height (t : ThreadId) : M Nat := return (← thread t).height

/-- The closure that a native function runs as. -/
def runningClosure (t : ThreadId) : M (Option ClosureId) := do
  let th ← thread t
  match th.slot th.frame.func with
  | .closure c => return some c
  | _ => return none

/-- What an index denotes. -/
def place (t : ThreadId) (idx : Int) : M Place := do
  let th ← thread t
  if idx > 0 then
    let i := th.frame.func + idx.toNat
    return if i < th.top then .slot i else .nowhere
  else if idx > registryIndex then
    return .slot ((th.top : Int) + idx).toNat
  else if idx = registryIndex then
    return .registry
  else
    let n := (registryIndex - idx).toNat
    match th.slot th.frame.func with
    | .closure c =>
      match ← closure c with
      | .native _ ups => return if n ≤ ups.size then .upvalue c (n - 1) else .nowhere
      | .script .. => return .nowhere
    | _ => return .nowhere

/-- The value at a place. -/
def valueAt (t : ThreadId) : Place → M Value
  | .slot i => slot t i
  | .registry => return .table (← get).registry
  | .upvalue c i => do
    match ← closure c with
    | .native _ ups => return ups.getD i .nil
    | .script .. => return .nil
  | .nowhere => return .nil

/-- The value at an index; `nil` where there is none. -/
def value (t : ThreadId) (idx : Int) : M Value := do valueAt t (← place t idx)

/-- The value at an index, if there is one. -/
def value? (t : ThreadId) (idx : Int) : M (Option Value) := do
  match ← place t idx with
  | .nowhere => return none
  | p => return some (← valueAt t p)

/-- Writes to a place. -/
def store (t : ThreadId) (v : Value) : Place → M Unit
  | .slot i => setSlot t i v
  | .upvalue c i => modifyClosure c fun
    | .native f ups => .native f (ups.set! i v)
    | c => c
  | .registry | .nowhere => return ()

/-- The type of the value at an index. -/
def kindAt (t : ThreadId) (idx : Int) : M Kind := do
  match ← value? t idx with
  | some v => return v.kind
  | none => return .none

/-- An index that keeps its meaning when values are pushed. -/
def absIndex (t : ThreadId) (idx : Int) : M Int := do
  if idx > 0 || idx ≤ registryIndex then return idx
  return (← height t) + 1 + idx

/-- Gives the running call exactly `n` values (a negative `n` counts from the top), dropping or
adding `nil`s. -/
def setHeight (t : ThreadId) (n : Int) : M Unit :=
  modifyThread t fun th =>
    let new := if n ≥ 0 then th.base + n.toNat else ((th.top : Int) + n + 1).toNat
    if new > th.top then { th.fillNil th.top (new - th.top) with top := new }
    else th.withTop new

/-- Rotates the values from an index to the top by `n` places toward the top. -/
def rotate (t : ThreadId) (idx n : Int) : M Unit := do
  match ← place t idx with
  | .slot p =>
    modifyThread t fun th =>
      let vs := th.slots p (th.top - p)
      let k := if n ≥ 0 then vs.length - n.toNat else (-n).toNat
      th.putSlots p (vs.drop k ++ vs.take k)
  | _ => return ()

def copy (t : ThreadId) (src dst : Int) : M Unit := do
  let v ← value t src
  store t v (← place t dst)

def pushValue (t : ThreadId) (idx : Int) : M Unit := do push t (← value t idx)

/-- Moves the top value into the place of an index, shifting up the ones above. -/
def insert (t : ThreadId) (idx : Int) : M Unit := rotate t idx 1

def remove (t : ThreadId) (idx : Int) : M Unit := do
  rotate t idx (-1)
  drop t 1

/-- Moves the `n` top values of one thread to another. -/
def moveValues (src dst : ThreadId) (n : Nat) : M Unit := do
  let th ← thread src
  let vs := th.slots (th.top - n) n
  drop src n
  pushAll dst vs

/-! ## Room -/

/-- The most slots that a stack may have. -/
def maxStack : Nat := 1000000

/-- The size of a stack that is handling an overflow. -/
def errorStack : Nat := maxStack + 200

/-- Makes room for `n` more slots: whether there is, without raising an error. -/
def growStack (t : ThreadId) (n : Nat) : M Bool := do
  let th ← thread t
  if th.room > maxStack then return false
  let size := min (2 * th.room) maxStack
  let needed := th.top + n
  let size := max size needed
  if n < maxStack && size ≤ maxStack then
    modifyThread t fun th => { th with room := size }
    return true
  modifyThread t fun th => { th with room := errorStack }
  return false

/-- Whether `n` more slots fit, making room for them in the running call. -/
def checkStack (t : ThreadId) (n : Nat) : M Bool := do
  let th ← thread t
  let ok ← if th.room ≥ th.top + n + 1 then pure true else growStack t n
  if ok then
    modifyThread t fun th => th.modifyFrame fun f => { f with top := max f.top (th.top + n) }
  return ok

/-- Shrinks a stack that an overflow had enlarged. -/
def shrinkStack (t : ThreadId) : M Unit :=
  modifyThread t fun th =>
    let inUse := max (th.frames.foldl (fun m f => max m f.top) th.top) minStack + 1
    let most := if inUse > maxStack / 3 then maxStack else inUse * 3
    if inUse ≤ maxStack && th.room > most then
      { th with room := if inUse > maxStack / 2 then maxStack else inUse * 2 }
    else th

end Machine

end LuaHost
