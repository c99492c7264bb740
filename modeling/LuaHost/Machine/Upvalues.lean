import LuaHost.Machine.Calling

/-!
# Variables shared by closures

A closure refers to the variables of enclosing functions.  While such a variable's block is active
it lives in the stack; all closures that use it share one upvalue.
-/

namespace LuaHost.Machine

def readUpvalue (u : UpvalueId) : M Value := do
  match ← upvalue u with
  | .opened th i => slot th i
  | .closed v => return v

def writeUpvalue (u : UpvalueId) (v : Value) : M Unit := do
  match ← upvalue u with
  | .opened th i => setSlot th i v
  | .closed _ => modifyUpvalue u fun _ => .closed v

/-- The upvalues of a closure. -/
def closureUpvalues (c : ClosureId) : M (Array UpvalueId) := do
  match ← closure c with
  | .script _ ups => return ups
  | .native .. => return #[]

/-- The `n`-th upvalue of a script closure. -/
def upvalueOf (c : ClosureId) (n : Nat) : M UpvalueId := do
  return (← closureUpvalues c).getD n default

/-- Searches a list of open upvalues, highest slot first, for the one of a slot: those above it,
the one itself if there is one, and the rest. -/
def splitOpen (slot : Nat) : List UpvalueId → M (List UpvalueId × Option UpvalueId × List UpvalueId)
  | [] => return ([], none, [])
  | u :: us => do
    match ← upvalue u with
    | .opened _ i =>
      if i > slot then
        let (above, found, below) ← splitOpen slot us
        return (u :: above, found, below)
      else if i == slot then return ([], some u, us)
      else return ([], none, u :: us)
    | .closed _ => splitOpen slot us

/-- The upvalue of a stack slot, made if there is none yet. -/
def findUpvalue (t : ThreadId) (i : Nat) : M UpvalueId := do
  let (above, found, below) ← splitOpen i (← thread t).openUpvalues
  match found with
  | some u => return u
  | none =>
    let u ← newUpvalue (.opened t i)
    modifyThread t fun th => { th with openUpvalues := above ++ u :: below }
    return u

/-- The upvalues of a new closure, by their descriptions. -/
def captureUpvalues (t : ThreadId) (base : Nat) (outer : Array UpvalueId) (acc : Array UpvalueId) :
    List UpvalueInfo → M (Array UpvalueId)
  | [] => return acc
  | d :: ds => do
    let u ← if d.inStack then findUpvalue t (base + d.index) else pure (outer.getD d.index default)
    captureUpvalues t base outer (acc.push u) ds

/-- Marks the variable in a slot as one to be closed at the end of its block. -/
def markToClose (t : ThreadId) (i : Nat) : M Unit := do
  let v ← slot t i
  if v.isFalse then return ()
  let h ← metaEvent v .close
  if h.isNil then
    let f ← frame t
    let name := match f.kind with
      | .script p _ => (p.localName (i - f.func) f.currentPc).getD "?".toUTF8
      | .native => "?".toUTF8
    runError t ("variable '".toUTF8 ++ name ++ "' got a non-closable value".toUTF8)
  modifyThread t fun th => { th with toClose := i :: th.toClose }

/-! ## Upvalues by number -/

/-- The name and value of the `n`-th upvalue of a function, from one on.  Upvalues of native functions
have empty names. -/
def numberedUpvalue (f : Value) (n : Int) : M (Option (Bytes × Value)) := do
  if n < 1 then return none
  let i := (n - 1).toNat
  match f with
  | .closure c =>
    match ← closure c with
    | .native _ ups => return (ups[i]?).map (ByteArray.empty, ·)
    | .script p ups =>
      match ups[i]? with
      | some u =>
        let name := (p.upvalues.getD i default).name.getD "(no name)".toUTF8
        return some (name, ← readUpvalue u)
      | none => return none
  | _ => return none

/-- Gives the `n`-th upvalue of a function a value; its name. -/
def assignUpvalue (f : Value) (n : Int) (v : Value) : M (Option Bytes) := do
  match ← numberedUpvalue f n with
  | none => return none
  | some (name, _) =>
    let i := (n - 1).toNat
    match f with
    | .closure c =>
      match ← closure c with
      | .native g ups => modifyClosure c fun _ => .native g (ups.set! i v)
      | .script _ ups => writeUpvalue (ups.getD i default) v
    | _ => pure ()
    return some name

end LuaHost.Machine
