import LuaHost.Fault
import LuaHost.Handle.Manual

/-!
# Handles that release themselves

An owned handle is released when it is dropped.  It has a share in the flag of its machine, if the
machine has one, and one that outlives its machine is not released: the registry is gone.
-/

namespace LuaHost

/-- A handle that is released when it is dropped. -/
structure OwnedRef where
  thread : ThreadId
  id : Interface.RefId
  /-- Whether it has a share in the flag of its machine. -/
  flagged : Bool
deriving DecidableEq, Inhabited

namespace OwnedRef

open Interface

/-- Takes a registered number over. -/
def adopt (t : ThreadId) (id : RefId) : M OwnedRef := return ⟨t, id, ← shareFlag t⟩

/-- Registers the top value, and removes it. -/
def popFrom (t : ThreadId) : M OwnedRef := do adopt t (← registryRef t)

/-- Registers the value at an index. -/
def fromIndex (t : ThreadId) (idx : Int) : M OwnedRef := do
  pushValue t idx
  popFrom t

def fromManual (r : ManualRef) : M OwnedRef := adopt r.thread r.id

/-- Gives the handle back to be released by hand. -/
def toManual (r : OwnedRef) : M ManualRef := do
  if r.flagged then dropShare
  return ⟨r.thread, r.id⟩

/-- Pushes the value on the stack of the handle's thread. -/
def push (r : OwnedRef) : M Kind := pushRef r.thread r.id

/-- Another handle to the same value. -/
def copy (r : OwnedRef) : M OwnedRef := do
  let _ ← r.push
  popFrom r.thread

/-- The type of the value. -/
def typeOf (r : OwnedRef) : M Kind := do
  let k ← r.push
  pop r.thread 1
  return k

/-- Drops the handle, which releases it while the machine runs. -/
def drop (r : OwnedRef) : M Unit := do
  if r.flagged then
    if ← isAlive then registryUnref r.id
    dropShare
  else registryUnref r.id

end OwnedRef

/-- A detached value that is released when it is dropped. -/
abbrev OwnedValue := Detached OwnedRef

namespace OwnedValue

open Interface

def fromManual (v : ManualValue) : M OwnedValue := v.mapM OwnedRef.fromManual

def toManual (v : OwnedValue) : M ManualValue := v.mapM OwnedRef.toManual

/-- Detaches the value at an index. -/
def fromIndex (t : ThreadId) (idx : Int) : M OwnedValue := do
  fromManual (← ManualValue.fromIndex t idx)

/-- Detaches the top value, and removes it. -/
def popFrom (t : ThreadId) : M OwnedValue := do fromManual (← ManualValue.popFrom t)

def push (v : OwnedValue) (t : ThreadId) : M Unit :=
  pushDetached t (fun r => do let _ ← pushRef t r.id) v

def copy (v : OwnedValue) : M OwnedValue := v.mapM OwnedRef.copy

def drop (v : OwnedValue) : M Unit :=
  match v with
  | .ref _ r => r.drop
  | _ => return ()

/-- The handle behind a value of a type; a value of another type is dropped. -/
def takeKind (k : RefKind) (v : OwnedValue) : M (Option OwnedRef) := do
  match v.asKind? k with
  | some r => return some r
  | none =>
    v.drop
    return none

/-- Like `takeKind`, with the fault that tells the types apart. -/
def tryKind (k : RefKind) (v : OwnedValue) : M (Except Fault OwnedRef) := do
  match ← v.takeKind k with
  | some r => return .ok r
  | none => return .error (.typeMismatch k.kind v.kind)

end OwnedValue

end LuaHost
