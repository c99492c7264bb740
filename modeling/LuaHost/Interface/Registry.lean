import LuaHost.Interface.Fields

/-!
# The registry

A value is kept alive, away from every stack, by registering it under a number.  Numbers of values
that were released are kept in a list: each slot on it holds the number of the next one, a fixed slot
holds the first, and zero ends it.
-/

namespace LuaHost.Interface

open Machine

/-- The number under which a value is registered. -/
abbrev RefId := Int

/-- Says that nothing is registered. -/
def noRef : RefId := -2

/-- Stands for a registered `nil`. -/
def nilRef : RefId := -1

/-- The slot that holds the first released number. -/
def freeSlot : Int64 := 3

def refKey (id : RefId) : Value := .int (Int64.ofInt id)

/-- The first released number; zero if there is none. -/
def firstFree : M RefId := do
  match ← registryValue (.int freeSlot) with
  | .int i => return i.toInt
  | _ =>
    setRegistryValue (.int freeSlot) (.int 0)
    return 0

/-- Takes a number for a value: a released one, or else the next one after the registry's array. -/
def register (v : Value) : M RefId := do
  let id ← firstFree
  let id : RefId ← if id != 0 then do
      setRegistryValue (.int freeSlot) (← registryValue (refKey id))
      pure id
    else do pure ((← tableLength (← get).registry) + 1 : Nat)
  setRegistryValue (refKey id) v
  return id

/-- Puts a number on the list of released ones. -/
def release (id : RefId) : M Unit := do
  if id ≥ 0 then
    setRegistryValue (refKey id) (← registryValue (.int freeSlot))
    setRegistryValue (.int freeSlot) (refKey id)

/-- Registers the value on top of the stack, and removes it.  A `nil` takes no number. -/
def registryRef (t : ThreadId) : M RefId := do
  if (← height t) == 0 then abort "registry_ref on an empty stack"
  let v ← Machine.pop t
  let id ← if v.isNil then pure nilRef else register v
  log .trace ("ref " ++ toString id)
  return id

/-- Releases a number. -/
def registryUnref (id : RefId) : M Unit := do
  if id != noRef && id != nilRef then
    log .trace ("unref " ++ toString id)
    release id

/-- Pushes what the registry holds under a number. -/
def registryGet (t : ThreadId) (n : Int64) : M Kind := rawGetInt t registryIndex n

/-- Pushes a registered value. -/
def pushRef (t : ThreadId) (id : RefId) : M Kind := do
  if id == noRef || id == nilRef then
    pushNil t
    return .nil
  registryGet t (Int64.ofInt id)

/-! ## The flag of handles -/

/-- The registry field that holds the flag by which handles learn that the machine was closed. -/
def aliveField : String := "luabind.alive"

/-- The address that stands for the flag. -/
def flagAddress : UInt64 := 0x55555c0010a0

/-- Takes a share in the flag: whether the machine has one. -/
def shareFlag (t : ThreadId) : M Bool := do
  let _ ← getField t registryIndex aliveField
  let p ← toLightUserData t (-1)
  pop t 1
  if p.isNone then return false
  modify fun w => { w with liveness := w.liveness.map fun l => { l with owners := l.owners + 1 } }
  return true

/-- Gives up a share in the flag, which goes with the last one. -/
def dropShare : M Unit :=
  modify fun w =>
    { w with liveness := w.liveness.bind fun l =>
        if l.owners ≤ 1 then none else some { l with owners := l.owners - 1 } }

/-- Whether the machine still runs. -/
def isAlive : M Bool := return match (← get).liveness with
  | some l => l.alive
  | none => false

end LuaHost.Interface
