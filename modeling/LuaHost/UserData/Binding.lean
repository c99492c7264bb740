import LuaHost.Interface.PushHost
import LuaHost.Interface.Functions

/-!
# Host values inside userdata

A value of any bound type is moved into a new userdata.  All bound userdata share one metatable,
whose handlers find the value that they are about and pass the operation on to its type.  When such
a userdata is finalized its value is told so and then dropped; afterwards it answers nothing.
-/

namespace LuaHost

/-- What a bound type does.  Operations get the userdata that they are about, and answer how many
results they have pushed. -/
structure BoundType where
  /-- The name by which values are shown when the type does not show them itself. -/
  name : String
  /-- The name by which the log calls the type. -/
  fullName : String
  perform : MetaMethod → UserDataId → ThreadId → M Nat := fun _ _ _ => return 0
  /-- What happens when the value in a userdata is dropped. -/
  drop : UserDataId → HostValue → M Unit := fun _ _ => return ()

/-- The bound types by number. -/
abbrev BoundTypes := HostType → BoundType

namespace Interface

open Machine

/-- The registry name of the metatable that all bound userdata share. -/
def sharedMetatable : String := "luabind.UserData"

/-! ## Finding values -/

/-- The block of a userdata, if it is a bound one. -/
def blockOf (u : UserDataId) : M (Option Block) := return match (← userdata u).payload with
  | .block b => some b
  | _ => none

/-- The bound userdata at an index, with its block. -/
def boundAt (t : ThreadId) (idx : Int) : M (Option (UserDataId × Block)) := do
  match ← testUserData t idx sharedMetatable with
  | some (.userdata u) => return (← blockOf u).map fun b => (u, b)
  | _ => return none

/-- The bound userdata at an index that holds a value of a type, not finalized. -/
def toUserData (t : ThreadId) (type : HostType) (idx : Int) :
    M (Option (UserDataId × HostValue)) := do
  match ← boundAt t idx with
  | some (u, b) => return if b.alive && b.type == type then some (u, b.value) else none
  | none => return none

/-- The value in a bound userdata. -/
def hostValue (u : UserDataId) : M HostValue := return match ← blockOf u with
  | some b => b.value
  | none => default

def setHostValue (u : UserDataId) (v : HostValue) : M Unit :=
  modifyUserdata u fun d => { d with payload := match d.payload with
    | .block b => .block { b with value := v }
    | p => p }

/-! ## Operations -/

/-- The first of some arguments that is a bound userdata, not finalized. -/
def findBound (t : ThreadId) : List Int → M (Option (UserDataId × Block))
  | [] => return none
  | i :: is => do
    match ← boundAt t i with
    | some (u, b) => if b.alive then return some (u, b) else findBound t is
    | none => findBound t is

/-- The operands of the running handler. -/
def operands (t : ThreadId) : M (List Int) :=
  return [1, 2].take (← height t)

/-- The address of a userdata as text. -/
def userdataAddress (u : UserDataId) : String := Value.addressText (Value.userdata u).address

/-- Passes an operation on to the type of a value.  A type that does not show its values leaves that
to their name and address. -/
def dispatch (types : BoundTypes) (m : MetaMethod) (t : ThreadId) (u : UserDataId) (b : Block) :
    M Nat := do
  let type := types b.type
  match m with
  | .gc => return 0
  | .tostring =>
    let n ← type.perform .tostring u t
    if n > 0 then return n
    pushString t (type.name ++ ": " ++ userdataAddress u)
    return 1
  | m => type.perform m u t

/-- What an operation answers when none of its operands is a bound value. -/
def answerAbsent (m : MetaMethod) (t : ThreadId) : M Nat := do
  if m != .tostring then return 0
  let text ← if (← height t) ≥ 1 then do
      let word ← typeName t 1
      pure (word ++ ": " ++ Value.addressText (← toPointer t 1))
    else pure "userdata"
  pushString t text
  return 1

/-- Tells a value that it is finalized, and drops it. -/
def finalizeBound (types : BoundTypes) (t : ThreadId) (u : UserDataId) : M Unit := do
  match ← blockOf u with
  | some b =>
    if b.alive then
      let type := types b.type
      let _ ← type.perform .gc u t
      type.drop u (← hostValue u)
      modifyUserdata u fun d => { d with payload := match d.payload with
        | .block b => .block { b with alive := false }
        | p => p }
      log .debug ("finalized " ++ type.fullName ++ " userdata at " ++ userdataAddress u)
  | none => return ()

/-- The handler of an operation in the shared metatable. -/
def answerOperation (types : BoundTypes) (m : MetaMethod) (t : ThreadId) : M Nat :=
  match m with
  | .gc => guarded t do
    if let some (u, _) ← boundAt t 1 then finalizeBound types t u
    return 0
  | m => guarded t do
    match ← findBound t (← operands t) with
    | some (u, b) => dispatch types m t u b
    | none => answerAbsent m t

/-! ## Moving values in -/

/-- Pushes the shared metatable, which is filled when it is needed first. -/
def pushSharedMetatable (t : ThreadId) : M Unit := do
  if ← newMetatable t sharedMetatable then
    MetaMethod.all.forM fun m => do
      pushNative t (.metamethod m) 0
      setField t (-2) m.field
    log .debug ("created shared userdata metatable " ++ sharedMetatable)

/-- Moves a value into a new userdata with some user values, and pushes it. -/
def pushUserData (t : ThreadId) (type : HostType) (v : HostValue) (userValues : Nat) :
    M UserDataId := do
  reserve t 2
  let u ← newUserdata
    { payload := .block { type, value := v }, userValues := Array.replicate userValues .nil }
  push t (.userdata u)
  pushSharedMetatable t
  setMetatable t (-2)
  return u

/-- The most bytes that a userdata's block can have. -/
def maxBlock : Nat := 1 <<< 40

/-- Pushes a userdata that is not bound, with a block of some bytes. -/
def pushForeign (t : ThreadId) (size : Nat) : M Unit := do
  if size > maxBlock then
    -- memory is only given up on after a cycle
    modify (cycle · t)
    memoryError t
  push t (.userdata (← newUserdata { payload := .raw size }))

end Interface

end LuaHost
