import LuaHost.Interface.Stack

/-!
# Tables, metatables and globals as the host sees them

An operation on a field finds the table that an index denotes before it pushes the field's name.
-/

namespace LuaHost.Interface

open Machine

/-- A name as far as its first NUL, where names of the machine end. -/
def cutName (s : String) : Bytes := Bytes.untilNul s.toUTF8

/-! ## Reading and writing with metamethods -/

/-- Replaces the key on top by the value it has in the table at an index. -/
def replaceKey (t : ThreadId) (idx : Int) : M Kind := do
  let v ← value t idx
  let i := (← Machine.top t) - 1
  let r ← index t v (← slot t i)
  setSlot t i r
  return r.kind

/-- Writes the top value under the key below it, and removes both. -/
def writePair (t : ThreadId) (idx : Int) : M Unit := do
  let v ← value t idx
  let n ← Machine.top t
  assign t v (← slot t (n - 2)) (← slot t (n - 1))
  drop t 2

/-- Pushes a field. -/
def getField (t : ThreadId) (idx : Int) (name : String) : M Kind := do
  checkIndex t idx
  let i ← absIndex t idx
  pushString t name
  replaceKey t i

/-- Writes the top value to a field, and removes it. -/
def setField (t : ThreadId) (idx : Int) (name : String) : M Unit := do
  checkIndex t idx
  let i ← absIndex t idx
  pushString t name
  insert t (-2)
  writePair t i

/-- Pushes the value of an integer key. -/
def getInt (t : ThreadId) (idx : Int) (n : Int64) : M Kind := do
  checkIndex t idx
  reserve t 1
  let r ← index t (← value t idx) (.int n)
  push t r
  return r.kind

/-- Writes the top value under an integer key, and removes it. -/
def setInt (t : ThreadId) (idx : Int) (n : Int64) : M Unit := do
  checkIndex t idx
  assign t (← value t idx) (.int n) (← value t (-1))
  drop t 1

def getTable (t : ThreadId) (idx : Int) : M Kind := do
  checkIndex t idx
  replaceKey t idx

def setTable (t : ThreadId) (idx : Int) : M Unit := do
  checkIndex t idx
  writePair t idx

/-! ## Reading and writing a table as it is -/

/-- The table at an index. -/
def tableAt (t : ThreadId) (idx : Int) : M (Option TableId) := return match ← value t idx with
  | .table i => some i
  | _ => none

/-- What a table holds under a key. -/
def rawValue (t : ThreadId) (idx : Int) (k : Value) : M Value := do
  match ← tableAt t idx with
  | some i => return (← table i).get k
  | none => return .nil

def rawGet (t : ThreadId) (idx : Int) : M Kind := do
  checkIndex t idx
  let i := (← Machine.top t) - 1
  let r ← rawValue t idx (← slot t i)
  setSlot t i r
  return r.kind

def rawSet (t : ThreadId) (idx : Int) : M Unit := do
  checkIndex t idx
  let n ← Machine.top t
  if let some i ← tableAt t idx then Machine.rawSet t i (← slot t (n - 2)) (← slot t (n - 1))
  drop t 2

def rawGetInt (t : ThreadId) (idx : Int) (n : Int64) : M Kind := do
  checkIndex t idx
  reserve t 1
  let r ← rawValue t idx (.int n)
  push t r
  return r.kind

def rawSetInt (t : ThreadId) (idx : Int) (n : Int64) : M Unit := do
  checkIndex t idx
  if let some i ← tableAt t idx then
    let v ← value t (-1)
    modifyTable i (·.setInt n v)
  drop t 1

/-- Replaces the key on top by the entry that follows it; at the end of the table the key is
removed, and the answer is `false`. -/
def next (t : ThreadId) (idx : Int) : M Bool := do
  checkIndex t idx
  reserve t 1
  match ← tableAt t idx with
  | none =>
    drop t 1
    return false
  | some i =>
    let k ← value t (-1)
    match (← table i).next k with
    | none => runErrorText t "invalid key to 'next'"
    | some e =>
      drop t 1
      match e with
      | none => return false
      | some (k, v) =>
        push t k
        push t v
        return true

/-! ## New tables -/

/-- The most entries that a table can be given room for: more would not fit in memory. -/
def maxRoom : Nat := 1 <<< 28

/-- The most nodes that a table can have. -/
def maxNodes : Nat := 1 <<< 30

/-- Pushes a table with room for some array elements and some other entries. -/
def createTable (t : ThreadId) (narr nrec : Nat) : M Unit := do
  reserve t 1
  if nrec > maxNodes then runErrorText t "table overflow"
  if narr > maxRoom || nrec > maxRoom then memoryError t
  push t (.table (← newTable (Table.withRoom narr nrec)))

def pushTable (t : ThreadId) : M Unit := createTable t 0 0

/-! ## Metatables -/

/-- Pushes the metatable of a value; `false` if it has none. -/
def getMetatable (t : ThreadId) (idx : Int) : M Bool := do
  checkIndex t idx
  reserve t 1
  match ← metatableOf (← value t idx) with
  | some m =>
    push t (.table m)
    return true
  | none => return false

/-- Makes the table on top, or no table if it is `nil`, the metatable of a value. -/
def setMetatable (t : ThreadId) (idx : Int) : M Unit := do
  checkIndex t idx
  let v ← value t idx
  match ← value t (-1) with
  | .table m => Library.giveMetatable v (some m)
  | _ => Library.giveMetatable v none
  drop t 1

/-- Pushes the metatable of a name in the registry, which is made if there is none: whether it
was. -/
def newMetatable (t : ThreadId) (name : String) : M Bool := do
  reserve t 2
  let name := cutName name
  let v ← registryValue (.str name)
  if !v.isNil then
    push t v
    return false
  let m ← newTable ((Table.withRoom 0 2).setStr "__name".toUTF8 (.str name))
  setRegistryValue (.str name) (.table m)
  push t (.table m)
  return true

/-- Pushes the metatable of a name in the registry, or `nil`. -/
def getNamedMetatable (t : ThreadId) (name : String) : M Kind := getField t registryIndex name

/-- Whether a value has the metatable of a name. -/
def hasNamedMetatable (v : Value) (name : Bytes) : M Bool := do
  match ← metatableOf v with
  | some m => return (Value.table m).rawEq (← registryValue (.str name))
  | none => return false

/-- The userdata at an index, full or light, if its metatable is that of a name. -/
def testUserData (t : ThreadId) (idx : Int) (name : String) : M (Option Value) := do
  checkIndex t idx
  reserve t 2
  let v ← value t idx
  let ok ← match v with
    | .userdata _ => hasNamedMetatable v (cutName name)
    | .light p => if p == 0 then pure false else hasNamedMetatable v (cutName name)
    | _ => pure false
  return if ok then some v else none

/-! ## User values -/

/-- Pushes a user value of a userdata; one that it does not have is `nil`, without a type. -/
def getUserValue (t : ThreadId) (idx n : Int) : M Kind := do
  checkIndex t idx
  reserve t 1
  let v? ← match ← value t idx with
    | .userdata u => do
      let vs := (← userdata u).userValues
      pure (if 1 ≤ n then vs[n.toNat - 1]? else none)
    | _ => pure none
  match v? with
  | some v =>
    push t v
    return v.kind
  | none =>
    push t .nil
    return .none

/-- Writes the top value to a user value, and removes it: whether the userdata has that one. -/
def setUserValue (t : ThreadId) (idx n : Int) : M Bool := do
  checkIndex t idx
  let v ← value t (-1)
  let ok ← match ← value t idx with
    | .userdata u => do
      let ok := 1 ≤ n && n ≤ (← userdata u).userValues.size
      if ok then
        modifyUserdata u fun u => { u with userValues := u.userValues.set! (n.toNat - 1) v }
      pure ok
    | _ => pure false
  drop t 1
  return ok

/-! ## Globals -/

def pushGlobals (t : ThreadId) : M Unit := do
  let _ ← rawGetInt t registryIndex globalsPlace

def getGlobal (t : ThreadId) (name : String) : M Kind := do
  pushGlobals t
  let k ← getField t (-1) name
  remove t (-2)
  return k

/-- Writes the top value to a global, and removes it. -/
def setGlobal (t : ThreadId) (name : String) : M Unit := do
  pushGlobals t
  insert t (-2)
  setField t (-2) name
  pop t 1

end LuaHost.Interface
