import LuaHost.Handle.Owned
import LuaHost.Interface.Execution
import LuaHost.UserData.Binding

/-!
# What can be done through a handle of a known type

The operations push the value on the stack of the handle's thread, and leave that stack as they found
it.  A table handle must denote a table, and a thread handle a thread.
-/

namespace LuaHost

open Interface

/-! ## Strings -/

namespace StringRef

def toText (r : OwnedRef) : M String := do
  let _ ← r.push
  let s ← Interface.toText r.thread (-1)
  pop r.thread 1
  return s.getD ""

def toBytes (r : OwnedRef) : M Bytes := do
  let _ ← r.push
  let s ← Interface.toBytes r.thread (-1)
  pop r.thread 1
  return s.getD ByteArray.empty

end StringRef

/-! ## Tables -/

namespace TableRef

/-- Pushes the table. -/
def pushTable (r : OwnedRef) : M Unit := do
  let k ← r.push
  if k != .table then
    unequalKinds ("table handle " ++ toString r.id ++ " denotes a " ++ k.name) k .table

def copyToHost (r : OwnedRef) : M Data.Table := do
  pushTable r
  let c ← copyTable r.thread (-1)
  pop r.thread 1
  return c

def pushKey (t : ThreadId) : Key → M Unit
  | .bool b => pushBoolean t b
  | .string s => pushString t s
  | .integer i => pushInteger t i
  | .float x => pushNumber t x

/-- The host's copy of what the table has under a key. -/
def get (r : OwnedRef) (k : Key) : M (Option Data.Value) := do
  pushTable r
  pushKey r.thread k
  let _ ← getTable r.thread (-2)
  let v ← toHost r.thread (-1)
  pop r.thread 2
  return v

def set (r : OwnedRef) (k : Key) (v : Data.Value) : M Unit := do
  pushTable r
  pushKey r.thread k
  pushHost r.thread v
  setTable r.thread (-3)
  pop r.thread 1

/-- The length, as the length operator gives it. -/
def len (r : OwnedRef) : M Int64 := do
  pushTable r
  Interface.len r.thread (-1)
  let n ← toInteger r.thread (-1)
  pop r.thread 2
  return n.getD 0

def isEmpty (r : OwnedRef) : M Bool := do
  pushTable r
  pushNil r.thread
  let more ← next r.thread (-2)
  pop r.thread (if more then 3 else 1)
  return !more

/-- Visits the entries of the table at an index, after the key on top, until a visit says no; the
visits hand a state on.  `fuel` bounds them. -/
def visit {σ : Type} (t : ThreadId) (idx : Int) (f : σ → M (Bool × σ)) (s : σ) : Nat → M σ
  | 0 => do
    pop t 1
    return s
  | fuel + 1 => do
    if ← next t idx then
      let (more, s) ← f s
      if more then
        pop t 1
        visit t idx f s fuel
      else
        pop t 2
        return s
    else return s

/-- Visits the entries, each with its key below its value on top of the stack, until `f` says no. -/
def forEach {σ : Type} (r : OwnedRef) (f : σ → M (Bool × σ)) (s : σ) : M σ := do
  pushTable r
  let i ← absIndex r.thread (-1)
  let size ← match ← tableAt r.thread i with
    | some id => do pure (← Machine.table id).contents.size
    | none => pure 0
  pushNil r.thread
  let s ← visit r.thread i f s (size + 1)
  pop r.thread 1
  return s

end TableRef

/-! ## Functions -/

namespace FunctionRef

/-- Calls the function with host values under protection: the status, and how many values are left
on the stack. -/
def call (r : OwnedRef) (args : List Data.Value) : M (Status × Int) := do
  let base ← getTop r.thread
  let _ ← r.push
  args.forM (pushHost r.thread)
  let s ← pcall r.thread args.length multipleResults 0
  return (s, (← getTop r.thread) - base)

end FunctionRef

/-! ## Userdata and threads -/

namespace UserDataRef

/-- The bound value, if it is of a type and not finalized. -/
def downcast (r : OwnedRef) (type : HostType) : M (Option HostValue) := do
  let _ ← r.push
  let v ← toUserData r.thread type (-1)
  pop r.thread 1
  return v.map (·.2)

end UserDataRef

namespace ThreadRef

def thread (r : OwnedRef) : M ThreadId := do
  let k ← r.push
  let t ← toThread r.thread (-1)
  pop r.thread 1
  match t with
  | some t => return t
  | none => abort ("thread handle " ++ toString r.id ++ " denotes a " ++ k.name)

end ThreadRef

/-- The host's copy of a detached value; functions, userdata and threads have none. -/
def OwnedValue.copyToHost : OwnedValue → M (Option Data.Value)
  | .nil => return some .nil
  | .bool b => return some (.bool b)
  | .number n => return some (.number n)
  | .light p => return some (.light p)
  | .ref .string r => return some (.string (← StringRef.toText r))
  | .ref .table r => return some (.table (← TableRef.copyToHost r))
  | .none | .ref .function _ | .ref .userData _ | .ref .thread _ => return none

end LuaHost
