import LuaHost.Interface.Registry

/-!
# Handles that are released by hand

A handle is a number in the registry with the thread through which it is used.  Whoever holds one has
to release it exactly once.  A detached value is a value away from the stack: objects are behind
handles, everything else is held as it is.
-/

namespace LuaHost

/-- The types of values that are held behind handles. -/
inductive RefKind where
  | string | table | function | userData | thread
deriving DecidableEq, Inhabited

def RefKind.kind : RefKind → Kind
  | .string => .string
  | .table => .table
  | .function => .function
  | .userData => .userData
  | .thread => .thread

/-- A value away from the stack, with a sort of handle for objects. -/
inductive Detached (ρ : Type) where
  /-- There was no value at the index. -/
  | none
  | nil
  | bool (b : Bool)
  | number (n : Number)
  | light (address : UInt64)
  | ref (kind : RefKind) (r : ρ)

namespace Detached

variable {ρ σ : Type}

instance : Inhabited (Detached ρ) := ⟨.none⟩

def kind : Detached ρ → Kind
  | .none => .none
  | .nil => .nil
  | .bool _ => .boolean
  | .number _ => .number
  | .light _ => .lightUserData
  | .ref k _ => k.kind

def reference? : Detached ρ → Option ρ
  | .ref _ r => some r
  | _ => Option.none

/-- The handle, if the value is of a type. -/
def asKind? (k : RefKind) : Detached ρ → Option ρ
  | .ref k' r => if k = k' then some r else Option.none
  | _ => Option.none

def isNil : Detached ρ → Bool
  | .none | .nil => true
  | _ => false

def asBool? : Detached ρ → Option Bool
  | .bool b => some b
  | _ => Option.none

def asNumber? : Detached ρ → Option Number
  | .number n => some n
  | _ => Option.none

def asLight? : Detached ρ → Option UInt64
  | .light p => some p
  | _ => Option.none

/-- Replaces the handle, if there is one. -/
def mapM (f : ρ → M σ) : Detached ρ → M (Detached σ)
  | .none => return .none
  | .nil => return .nil
  | .bool b => return .bool b
  | .number n => return .number n
  | .light p => return .light p
  | .ref k r => return .ref k (← f r)

end Detached

/-! ## Single handles -/

/-- A handle to be released by hand. -/
structure ManualRef where
  thread : ThreadId
  id : Interface.RefId
deriving DecidableEq, Inhabited

namespace ManualRef

open Interface

/-- Registers the top value, and removes it. -/
def popFrom (t : ThreadId) : M ManualRef := return ⟨t, ← registryRef t⟩

/-- Registers the value at an index. -/
def fromIndex (t : ThreadId) (idx : Int) : M ManualRef := do
  pushValue t idx
  popFrom t

/-- Pushes the value on the stack of the handle's thread. -/
def push (r : ManualRef) : M Kind := pushRef r.thread r.id

/-- Another handle to the same value. -/
def copy (r : ManualRef) : M ManualRef := do
  let _ ← r.push
  popFrom r.thread

def release (r : ManualRef) : M Unit := registryUnref r.id

end ManualRef

/-! ## Detached values -/

namespace Interface

/-- Pushes a detached value on a stack of the same machine; `pushHandle` pushes what is behind a
handle. -/
def pushDetached {ρ : Type} (t : ThreadId) (pushHandle : ρ → M Unit) : Detached ρ → M Unit
  | .none | .nil => pushNil t
  | .bool b => pushBoolean t b
  | .number (.int i) => pushInteger t i
  | .number (.float x) => pushNumber t x
  | .light p => pushLightUserData t p
  | .ref _ r => pushHandle r

end Interface

/-- A detached value to be released by hand. -/
abbrev ManualValue := Detached ManualRef

namespace ManualValue

open Interface

/-- Detaches the value at an index. -/
def fromIndex (t : ThreadId) (idx : Int) : M ManualValue := do
  let behind (k : RefKind) : M ManualValue := return .ref k (← ManualRef.fromIndex t idx)
  match ← typeOf t idx with
  | .none => return .none
  | .nil => return .nil
  | .boolean => return .bool (← toBoolean t idx)
  | .number =>
    if ← isInteger t idx then return .number (.int ((← toInteger t idx).getD 0))
    else return .number (.float ((← toNumber t idx).getD .zero))
  | .lightUserData => return .light ((← toUserDataAddress t idx).getD 0)
  | .string => behind .string
  | .table => behind .table
  | .function => behind .function
  | .userData => behind .userData
  | .thread => behind .thread

/-- Detaches the top value, and removes it. -/
def popFrom (t : ThreadId) : M ManualValue := do
  let v ← fromIndex t (-1)
  pop t 1
  return v

def push (v : ManualValue) (t : ThreadId) : M Unit :=
  pushDetached t (fun r => do let _ ← pushRef t r.id) v

def copy (v : ManualValue) : M ManualValue := v.mapM ManualRef.copy

def release (v : ManualValue) : M Unit :=
  match v with
  | .ref _ r => r.release
  | _ => return ()

end ManualValue

end LuaHost
