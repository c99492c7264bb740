import LuaHost.Handle.Typed
import LuaHost.Stock.Types

/-!
# Answers of a session

What a step of a session can answer, and why it can fail to.
-/

namespace LuaHost.Session

open Stock

/-- A handle of any sort. -/
inductive Handle where
  | manualRef (r : ManualRef)
  | manualValue (v : ManualValue)
  | ownedRef (r : OwnedRef)
  | ownedValue (v : OwnedValue)
  /-- A handle of a known type. -/
  | typed (k : RefKind) (r : OwnedRef)
deriving Inhabited

namespace Handle

/-- The number in the registry, if there is one. -/
def id? : Handle → Option Interface.RefId
  | .manualRef r => some r.id
  | .manualValue v => v.reference?.map (·.id)
  | .ownedRef r | .typed _ r => some r.id
  | .ownedValue v => v.reference?.map (·.id)

/-- The type of a detached value; a single handle does not know its value's. -/
def kind? : Handle → Option Kind
  | .manualValue v => some v.kind
  | .ownedValue v => some v.kind
  | _ => none

/-- Drops a handle; one that is released by hand is just forgotten. -/
def drop : Handle → M Unit
  | .manualRef _ | .manualValue _ => return ()
  | .ownedRef r | .typed _ r => r.drop
  | .ownedValue v => v.drop

end Handle

/-- Why a session does not carry a step out. -/
inductive Refusal where
  | unknownStep | noSuchHandle | wrongHandleKind | wrongHandleKindOrStep | unknownKind | closed
  | notOpen
deriving DecidableEq, Inhabited

def Refusal.message : Refusal → String
  | .unknownStep => "unknown step"
  | .noSuchHandle => "no such handle"
  | .wrongHandleKind => "wrong handle kind"
  | .wrongHandleKindOrStep => "wrong handle kind or unknown step"
  | .unknownKind => "unknown kind"
  | .closed => "closed"
  | .notOpen => "not open"

inductive Answer where
  | nothing
  | flag (b : Bool)
  | flags (bs : List Bool)
  | number (n : Int)
  | text (s : String)
  /-- A value of the machine. -/
  | slot (v : Value)
  /-- A value on the host's side. -/
  | host (v : Data.Value)
  /-- There is no value, where one could have been. -/
  | absent
  | fault (f : Fault)
  /-- How a resumption went: a number of values, or an error object. -/
  | resumed (s : Status) (result : Value ⊕ Nat)
  | called (s : Status) (count : Int)
  /-- Which pointers are null, and whether they are the same. -/
  | pointers (nulls : List Bool) (same : Bool)
  | description (d : Description)
  /-- The record of a call, and whether all options were known. -/
  | call (known : Bool) (a : Activation)
  | handle (h : Handle)
  /-- The handle taken out of a value, or the value itself. -/
  | taken (h : Handle)
  | back (h : Handle)
  | entries (es : List (Value × Value))
  | primitives (isNil : Bool) (b : Option Bool) (n : Option Number) (p : Option UInt64)
  /-- A number of the registry with the thread, by its number in the session. -/
  | rawHandle (id : Interface.RefId) (thread : Nat)
  /-- An error was raised. -/
  | raised (s : Status) (v : Value)
  | panicked (message : String)
  | refused (r : Refusal)

namespace Answer

/-- An answer, or nothing. -/
def ofOption {α : Type} (f : α → Answer) : Option α → Answer
  | some a => f a
  | none => .nothing

def ofKind (k : Kind) : Answer := .text k.word

def ofStatus (s : Status) : Answer := .text s.word

/-- A host value that may be absent. -/
def ofHost? : Option Data.Value → Answer
  | some v => .host v
  | none => .absent

end Answer

end LuaHost.Session
