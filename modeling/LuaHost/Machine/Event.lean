import LuaHost.Machine.World

/-!
# Metatable events

The operations that a metatable can define, with the fields that hold their handlers.  The order is
that of the codes in instructions.
-/

namespace LuaHost

inductive Event where
  | index | newindex | gc | mode | len | eq
  | add | sub | mul | mod | pow | div | idiv
  | band | bor | bxor | shl | shr | unm | bnot
  | lt | le | concat | call | close
deriving DecidableEq, Inhabited

namespace Event

def table : Array Event :=
  #[.index, .newindex, .gc, .mode, .len, .eq, .add, .sub, .mul, .mod, .pow, .div, .idiv, .band,
    .bor, .bxor, .shl, .shr, .unm, .bnot, .lt, .le, .concat, .call, .close]

def ofCode (n : Nat) : Event := table.getD n .index

def code (e : Event) : Nat := e.ctorIdx

/-- The event's word without the leading underscores. -/
def word : Event → String
  | index => "index"
  | newindex => "newindex"
  | gc => "gc"
  | mode => "mode"
  | len => "len"
  | eq => "eq"
  | add => "add"
  | sub => "sub"
  | mul => "mul"
  | mod => "mod"
  | pow => "pow"
  | div => "div"
  | idiv => "idiv"
  | band => "band"
  | bor => "bor"
  | bxor => "bxor"
  | shl => "shl"
  | shr => "shr"
  | unm => "unm"
  | bnot => "bnot"
  | lt => "lt"
  | le => "le"
  | concat => "concat"
  | call => "call"
  | close => "close"

/-- The metatable fields by code. -/
def fields : Array Bytes := table.map fun e => ("__" ++ e.word).toUTF8

def field (e : Event) : Bytes := fields.getD e.code ByteArray.empty

end Event

namespace Machine

/-- The metatable of a value. -/
def metatableOf (v : Value) : M (Option TableId) := do
  match v with
  | .table t => return (← table t).metatable
  | .userdata u => return (← userdata u).metatable
  | v => return (← get).kindMetatables.lookup v.kind

/-- What a value's metatable holds for an event; `nil` if nothing. -/
def metaEvent (v : Value) (e : Event) : M Value := do
  match ← metatableOf v with
  | some mt => return (← table mt).getStr e.field
  | none => return .nil

/-- What a value's metatable holds under a name. -/
def metaField (v : Value) (name : Bytes) : M Value := do
  match ← metatableOf v with
  | some mt => return (← table mt).getStr name
  | none => return .nil

/-- The word for a value's type in messages: its metatable may give another one. -/
def typeWord (v : Value) : M Bytes := do
  match v with
  | .table _ | .userdata _ =>
    match ← metaField v "__name".toUTF8 with
    | .str s => return s
    | _ => return v.kind.name.toUTF8
  | v => return v.kind.name.toUTF8

end Machine

end LuaHost
