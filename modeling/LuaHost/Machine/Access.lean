import LuaHost.Machine.Raising

/-!
# Indexing

Reading and writing `t[k]` with the `__index` and `__newindex` handlers, and calls of handlers.
-/

namespace LuaHost.Machine

/-- Whether a handler that the running call invokes may yield: only when a script is running. -/
def mayYield (t : ThreadId) : M Bool := do
  let f ← frame t
  return f.isScript && !f.hooked

/-- Calls a handler for its first result. -/
def callHandler (t : ThreadId) (f : Value) (args : List Value) : M Value := do
  let i ← top t
  pushAll t (f :: args)
  (← read).call t i 1 (← mayYield t)
  pop t

/-- Calls a handler for its effect. -/
def callHandlerNoResult (t : ThreadId) (f : Value) (args : List Value) : M Unit := do
  let i ← top t
  pushAll t (f :: args)
  (← read).call t i 0 (← mayYield t)

/-- The longest chain of handlers that is followed. -/
def maxChain : Nat := 2000

def isFunction (v : Value) : Bool := v.kind == .function

/-- `v[k]`, following `__index` handlers. -/
def indexLoop (t : ThreadId) (v k : Value) (o : Origin) : Nat → M Value
  | 0 => runErrorText t "'__index' chain too long; possibly a loop"
  | fuel + 1 => do
    match v with
    | .table i =>
      let tb ← table i
      let x := tb.get k
      if !x.isNil then return x
      match tb.metatable with
      | none => return .nil
      | some mt =>
        let h := (← table mt).getStr Event.index.field
        if h.isNil then return .nil
        if isFunction h then callHandler t h [v, k] else indexLoop t h k .unknown fuel
    | _ =>
      let h ← metaEvent v .index
      if h.isNil then typeError t v o "index"
      if isFunction h then callHandler t h [v, k] else indexLoop t h k .unknown fuel

/-- `v[k]`, where `v` comes from a known place. -/
def indexFrom (t : ThreadId) (v k : Value) (o : Origin) : M Value := indexLoop t v k o maxChain

/-- `v[k]`. -/
def index (t : ThreadId) (v k : Value) : M Value := indexFrom t v k .unknown

/-- Writes to a table as it is; a key must be neither `nil` nor a `NaN`. -/
def rawSet (t : ThreadId) (i : TableId) (k v : Value) : M Unit := do
  match k with
  | .nil => runErrorText t "table index is nil"
  | .float x =>
    if x.isNaN then runErrorText t "table index is NaN"
    modifyTable i (·.set k v)
  | _ => modifyTable i (·.set k v)

/-- `v[k] = x`, following `__newindex` handlers. -/
def assignLoop (t : ThreadId) (v k x : Value) (o : Origin) : Nat → M Unit
  | 0 => runErrorText t "'__newindex' chain too long; possibly a loop"
  | fuel + 1 => do
    match v with
    | .table i =>
      let tb ← table i
      let known := !(tb.get k).isNil
      let mt := tb.metatable
      if known then modifyTable i (·.set k x)
      else
        match mt with
        | none => rawSet t i k x
        | some mt =>
          let h := (← table mt).getStr Event.newindex.field
          if h.isNil then rawSet t i k x
          else if isFunction h then callHandlerNoResult t h [v, k, x]
          else assignLoop t h k x .unknown fuel
    | _ =>
      let h ← metaEvent v .newindex
      if h.isNil then typeError t v o "index"
      if isFunction h then callHandlerNoResult t h [v, k, x]
      else assignLoop t h k x .unknown fuel

/-- `v[k] = x`, where `v` comes from a known place. -/
def assignFrom (t : ThreadId) (v k x : Value) (o : Origin) : M Unit :=
  assignLoop t v k x o maxChain

/-- `v[k] = x`. -/
def assign (t : ThreadId) (v k x : Value) : M Unit := assignFrom t v k x .unknown

/-! ## The registry and the globals -/

def registryValue (k : Value) : M Value := do
  return (← table (← get).registry).get k

def setRegistryValue (k v : Value) : M Unit := do
  let r := (← get).registry
  modifyTable r (·.set k v)

/-- The table of globals. -/
def globals : M Value := registryValue (.int globalsPlace)

/-- Sets the metatable of a value; of a basic type when the value is not an object with its own. -/
def setMetatableOf (v : Value) (mt : Option TableId) : M Unit := do
  match v with
  | .table i => modifyTable i fun t => { t with metatable := mt }
  | .userdata u => modifyUserdata u fun u => { u with metatable := mt }
  | v =>
    let k := v.kind
    modify fun w =>
      let rest := w.kindMetatables.filter (·.1 != k)
      { w with kindMetatables := match mt with
        | some mt => (k, mt) :: rest
        | none => rest }

end LuaHost.Machine
