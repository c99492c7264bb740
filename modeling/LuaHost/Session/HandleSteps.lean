import LuaHost.Session.Book

/-!
# Steps with handles

Steps that create handles under a name, steps that use a handle up, and steps that read through one.
A step that uses a handle up leaves its name free; on a handle of the wrong sort it changes nothing.
-/

namespace LuaHost.Session

open Interface Stock

/-! ## Creating handles -/

inductive CreateStep where
  | manualPop
  | manualIndex (idx : Int)
  | manualRaw (id : RefId)
  | manualValuePop
  | manualValueIndex (idx : Int)
  | ownedPop
  | ownedIndex (idx : Int)
  | ownedValuePop
  | ownedValueIndex (idx : Int)

def createHandle (t : ThreadId) : CreateStep → M Handle
  | .manualPop => return .manualRef (← ManualRef.popFrom t)
  | .manualIndex idx => return .manualRef (← ManualRef.fromIndex t idx)
  | .manualRaw id => return .manualRef ⟨t, id⟩
  | .manualValuePop => return .manualValue (← ManualValue.popFrom t)
  | .manualValueIndex idx => return .manualValue (← ManualValue.fromIndex t idx)
  | .ownedPop => return .ownedRef (← OwnedRef.popFrom t)
  | .ownedIndex idx => return .ownedRef (← OwnedRef.fromIndex t idx)
  | .ownedValuePop => return .ownedValue (← OwnedValue.popFrom t)
  | .ownedValueIndex idx => return .ownedValue (← OwnedValue.fromIndex t idx)

/-! ## Using handles -/

inductive HandleStep where
  | release
  | intoRaw
  | intoSafe (out : String)
  | intoUnsafe (out : String)
  | intoInner (out : String)
  | asKind (k : Option RefKind) (out : String)
  | tryKind (k : Option RefKind) (out : String)
  | drop
  | leak
  | describe
  | push
  | copy (out : String)
  | thread
  | typeOf
  | primitives
  | copyToHost
  | text
  | bytes
  | get (k : Key)
  | set (k : Key) (v : Data.Value)
  | len
  | isEmpty
  | forEach (stop : Option Nat)
  | call (args : List Data.Value)
  | downcast (type : StockType)
  | threadOf
  | unknown

def Handle.copy : Handle → M Handle
  | .manualRef r => return .manualRef (← r.copy)
  | .manualValue v => return .manualValue (← ManualValue.copy v)
  | .ownedRef r => return .ownedRef (← r.copy)
  | .ownedValue v => return .ownedValue (← OwnedValue.copy v)
  | .typed k r => return .typed k (← r.copy)

/-- Pushes the value of a handle: a single handle's on the stack of its own thread, a detached value
on `t`. -/
def Handle.push (t : ThreadId) : Handle → M Answer
  | .manualRef r => return .ofKind (← r.push)
  | .ownedRef r | .typed _ r => return .ofKind (← r.push)
  | .manualValue v => do
    ManualValue.push v t
    return .nothing
  | .ownedValue v => do
    OwnedValue.push v t
    return .nothing

/-- The thread of a handle; a value to be released by hand does not tell it. -/
def Handle.thread? : Handle → Option ThreadId
  | .manualRef r => some r.thread
  | .ownedRef r | .typed _ r => some r.thread
  | .ownedValue v => v.reference?.map (·.thread)
  | .manualValue _ => none

/-! ### Steps that use a handle up -/

/-- Takes a handle out of a value, and keeps either it or the value. -/
def takeKind (name out : String) (k : RefKind) : Handle → Act Answer
  | .ownedValue v => do
    Act.forget name
    match ← OwnedValue.takeKind k v with
    | some r => Act.keepNew out (.typed k r)
    | none => return .absent
  | .manualValue v => do
    Act.forget name
    match v.asKind? k with
    | some r =>
      Act.keep out (.manualRef r)
      return .taken (.manualRef r)
    | none =>
      Act.keep out (.manualValue v)
      return .back (.manualValue v)
  | _ => return .refused .wrongHandleKind

def tryKind (name out : String) (k : RefKind) : Handle → Act Answer
  | .ownedValue v => do
    Act.forget name
    match ← OwnedValue.tryKind k v with
    | .ok r => Act.keepNew out (.typed k r)
    | .error f => return .fault f
  | _ => return .refused .wrongHandleKind

def intoSafe (name out : String) : Handle → Act Answer
  | .manualRef r => do
    Act.forget name
    Act.keepNew out (.ownedRef (← OwnedRef.fromManual r))
  | .manualValue v => do
    Act.forget name
    Act.keepNew out (.ownedValue (← OwnedValue.fromManual v))
  | _ => return .refused .wrongHandleKind

def intoUnsafe (name out : String) : Handle → Act Answer
  | .ownedRef r => do
    Act.forget name
    Act.keepNew out (.manualRef (← r.toManual))
  | .ownedValue v => do
    Act.forget name
    Act.keepNew out (.manualValue (← OwnedValue.toManual v))
  | _ => return .refused .wrongHandleKind

def release (name : String) : Handle → Act Answer
  | .manualRef r => do
    Act.forget name
    r.release
    return .nothing
  | .manualValue v => do
    Act.forget name
    ManualValue.release v
    return .nothing
  | _ => return .refused .wrongHandleKind

def intoRaw (name : String) : Handle → Act Answer
  | .manualRef r => do
    Act.forget name
    return .rawHandle r.id (← Act.number r.thread)
  | _ => return .refused .wrongHandleKind

def intoInner (name out : String) : Handle → Act Answer
  | .typed _ r => do
    Act.forget name
    Act.keepNew out (.ownedRef r)
  | _ => return .refused .wrongHandleKind

/-! ### Steps that read through a handle -/

/-- Visits the entries of a table in order to list them; visit number `stop` is the last. -/
def listEntries (r : OwnedRef) (stop : Option Nat) : M (List (Value × Value)) := do
  let es ← TableRef.forEach r
    (fun es => do
      let k ← Machine.value r.thread (-2)
      let v ← Machine.value r.thread (-1)
      return (stop != some (es.length + 1), (k, v) :: es))
    ([] : List (Value × Value))
  return es.reverse

def readString (r : OwnedRef) : HandleStep → M Answer
  | .text => return .text (← StringRef.toText r)
  | .bytes => return .slot (.str (← StringRef.toBytes r))
  | _ => return .refused .wrongHandleKindOrStep

def readTable (r : OwnedRef) : HandleStep → M Answer
  | .copyToHost => return .host (.table (← TableRef.copyToHost r))
  | .get k => return .ofHost? (← TableRef.get r k)
  | .set k v => do
    TableRef.set r k v
    return .nothing
  | .len => return .slot (.int (← TableRef.len r))
  | .isEmpty => return .flag (← TableRef.isEmpty r)
  | .forEach stop => return .entries (← listEntries r stop)
  | _ => return .refused .wrongHandleKindOrStep

def readThrough (h : Handle) (step : HandleStep) : Act Answer :=
  match h, step with
  | .ownedRef r, .typeOf => do return .ofKind (← r.typeOf)
  | .manualValue v, .primitives => return .primitives v.isNil v.asBool? v.asNumber? v.asLight?
  | .ownedValue v, .primitives => return .primitives v.isNil v.asBool? v.asNumber? v.asLight?
  | .ownedValue v, .copyToHost => do return .ofHost? (← OwnedValue.copyToHost v)
  | .typed .string r, step => readString r step
  | .typed .table r, step => readTable r step
  | .typed .function r, .call args => do
    let (s, n) ← FunctionRef.call r args
    return .called s n
  | .typed .userData r, .downcast type => do
    return .ofOption (fun v => .description (Stock.describe type v))
      (← UserDataRef.downcast r type.type)
  | .typed .thread r, .threadOf => do Act.answerThread (← ThreadRef.thread r)
  | _, _ => return .refused .wrongHandleKindOrStep

/-- Runs a step with the handle of a name. -/
def useHandle (t : ThreadId) (name : String) (h : Handle) (step : HandleStep) : Act Answer :=
  match step with
  | .release => release name h
  | .intoRaw => intoRaw name h
  | .intoSafe out => intoSafe name out h
  | .intoUnsafe out => intoUnsafe name out h
  | .intoInner out => intoInner name out h
  | .asKind k out =>
    match k with
    | some k => takeKind name out k h
    | none => return .refused .unknownKind
  | .tryKind k out =>
    match k with
    | some k => tryKind name out k h
    | none => return .refused .unknownKind
  | .drop => do
    Act.forget name
    h.drop
    return .nothing
  | .leak => do
    Act.forget name
    return .nothing
  | .describe => return .handle h
  | .push => h.push t
  | .copy out => do Act.keepNew out (← h.copy)
  | .thread => do Act.answerThread? h.thread?
  | step => readThrough h step

def runHandle (t : ThreadId) (name : String) (step : HandleStep) : Act Answer := do
  match (← get).handle? name with
  | none => return .refused .noSuchHandle
  | some h => useHandle t name h step

end LuaHost.Session
