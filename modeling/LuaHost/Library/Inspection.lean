import LuaHost.Library.Files
import LuaHost.Machine.Upvalues

/-!
# Debug functions

Functions that look into running calls, at variables and upvalues, and set hooks.
-/

namespace LuaHost.Library

open Machine

/-- The thread that a call is about, and how many arguments that takes. -/
def subject (t : ThreadId) : M (ThreadId × Int) := do
  match ← value t 1 with
  | .thread th => return (th, 1)
  | _ => return (t, 0)

def needSubjectRoom (t th : ThreadId) (n : Nat) : M Unit := do
  if t != th then
    if !(← checkStack th n) then nativeErrorText t "stack overflow"

/-! ## Records of calls -/

def optionalBytes : Option Bytes → Value
  | some s => .str s
  | none => .nil

/-- Fills a table with the parts of a record that option letters ask for. -/
def fillRecord (id : TableId) (options : Bytes) (a : Activation) : M Unit := do
  let asked (c : Char) : Bool := options.data.contains c.toNat.toUInt8
  if asked 'S' then
    setField id "source" (optionalBytes a.source)
    setField id "short_src" (.str a.shortSource)
    setField id "linedefined" (.int (Int64.ofInt a.lineDefined))
    setField id "lastlinedefined" (.int (Int64.ofInt a.lastLineDefined))
    setField id "what" (optionalBytes a.what)
  if asked 'l' then setField id "currentline" (.int (Int64.ofInt a.currentLine))
  if asked 'u' then
    setField id "nups" (.ofNat a.upvalueCount)
    setField id "nparams" (.ofNat a.parameters)
    setField id "isvararg" (.bool a.isVararg)
  if asked 'n' then
    setField id "name" (optionalBytes a.name)
    setField id "namewhat" (optionalBytes a.nameWhat)
  if asked 'r' then
    setField id "ftransfer" (.ofNat a.transferFirst)
    setField id "ntransfer" (.ofNat a.transferCount)
  if asked 't' then setField id "istailcall" (.bool a.isTailCall)

def getinfo (t : ThreadId) : M Nat := do
  let (th, arg) ← subject t
  let options := (← optString t (arg + 2) "flnSrtu".toUTF8).untilNul
  needSubjectRoom t th 3
  argumentCheck t (options.byte? 0 != some 62) (arg + 2) "invalid option '>'"
  let isFn := isFunction (← value t (arg + 1))
  let a : Activation ← if isFn then do
      push th (← value t (arg + 1))
      pure {}
    else do
      match ← frameAtLevel th (← checkInt t (arg + 1)) with
      | some frameIndex => pure { frameIndex }
      | none =>
        pushFailure t
        return 1
  let (a, ok) ← getInfo th (if isFn then ">".toUTF8 ++ options else options) a
  if !ok then argumentErrorText t (arg + 2) "invalid option"
  let lines ← if options.data.contains 76 then some <$> pop th else pure none
  let func ← if options.data.contains 102 then some <$> pop th else pure none
  let id ← pushTable t 0 0
  fillRecord id options a
  match lines with
  | some v => setField id "activelines" v
  | none => pure ()
  match func with
  | some v => setField id "func" v
  | none => pure ()
  return 1

/-! ## Local variables -/

/-- The name and slot of a local variable of an active call.  Negative numbers are the extra
arguments of a variadic function; slots without a variable have general names. -/
def localSlot (th : Thread) (i : Nat) (n : Int) : Option (Bytes × Nat) :=
  let f := th.frames.getD i default
  let base := f.func + 1
  let limit := match th.frames[i + 1]? with
    | some g => g.func
    | none => th.top
  let temporary (word : String) : Option (Bytes × Nat) :=
    if 0 < n && n ≤ (limit : Int) - base then some (word.toUTF8, base + n.toNat - 1) else none
  match f.kind with
  | .script p _ =>
    if n < 0 then
      if p.isVararg && n ≥ -(f.extraArgs : Int) then
        some ("(vararg)".toUTF8, ((f.func : Int) - f.extraArgs - (n + 1)).toNat)
      else none
    else
      match p.localName n.toNat f.currentPc with
      | some name => some (name, base + n.toNat - 1)
      | none => temporary "(temporary)"
  | .native => temporary "(C temporary)"

def getlocal (t : ThreadId) : M Nat := do
  let (th, arg) ← subject t
  let n ← checkInt t (arg + 2)
  let v ← value t (arg + 1)
  if isFunction v then
    match ← functionShape v with
    | .script p => push t (optionalBytes (p.localName n.toNat 0))
    | .native _ => push t .nil
    return 1
  match ← frameAtLevel th (← checkInt t (arg + 1)) with
  | none => argumentErrorText t (arg + 1) "level out of range"
  | some i =>
    match localSlot (← thread th) i n with
    | some (name, s) =>
      let v ← slot th s
      pushBytes t name
      push t v
      return 2
    | none =>
      pushFailure t
      return 1

def setlocal (t : ThreadId) : M Nat := do
  let (th, arg) ← subject t
  let level ← checkInt t (arg + 1)
  let n ← checkInt t (arg + 2)
  match ← frameAtLevel th level with
  | none => argumentErrorText t (arg + 1) "level out of range"
  | some i =>
    checkAny t (arg + 3)
    setHeight t (arg + 3)
    let v ← pop t
    match localSlot (← thread th) i n with
    | some (name, s) =>
      setSlot th s v
      pushBytes t name
    | none => push t .nil
    return 1

/-! ## Upvalues -/

def getupvalue (t : ThreadId) : M Nat := do
  let n ← checkInt t 2
  checkKind t 1 .function
  match ← numberedUpvalue (← value t 1) n with
  | some (name, v) =>
    pushBytes t name
    push t v
    return 2
  | none => return 0

def setupvalue (t : ThreadId) : M Nat := do
  checkAny t 3
  let n ← checkInt t 2
  checkKind t 1 .function
  match ← assignUpvalue (← value t 1) n (← value t 3) with
  | some name =>
    pushBytes t name
    return 1
  | none => return 0

/-- An address that tells upvalues apart. -/
def upvalueAddress (f : Value) (n : Int) : M (Option UInt64) := do
  if (← numberedUpvalue f n).isNone then return none
  match f with
  | .closure c =>
    match ← closure c with
    | .script _ ups =>
      let u : UpvalueId := ups.getD (n - 1).toNat default
      return some (0x555557000000 + (u.index * 0x40).toUInt64)
    | .native .. => return f.address.map (· + 0x20 + (n.toNat * 16).toUInt64)
  | _ => return none

def upvalueid (t : ThreadId) : M Nat := do
  let n ← checkInt t 2
  checkKind t 1 .function
  match ← upvalueAddress (← value t 1) n with
  | some p => push t (.light p)
  | none => pushFailure t
  return 1

def upvaluejoin (t : ThreadId) : M Nat := do
  let check (argf argn : Int) : M Nat := do
    let n ← checkInt t argn
    checkKind t argf .function
    let known := (← upvalueAddress (← value t argf) n).isSome
    argumentCheck t known argn "invalid upvalue index"
    return (n - 1).toNat
  let i ← check 1 2
  let j ← check 3 4
  match ← functionShape (← value t 1), ← functionShape (← value t 3) with
  | .native _, _ => argumentErrorText t 1 "Lua function expected"
  | _, .native _ => argumentErrorText t 3 "Lua function expected"
  | .script _, .script _ =>
    match ← value t 1, ← value t 3 with
    | .closure c, .closure d =>
      let u ← upvalueOf d j
      modifyClosure c fun
        | .script p ups => .script p (ups.set! i u)
        | c => c
    | _, _ => pure ()
    return 0

/-! ## Metatables and user values -/

def rawMetatable (t : ThreadId) : M Nat := do
  checkAny t 1
  match ← metatableOf (← value t 1) with
  | some mt => push t (.table mt)
  | none => push t .nil
  return 1

def setRawMetatable (t : ThreadId) : M Nat := do
  let k ← kindAt t 2
  if k != .nil && k != .table then argumentTypeError t 2 "nil or table".toUTF8
  setHeight t 2
  giveMetatable (← value t 1) (← tableAt? t 2)
  setHeight t 1
  return 1

def getuservalue (t : ThreadId) : M Nat := do
  let n ← optInt t 2 1
  match ← value t 1 with
  | .userdata u =>
    let vs := (← userdata u).userValues
    if 1 ≤ n && n ≤ vs.size then
      push t (vs.getD (n - 1).toNat .nil)
      pushBool t true
      return 2
    push t .nil
    return 1
  | _ =>
    pushFailure t
    return 1

def setuservalue (t : ThreadId) : M Nat := do
  let n ← optInt t 3 1
  checkKind t 1 .userData
  checkAny t 2
  setHeight t 2
  match ← value t 1 with
  | .userdata u =>
    if 1 ≤ n && n ≤ (← userdata u).userValues.size then
      let v ← pop t
      modifyUserdata u fun d => { d with userValues := d.userValues.set! (n - 1).toNat v }
    else
      drop t 1
      pushFailure t
  | _ => pushFailure t
  return 1

/-! ## Hooks -/

/-- The registry field of the table that holds the scripts' hook functions. -/
def hookTableName : Value := .ofText "_HOOKKEY"

/-- The table of hook functions by thread, with weak keys. -/
def hookTable : M TableId := do
  match ← registryValue hookTableName with
  | .table id => return id
  | _ =>
    let id ← newTable {}
    setField id "__mode" (.ofText "k")
    setMetatableOf (.table id) (some id)
    setRegistryValue hookTableName (.table id)
    return id

/-- Sets the hook of a thread. -/
def setHook (th : ThreadId) (h : Hook) : M Unit :=
  modifyThread th fun t =>
    let h := if h.function.isNone || !h.active then { } else h
    { t with hook := { h with countdown := h.period, allowed := t.hook.allowed } }

def sethook (t : ThreadId) : M Nat := do
  let (th, arg) ← subject t
  let hook : Hook ← if ← isNoneOrNil t (arg + 1) then do
      setHeight t (arg + 1)
      pure {}
    else do
      let mask := (← checkString t (arg + 2)).untilNul
      checkKind t (arg + 1) .function
      let n ← optInt t (arg + 3) 0
      let asked (c : Char) : Bool := mask.data.contains c.toNat.toUInt8
      pure
        { function := some .script
          onCall := asked 'c', onReturn := asked 'r', onLine := asked 'l'
          onCount := n > 0, period := n.toNat }
  let f ← value t (arg + 1)
  let id ← hookTable
  modifyTable id (·.set (.thread th) f)
  setHook th hook
  return 0

def gethook (t : ThreadId) : M Nat := do
  let (th, _) ← subject t
  let h := (← thread th).hook
  match h.function with
  | none =>
    pushFailure t
    return 1
  | some .host => pushText t "external hook"
  | some .script => push t ((← table (← hookTable)).get (.thread th))
  pushText t ((if h.onCall then "c" else "") ++ (if h.onReturn then "r" else "")
    ++ (if h.onLine then "l" else ""))
  pushInt t h.period
  return 3

def hookWord : HookEvent → String
  | .call => "call"
  | .ret => "return"
  | .line => "line"
  | .count => "count"
  | .tailCall => "tail call"

/-- Calls the hook function that a script has set for a thread. -/
def runScriptHook (th : ThreadId) (event : HookEvent) (line : Int) : M Unit := do
  match ← registryValue hookTableName with
  | .table id =>
    let f := (← table id).get (.thread th)
    if isFunction f then
      push th f
      pushText th (hookWord event)
      push th (if line ≥ 0 then .int (Int64.ofInt line) else .nil)
      Machine.call th 2 0
  | _ => return ()

/-! ## Tracebacks and the debugger's prompt -/

def tracebackFunction (t : ThreadId) : M Nat := do
  let (th, arg) ← subject t
  let v ← value? t (arg + 1)
  let msg ← toBytesAt t (arg + 1)
  match msg, v with
  | none, some .nil | none, none | some _, _ =>
    let level ← optInt t (arg + 2) (if t == th then 1 else 0)
    pushBytes t (← traceback th msg level)
  | none, some v => push t v
  return 1

/-- The longest line that is read at the prompt; longer ones are cut into pieces. -/
def longestLine : Nat := 249

/-- The next line of the standard input, with its end. -/
def inputLine : M (Option Bytes) := do
  let b := (← outside).unread
  if b.size == 0 then return none
  let n := match b.findByte? (· == 10) 0 with
    | some i => i + 1
    | none => b.size
  let n := min n longestLine
  modifyOutside (·.useUp n)
  return some (b.extract 0 n)

/-- Runs lines of the standard input until one that says `cont`; `fuel` bounds the lines. -/
def promptLoop (t : ThreadId) : Nat → M Unit
  | 0 => return ()
  | fuel + 1 => do
    writeError "lua_debug> ".toUTF8
    match ← inputLine with
    | none => return ()
    | some line =>
      if line == "cont\n".toUTF8 then return ()
      let status ← loadChunk t line.untilNul "=(debug command)".toUTF8 none
      let status ← if status == .ok then protectedCall t 0 0 0 else pure status
      if status != .ok then
        writeError ((← pushDisplay t (-1)) ++ "\n".toUTF8)
      setHeight t 0
      promptLoop t fuel

def prompt (t : ThreadId) : M Nat := do
  promptLoop t ((← outside).unread.size + 1)
  return 0

/-! ## The table of functions -/

def debug : DebugFn → ThreadId → M Nat
  | .debug => prompt
  | .getinfo => getinfo
  | .gethook => gethook
  | .getlocal => getlocal
  | .getmetatable => rawMetatable
  | .getregistry => fun t => do
    push t (.table (← get).registry)
    return 1
  | .getupvalue => getupvalue
  | .getuservalue => getuservalue
  | .sethook => sethook
  | .setlocal => setlocal
  | .setmetatable => setRawMetatable
  | .setupvalue => setupvalue
  | .setuservalue => setuservalue
  | .setcstacklimit => fun t => do
    let _ ← checkInt t 1
    pushInt t maxNesting
    return 1
  | .traceback => tracebackFunction
  | .upvalueid => upvalueid
  | .upvaluejoin => upvaluejoin

end LuaHost.Library
