import LuaHost.Library.Files
import LuaHost.Machine.Upvalues

/-!
# Basic functions

Functions on values of all types, errors and protected calls, loading, and the collector.
-/

namespace LuaHost.Library

open Machine

/-! ## Output and errors -/

def printLoop (t : ThreadId) (i n : Nat) : Nat → M Unit
  | 0 => return ()
  | fuel + 1 => do
    if i ≤ n then
      let s ← pushDisplay t i
      if i > 1 then writeOutput "\t".toUTF8
      writeOutput s
      drop t 1
      printLoop t (i + 1) n fuel

def print (t : ThreadId) : M Nat := do
  let n ← count t
  printLoop t 1 n n
  writeOutput "\n".toUTF8
  flushOutput
  return 0

def warnFunction (t : ThreadId) : M Nat := do
  let n ← count t
  let pieces ← (List.range (max n 1)).mapM fun i => checkString t (i + 1 : Nat)
  (pieces.take (pieces.length - 1)).forM fun s => warn s.untilNul true
  warn (pieces.getLastD ByteArray.empty).untilNul false
  return 0

/-- Raises the first argument as an error; a string gets the position of the caller at a level. -/
def raiseArgument (t : ThreadId) : M Nat := do
  let level ← optInt t 2 1
  setHeight t 1
  match ← value t 1 with
  | .str s =>
    if level > 0 then
      let position ← positionAt t level
      raiseValue t (.str (position ++ s))
    else raiseTop t
  | _ => raiseTop t

def assert (t : ThreadId) : M Nat := do
  if ← isTrueAt t 1 then count t
  else
    checkAny t 1
    Machine.remove t 1
    pushText t "assertion failed!"
    setHeight t 1
    raiseArgument t

/-! ## Protected calls -/

/-- The results of a protected call: all of them, less `extra` values below; or false and the error
object. -/
def finishProtectedCall (t : ThreadId) (status : Status) (extra : Int) : M Nat := do
  if status.isError then
    pushBool t false
    pushValue t (-2)
    return 2
  return (← count t) - extra.toNat

def pcall (t : ThreadId) : M Nat := do
  checkAny t 1
  pushBool t true
  insert t 1
  let status ← protectedCallWith t ((← count t) - 2) multipleResults 0 .protectedCall 0
  finishProtectedCall t status 0

def xpcall (t : ThreadId) : M Nat := do
  let n ← count t
  checkKind t 2 .function
  pushBool t true
  pushValue t 1
  rotate t 3 2
  let status ← protectedCallWith t (n - 2) multipleResults 2 .protectedCall 2
  finishProtectedCall t status 2

/-! ## Conversions -/

/-- The digits of an integer in a base; letters are digits from ten on. -/
def digitValue (c : UInt8) : Nat :=
  if Ascii.isDigit c then c.toNat - 48 else (Ascii.toUpper c).toNat - 55

/-- An integer in a base, between optional blanks. -/
def integerInBase (base : Nat) (s : Bytes) : Option Int64 :=
  let l := Numeral.skipSpace s.data.toList
  let (neg, l) := Numeral.readSign l
  let ds := l.takeWhile Ascii.isAlnum
  if ds.isEmpty || ds.any (fun c => digitValue c ≥ base) then none
  else if !Numeral.atEnd (l.drop ds.length) then none
  else
    let n := Int64.ofInt (ds.foldl (fun n c => n * base + digitValue c) 0 : Nat)
    some (if neg then 0 - n else n)

def tonumber (t : ThreadId) : M Nat := do
  if ← isNoneOrNil t 2 then
    match ← value t 1 with
    | .int _ | .float _ =>
      setHeight t 1
      return 1
    | v =>
      match v.toNumber? with
      | some n =>
        push t (.ofNumber n)
        return 1
      | none => checkAny t 1
  else
    let base ← checkInt t 2
    checkKind t 1 .string
    match ← value t 1 with
    | .str s =>
      argumentCheck t (2 ≤ base && base ≤ 36) 2 "base out of range"
      match integerInBase base.toNat s with
      | some n =>
        push t (.int n)
        return 1
      | none => pure ()
    | _ => pure ()
  pushFailure t
  return 1

def tostring (t : ThreadId) : M Nat := do
  checkAny t 1
  let _ ← pushDisplay t 1
  return 1

def type (t : ThreadId) : M Nat := do
  let k ← kindAt t 1
  argumentCheck t (k != .none) 1 "value expected"
  pushText t k.name
  return 1

/-! ## Tables -/

def getmetatable (t : ThreadId) : M Nat := do
  checkAny t 1
  let v ← value t 1
  match ← metatableOf v with
  | none => pushFailure t
  | some mt =>
    let hidden := (← table mt).getStr "__metatable".toUTF8
    push t (if hidden.isNil then .table mt else hidden)
  return 1

def setmetatable (t : ThreadId) : M Nat := do
  let k ← kindAt t 2
  checkKind t 1 .table
  if k != .nil && k != .table then argumentTypeError t 2 "nil or table".toUTF8
  let v ← value t 1
  if !(← metaField v "__metatable".toUTF8).isNil then
    nativeErrorText t "cannot change a protected metatable"
  setHeight t 2
  giveMetatable v (← tableAt? t 2)
  setHeight t 1
  return 1

def rawequal (t : ThreadId) : M Nat := do
  checkAny t 1
  checkAny t 2
  pushBool t ((← value t 1).rawEq (← value t 2))
  return 1

def rawlen (t : ThreadId) : M Nat := do
  match ← value t 1 with
  | .table i => pushInt t (← tableLength i)
  | .str s => pushInt t s.size
  | _ => argumentTypeError t 1 "table or string".toUTF8
  return 1

def rawget (t : ThreadId) : M Nat := do
  checkKind t 1 .table
  checkAny t 2
  match ← tableAt? t 1 with
  | some i => push t ((← table i).get (← value t 2))
  | none => pushFailure t
  return 1

def rawset (t : ThreadId) : M Nat := do
  checkKind t 1 .table
  checkAny t 2
  checkAny t 3
  match ← tableAt? t 1 with
  | some i => rawSet t i (← value t 2) (← value t 3)
  | none => pure ()
  setHeight t 1
  return 1

/-- Pushes the entry after a key: whether there is one. -/
def pushNext (t : ThreadId) (i : TableId) (k : Value) : M Bool := do
  match (← table i).next k with
  | none => runErrorText t "invalid key to 'next'"
  | some none => return false
  | some (some (k, v)) =>
    push t k
    push t v
    return true

def next (t : ThreadId) : M Nat := do
  checkKind t 1 .table
  setHeight t 2
  match ← tableAt? t 1 with
  | some i =>
    if ← pushNext t i (← value t 2) then return 2
    pushFailure t
    return 1
  | none => return 0

def pairs (t : ThreadId) : M Nat := do
  checkAny t 1
  let v ← value t 1
  let h ← metaField v "__pairs".toUTF8
  if h.isNil then
    push t (.native (.base .next))
    push t v
    push t .nil
  else
    push t h
    push t v
    Machine.call t 1 3
  return 3

def ipairs (t : ThreadId) : M Nat := do
  checkAny t 1
  let v ← value t 1
  push t (.native (.base .ipairsStep))
  push t v
  pushInt t 0
  return 3

def ipairsStep (t : ThreadId) : M Nat := do
  let i := (← checkInteger t 2) + 1
  push t (.int i)
  let v ← index t (← value t 1) (.int i)
  push t v
  return if v.isNil then 1 else 2

def select (t : ThreadId) : M Nat := do
  let n ← count t
  match ← value t 1 with
  | .str s =>
    if s.byte? 0 == some 35 then
      pushInt t (n - 1 : Nat)
      return 1
  | _ => pure ()
  let i ← checkInt t 1
  let i : Int := if i < 0 then n + i else if i > n then n else i
  argumentCheck t (1 ≤ i) 1 "index out of range"
  return n - i.toNat

/-! ## Loading -/

/-- The result of loading: the function, with another environment if one is given, or a failure with
the message. -/
def finishLoad (t : ThreadId) (status : Status) (env : Option Int) : M Nat := do
  if status == .ok then
    match env with
    | some i =>
      let _ ← assignUpvalue (← value t (-1)) 1 (← value t i)
    | none => pure ()
    return 1
  pushFailure t
  insert t (-2)
  return 2

/-- The place that keeps the current piece of a chunk that a function yields. -/
def pieceIndex : Int := 5

/-- The pieces that a reader function answers until `nil` or an empty string. -/
def readPieces (t : ThreadId) (acc : Bytes) : Nat → M Bytes
  | 0 => return acc
  | fuel + 1 => do
    needRoom t 2 "too many nested functions"
    pushValue t 1
    Machine.call t 0 1
    match ← value t (-1) with
    | .nil =>
      drop t 1
      return acc
    | v =>
      match v.toBytes? with
      | none => nativeErrorText t "reader function must return a string"
      | some s =>
        Machine.copy t (-1) pieceIndex
        drop t 1
        if s.size == 0 then return acc else readPieces t (acc ++ s) fuel

/-- More pieces than a chunk can have. -/
def maxPieces : Nat := 1 <<< 40

def load (t : ThreadId) : M Nat := do
  let text ← toBytesAt t 1
  let mode ← optString t 3 "bt".toUTF8
  let env := if ← isNone t 4 then none else some (4 : Int)
  match text with
  | some s =>
    let name ← optString t 2 s
    let status ← loadChunk t s name.untilNul (some mode.untilNul)
    finishLoad t status env
  | none =>
    let name ← optString t 2 "=(load)".toUTF8
    checkKind t 1 .function
    setHeight t pieceIndex
    let status ← loadFrom t (readPieces t ByteArray.empty maxPieces) name.untilNul
      (some mode.untilNul)
    finishLoad t status env

def loadfile (t : ThreadId) : M Nat := do
  let name ← if ← isNoneOrNil t 1 then pure none else some <$> checkString t 1
  let mode ← if ← isNoneOrNil t 2 then pure none else some <$> checkString t 2
  let env := if ← isNone t 3 then none else some (3 : Int)
  let status ← loadFile t name (mode.map Bytes.untilNul)
  finishLoad t status env

def dofile (t : ThreadId) : M Nat := do
  let name ← if ← isNoneOrNil t 1 then pure none else some <$> checkString t 1
  setHeight t 1
  if (← loadFile t name none) != .ok then raiseTop t
  callWith t 0 multipleResults .doFile 0
  return (← count t) - 1

/-! ## The collector -/

/-- A parameter of the collector as it is stored: in one byte, in steps of four. -/
def storedParameter (n : Int) : Nat := ((Int.tdiv n 4) % 256).toNat * 4

/-- An estimate of the memory in use, in bytes. -/
def memoryInUse : M Nat := return 20000 + 64 * (← get).heap.population

inductive CollectorRequest where
  | stop | restart | collect | count | step | setPause | setStepMultiplier | isRunning
  | generational | incremental
deriving DecidableEq, Inhabited

/-- Runs a cycle even if the collector is stopped; whether the cycle ended. -/
def collectorStep (t : ThreadId) : M Bool := do
  collect t
  return true

/-- Whether requests to the collector are refused: while a finalizer runs, and while the machine
closes. -/
def collectorRefuses : M Bool := do
  let c := (← get).collector
  return c.busy || c.closing

def setCollectorMode (t : ThreadId) (generational : Bool) : M Unit := do
  let before := (← get).collector.generational
  modifyCollector fun c => { c with generational }
  pushText t (if before then "generational" else "incremental")

def answerCollector (t : ThreadId) : CollectorRequest → M Unit
  | .stop => do
    modifyCollector fun c => { c with stopped := true }
    pushInt t 0
  | .restart => do
    modifyCollector fun c => { c with stopped := false }
    pushInt t 0
  | .collect => do
    collect t
    pushInt t 0
  | .count => do
    pushFloat t ((Double.ofInt (← memoryInUse)).div (Double.ofInt 1024))
  | .step => do
    let _ ← optInt t 2 0
    pushBool t (← collectorStep t)
  | .setPause => do
    let n ← optInt t 2 0
    pushInt t (← get).collector.pause
    modifyCollector fun c => { c with pause := storedParameter n }
  | .setStepMultiplier => do
    let n ← optInt t 2 0
    pushInt t (← get).collector.stepMultiplier
    modifyCollector fun c => { c with stepMultiplier := storedParameter n }
  | .isRunning => do pushBool t (!(← get).collector.stopped)
  | .generational => do
    let _ ← optInt t 2 0
    let _ ← optInt t 3 0
    setCollectorMode t true
  | .incremental => do
    let pause ← optInt t 2 0
    let mul ← optInt t 3 0
    let _ ← optInt t 4 0
    modifyCollector fun c =>
      { c with
        pause := if pause != 0 then storedParameter pause else c.pause
        stepMultiplier := if mul != 0 then storedParameter mul else c.stepMultiplier }
    setCollectorMode t false

def collectgarbage (t : ThreadId) : M Nat := do
  let names := ["stop", "restart", "collect", "count", "step", "setpause", "setstepmul",
    "isrunning", "generational", "incremental"]
  let requests : List CollectorRequest := [.stop, .restart, .collect, .count, .step, .setPause,
    .setStepMultiplier, .isRunning, .generational, .incremental]
  let r := requests.getD (← checkOption t 1 (some "collect") names) .collect
  if ← collectorRefuses then pushFailure t else answerCollector t r
  return 1

/-! ## The table of functions -/

def base : BaseFn → ThreadId → M Nat
  | .assert => assert
  | .collectgarbage => collectgarbage
  | .dofile => dofile
  | .error => raiseArgument
  | .getmetatable => getmetatable
  | .ipairs => ipairs
  | .ipairsStep => ipairsStep
  | .load => load
  | .loadfile => loadfile
  | .next => next
  | .pairs => pairs
  | .pcall => pcall
  | .print => print
  | .rawequal => rawequal
  | .rawget => rawget
  | .rawlen => rawlen
  | .rawset => rawset
  | .select => select
  | .setmetatable => setmetatable
  | .tonumber => tonumber
  | .tostring => tostring
  | .type => type
  | .warn => warnFunction
  | .xpcall => xpcall

end LuaHost.Library
