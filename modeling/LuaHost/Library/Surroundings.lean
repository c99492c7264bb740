import LuaHost.Library.Files
import LuaHost.Machine.Shutdown
import LuaHost.Numeric.Calendar

/-!
# Functions on the program's surroundings

Environment, files by name, dates, and the end of the program.  There is no clock: the current time
is the beginning of 1970.
-/

namespace LuaHost.Library

open Machine

/-! ## Environment and files -/

def osGetenv (t : ThreadId) : M Nat := do
  let name := (← checkString t 1).untilNul
  match (← outside).environment.lookup name.toText with
  | some v => pushText t v
  | none => push t .nil
  return 1

def fileAnswer (t : ThreadId) (name : Bytes) (r : Except FileFault Unit) : M Nat := do
  match r with
  | .ok () =>
    pushBool t true
    return 1
  | .error e =>
    pushFailure t
    pushBytes t (name ++ (": " ++ e.message).toUTF8)
    pushInt t e.code
    return 3

def osRemove (t : ThreadId) : M Nat := do
  let name := (← checkString t 1).untilNul
  match (← outside).openRead name.toText with
  | .ok _ =>
    modifyOutside (·.removeFile name.toText)
    fileAnswer t name (.ok ())
  | .error e => fileAnswer t name (.error e)

def osRename (t : ThreadId) : M Nat := do
  let old := (← checkString t 1).untilNul
  let new := (← checkString t 2).untilNul
  match (← outside).openRead old.toText with
  | .ok b =>
    if Outside.canCreate new.toText then
      modifyOutside fun o => (o.removeFile old.toText).writeFile new.toText b
      fileAnswer t old (.ok ())
    else fileAnswer t old (.error .missing)
  | .error e => fileAnswer t old (.error e)

def osTmpname (t : ThreadId) : M Nat := do
  pushText t "/tmp/lua_000000"
  return 1

/-- There is no command interpreter. -/
def osExecute (t : ThreadId) : M Nat := do
  if ← isNoneOrNil t 1 then
    pushBool t false
    return 1
  let _ ← checkString t 1
  pushFailure t
  pushText t "exit"
  pushInt t 127
  return 3

def osSetlocale (t : ThreadId) : M Nat := do
  let name ← if ← isNoneOrNil t 1 then pure none else some <$> checkString t 1
  let _ ← checkOption t 2 (some "all") ["all", "collate", "ctype", "monetary", "numeric", "time"]
  match name with
  | none => pushText t "C"
  | some n =>
    if n.size == 0 || n == "C".toUTF8 || n == "POSIX".toUTF8 then pushText t "C" else push t .nil
  return 1

/-! ## The end of the program -/

/-- The exit code that a number stands for. -/
def exitCode (n : Int) : Nat := (n % 256).toNat

def osExit (t : ThreadId) : M Nat := do
  let code ← match ← value t 1 with
    | .bool b => pure (if b then 0 else 1)
    | _ => exitCode <$> optInt t 1 0
  if ← isTrueAt t 2 then shutDown
  throw (.exit code)

/-! ## Dates -/

def dateField (t : ThreadId) (v : Value) (name : String) (default : Option Int) (delta : Int) :
    M Int := do
  let x ← index t v (.ofText name)
  match x.toInt64? with
  | none =>
    if !x.isNil then nativeErrorText t ("field '" ++ name ++ "' is not an integer")
    match default with
    | some d => return d
    | none => nativeErrorText t ("field '" ++ name ++ "' missing in date table")
  | some i =>
    let n := i.toInt - delta
    if n < -0x80000000 || n ≥ 0x80000000 then
      nativeErrorText t ("field '" ++ name ++ "' is out-of-bound")
    return n

def setDateFields (id : TableId) (d : Date) : M Unit := do
  setField id "year" (.int (Int64.ofInt d.year))
  setField id "month" (.ofNat d.month)
  setField id "day" (.ofNat d.day)
  setField id "hour" (.ofNat d.hour)
  setField id "min" (.ofNat d.minute)
  setField id "sec" (.ofNat d.second)
  setField id "yday" (.ofNat (d.yearday + 1))
  setField id "wday" (.ofNat (d.weekday + 1))
  setField id "isdst" (.bool false)

def osTime (t : ThreadId) : M Nat := do
  if ← isNoneOrNil t 1 then pushInt t 0
  else
    checkKind t 1 .table
    setHeight t 1
    let v ← value t 1
    let year ← dateField t v "year" none 1900
    let month ← dateField t v "month" none 1
    let day ← dateField t v "day" none 0
    let hour ← dateField t v "hour" (some 12) 0
    let minute ← dateField t v "min" (some 0) 0
    let second ← dateField t v "sec" (some 0) 0
    let s := Date.seconds (year + 1900) (month + 1) day hour minute second
    if let .table id := v then setDateFields id (Date.ofSeconds s)
    pushInt t s
  return 1

/-- Letters that may follow `%E` and `%O`. -/
def alternativeLetters (c : Char) : List Char :=
  if c == 'E' then "cCxXyY".toList else "deHImMSuUVwWy".toList

/-- The text of a date under a format. -/
def formatDate (t : ThreadId) (d : Date) (acc : Bytes) : List UInt8 → M Bytes
  | [] => return acc
  | 37 :: c :: r => do
    let letter := Char.ofNat c.toNat
    match d.field letter with
    | some s => formatDate t d (acc ++ s.toUTF8) r
    | none =>
      let fault : M Bytes :=
        argumentError t 1 ("invalid conversion specifier '%".toUTF8 ++ Bytes.ofList (c :: r)
          ++ "'".toUTF8)
      if letter == 'E' || letter == 'O' then
        match r with
        | e :: r' =>
          if (alternativeLetters letter).contains (Char.ofNat e.toNat) then
            formatDate t d (acc ++ ((d.field (Char.ofNat e.toNat)).getD "").toUTF8) r'
          else fault
        | [] => fault
      else fault
  | [37] => argumentErrorText t 1 "invalid conversion specifier '%'"
  | c :: r => formatDate t d (acc.push c) r

def osDate (t : ThreadId) : M Nat := do
  let f := (← optString t 1 "%c".toUTF8).untilNul
  let s ← optInt t 2 0
  let f : Bytes := if f.byte? 0 == some 33 then f.extract 1 f.size else f
  let d := Date.ofSeconds s
  if f.startsWith "*t".toUTF8 then
    let id ← pushTable t 0 9
    setDateFields id d
  else pushBytes t (← formatDate t d ByteArray.empty f.data.toList)
  return 1

def osDifftime (t : ThreadId) : M Nat := do
  let a ← checkInt t 1
  let b ← checkInt t 2
  pushFloat t ((Double.ofInt a).sub (Double.ofInt b))
  return 1

def os : OsFn → ThreadId → M Nat
  | .clock => fun t => do
    pushFloat t Double.zero
    return 1
  | .date => osDate
  | .difftime => osDifftime
  | .execute => osExecute
  | .exit => osExit
  | .getenv => osGetenv
  | .remove => osRemove
  | .rename => osRename
  | .setlocale => osSetlocale
  | .time => osTime
  | .tmpname => osTmpname

end LuaHost.Library
