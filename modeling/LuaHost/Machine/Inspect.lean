import LuaHost.Machine.Access

/-!
# Looking at active calls

Activation records say what is known of a running function: its name, its source, the current line.
Messages of native functions and tracebacks are built from them.
-/

namespace LuaHost

/-- What is known of an active call or of a function.  Fields that were not asked for keep their
initial value. -/
structure Activation where
  name : Option Bytes := none
  nameWhat : Option Bytes := none
  what : Option Bytes := none
  source : Option Bytes := none
  shortSource : Bytes := ByteArray.empty
  currentLine : Int := 0
  lineDefined : Int := 0
  lastLineDefined : Int := 0
  upvalueCount : Nat := 0
  parameters : Nat := 0
  isVararg : Bool := false
  isTailCall : Bool := false
  transferFirst : Nat := 0
  transferCount : Nat := 0
  /-- The call that the record is of, by its place among the active ones. -/
  frameIndex : Nat := 0
deriving Inhabited

namespace Machine

/-- The place of the call at a level, counted from the running one outward; the base level is
none. -/
def frameAtLevel (t : ThreadId) (level : Int) : M (Option Nat) := do
  let n := (← thread t).frames.size
  if 0 ≤ level && level < (n : Int) - 1 then return some (n - 1 - level.toNat) else return none

/-- What is known of a function's upvalues and parameters. -/
inductive FunctionShape where
  | script (p : Prototype)
  | native (upvalues : Nat)

def functionShape (f : Value) : M FunctionShape := do
  match f with
  | .closure c =>
    match ← closure c with
    | .script p _ => return .script p
    | .native _ ups => return .native ups.size
  | _ => return .native 0

def functionUpvalues (f : Value) : M Nat := do
  match f with
  | .closure c =>
    match ← closure c with
    | .script _ ups => return ups.size
    | .native _ ups => return ups.size
  | _ => return 0

/-- The name that the caller's code gives to the function of a call. -/
def callName (t : ThreadId) (i : Nat) : M (Option Naming) := do
  let th ← thread t
  let f := th.frames.getD i default
  if f.tail || i == 0 then return none
  return (th.frames.getD (i - 1) default).calledName

/-- Fills in what one option letter asks for; `false` for an unknown one. -/
def fillOption (t : ThreadId) (f : Value) (frame? : Option Nat) (c : UInt8) (a : Activation) :
    M (Activation × Bool) := do
  let frames := (← thread t).frames
  let fr? : Option Frame := frame?.bind fun i => frames[i]?
  match Char.ofNat c.toNat with
  | 'S' =>
    match ← functionShape f with
    | .native _ =>
      return ({ a with
        source := some "=[C]".toUTF8, lineDefined := -1, lastLineDefined := -1
        what := some "C".toUTF8, shortSource := "[C]".toUTF8 }, true)
    | .script p =>
      let source := p.source.getD "=?".toUTF8
      return ({ a with
        source := some source, lineDefined := p.lineDefined
        lastLineDefined := p.lastLineDefined
        what := some (if p.lineDefined == 0 then "main" else "Lua").toUTF8
        shortSource := ChunkName.display source }, true)
  | 'l' =>
    return ({ a with currentLine := match fr? with
      | some fr => fr.currentLine
      | none => -1 }, true)
  | 'u' =>
    let n ← functionUpvalues f
    match ← functionShape f with
    | .native _ => return ({ a with upvalueCount := n, isVararg := true, parameters := 0 }, true)
    | .script p =>
      return ({ a with
        upvalueCount := n, isVararg := p.isVararg, parameters := p.parameters }, true)
  | 't' => return ({ a with isTailCall := (fr?.map (·.tail)).getD false }, true)
  | 'n' =>
    let naming ← match frame? with
      | some i => callName t i
      | none => pure none
    match naming with
    | some (k, n) => return ({ a with nameWhat := some k.word.toUTF8, name := some n }, true)
    | none => return ({ a with nameWhat := some ByteArray.empty, name := none }, true)
  | 'r' =>
    return ({ a with
      transferFirst := (fr?.map (·.transferFirst)).getD 0
      transferCount := (fr?.map (·.transferCount)).getD 0 }, true)
  | 'L' | 'f' => return (a, true)
  | _ => return (a, false)

def fillOptions (t : ThreadId) (f : Value) (frame? : Option Nat) (a : Activation) (ok : Bool) :
    List UInt8 → M (Activation × Bool)
  | [] => return (a, ok)
  | c :: cs => do
    let (a, known) ← fillOption t f frame? c a
    fillOptions t f frame? a (ok && known) cs

/-- The lines of a script function that have code, as a table from lines to `true`. -/
def activeLines (p : Prototype) : Table :=
  let n := if p.lineSteps.isEmpty then 0 else p.code.size
  let first := if p.isVararg then 1 else 0
  (List.range n).foldl
    (fun tb pc => if pc < first then tb else tb.setInt (Int64.ofInt (p.lineOf pc)) (.bool true))
    {}

/-- Fills a record; the options `f` and `L` push the function and its lines. -/
def getInfo (t : ThreadId) (options : Bytes) (a : Activation) : M (Activation × Bool) := do
  let ofFunction := options.byte? 0 == some 62
  let f ← if ofFunction then pop t else do
    let th ← thread t
    pure (th.slot (th.frames.getD a.frameIndex default).func)
  let options := if ofFunction then options.extract 1 options.size else options
  let frame? := if ofFunction then none else some a.frameIndex
  let letters := options.data.toList
  let r ← fillOptions t f frame? a true letters
  if letters.contains 102 then push t f
  if letters.contains 76 then
    match ← functionShape f with
    | .native _ => push t .nil
    | .script p => push t (.table (← newTable (activeLines p)))
  return r

/-- The record of the call at a level, with the given options filled in. -/
def activationAt (t : ThreadId) (level : Int) (options : String) : M (Option Activation) := do
  match ← frameAtLevel t level with
  | none => return none
  | some i =>
    let (a, _) ← getInfo t options.toUTF8 { frameIndex := i }
    return some a

/-! ## Positions in messages -/

/-- The source and line where the call at a level stands, as a beginning for messages. -/
def positionAt (t : ThreadId) (level : Int) : M Bytes := do
  match ← activationAt t level "Sl" with
  | some a =>
    if a.currentLine > 0 then
      return a.shortSource ++ (":" ++ toString a.currentLine ++ ": ").toUTF8
    else return ByteArray.empty
  | none => return ByteArray.empty

/-- Raises an error of a native function: a message behind the position of its caller. -/
def nativeError {α : Type} (t : ThreadId) (msg : Bytes) : M α := do
  let position ← positionAt t 1
  raiseValue t (.str (position ++ msg))

def nativeErrorText {α : Type} (t : ThreadId) (msg : String) : M α := nativeError t msg.toUTF8

/-! ## Names of library functions -/

/-- The entries of a table with string keys. -/
def stringEntries (i : TableId) : M (List (Bytes × Value)) := do
  return (← table i).entries.filterMap fun
    | (.str s, v) => some (s, v)
    | _ => none

/-- Searches a table for a function: the name of the field that holds it. -/
def fieldOf (f : Value) (i : TableId) : M (Option Bytes) := do
  return ((← stringEntries i).find? fun e => e.2.rawEq f).map (·.1)

/-- Searches the loaded modules for a function: `module.field`. -/
def fieldInModules (f : Value) : List (Bytes × Value) → M (Option Bytes)
  | [] => return none
  | (name, m) :: rest => do
    if m.rawEq f then return some name
    match m with
    | .table i =>
      match ← fieldOf f i with
      | some field => return some (name ++ ".".toUTF8 ++ field)
      | none => fieldInModules f rest
    | _ => fieldInModules f rest

/-- The name under which a function can be reached from the loaded modules; globals have theirs
alone. -/
def moduleName (f : Value) : M (Option Bytes) := do
  match ← registryValue (.ofText "_LOADED") with
  | .table i =>
    match ← fieldInModules f (← stringEntries i) with
    | some n =>
      if n.startsWith "_G.".toUTF8 then return some (n.extract 3 n.size) else return some n
    | none => return none
  | _ => return none

/-! ## Errors about arguments -/

/-- Raises the error that an argument of the running native function is bad. -/
def argumentError {α : Type} (t : ThreadId) (arg : Int) (extra : Bytes) : M α := do
  match ← activationAt t 0 "n" with
  | none =>
    nativeError t (("bad argument #" ++ toString arg ++ " (").toUTF8 ++ extra ++ ")".toUTF8)
  | some a =>
    let isMethod := a.nameWhat == some "method".toUTF8
    let arg := if isMethod then arg - 1 else arg
    if isMethod && arg == 0 then
      nativeError t ("calling '".toUTF8 ++ a.name.getD "?".toUTF8 ++ "' on bad self (".toUTF8
        ++ extra ++ ")".toUTF8)
    else
      let name ← match a.name with
        | some n => pure n
        | none => do
          let f ← slot t (← frame t).func
          pure ((← moduleName f).getD "?".toUTF8)
      nativeError t (("bad argument #" ++ toString arg ++ " to '").toUTF8 ++ name ++ "' (".toUTF8
        ++ extra ++ ")".toUTF8)

def argumentErrorText {α : Type} (t : ThreadId) (arg : Int) (extra : String) : M α :=
  argumentError t arg extra.toUTF8

/-- The word for an argument's type in messages. -/
def argumentTypeWord (t : ThreadId) (arg : Int) : M Bytes := do
  match ← value? t arg with
  | none => return "no value".toUTF8
  | some v =>
    match ← metaField v "__name".toUTF8 with
    | .str s => return s
    | _ =>
      match v with
      | .light _ => return "light userdata".toUTF8
      | v => return v.kind.name.toUTF8

/-- Raises the error that an argument has the wrong type. -/
def argumentTypeError {α : Type} (t : ThreadId) (arg : Int) (expected : Bytes) : M α := do
  let word ← argumentTypeWord t arg
  argumentError t arg (expected ++ " expected, got ".toUTF8 ++ word)

/-! ## Tracebacks -/

/-- How many calls a traceback shows at its beginning, and at its end. -/
def shownFirst : Nat := 10
def shownLast : Nat := 11

/-- The words for a function in a traceback. -/
def functionWords (t : ThreadId) (a : Activation) : M Bytes := do
  let th ← thread t
  let f := th.slot (th.frames.getD a.frameIndex default).func
  match ← moduleName f with
  | some n => return "function '".toUTF8 ++ n ++ "'".toUTF8
  | none =>
    match a.nameWhat, a.name with
    | some k, some n =>
      if k.size > 0 then return k ++ " '".toUTF8 ++ n ++ "'".toUTF8
    | _, _ => pure ()
    if a.what == some "main".toUTF8 then return "main chunk".toUTF8
    if a.what != some "C".toUTF8 then
      return "function <".toUTF8 ++ a.shortSource ++ (":" ++ toString a.lineDefined ++ ">").toUTF8
    return "?".toUTF8

/-- The line of a traceback for the call at a level. -/
def tracebackLine (t : ThreadId) (a : Activation) : M Bytes := do
  let place := if a.currentLine ≤ 0 then ": in ".toUTF8
    else (":" ++ toString a.currentLine ++ ": in ").toUTF8
  return "\n\t".toUTF8 ++ a.shortSource ++ place ++ (← functionWords t a)
    ++ (if a.isTailCall then "\n\t(...tail calls...)".toUTF8 else ByteArray.empty)

/-- The lines for calls from a level on.  `left` counts the calls shown before a gap, when there is
to be one; `fuel` bounds the levels. -/
def tracebackLines (t : ThreadId) (last level : Int) (left : Option Nat) (acc : Bytes) :
    Nat → M Bytes
  | 0 => return acc
  | fuel + 1 => do
    match ← activationAt t level "Slnt" with
    | none => return acc
    | some a =>
      match left with
      | some 0 =>
        let skipped := last - (level + 1) - shownLast + 1
        tracebackLines t last (level + 1 + skipped) none
          (acc ++ ("\n\t...\t(skipping " ++ toString skipped ++ " levels)").toUTF8) fuel
      | _ =>
        tracebackLines t last (level + 1) (left.map (· - 1)) (acc ++ (← tracebackLine t a)) fuel

/-- A traceback of a thread from a level on, under a message. -/
def traceback (t : ThreadId) (msg : Option Bytes) (level : Int) : M Bytes := do
  let n := (← thread t).frames.size
  let last : Int := (n : Int) - 2
  let left := if last - level > shownFirst + shownLast then some shownFirst else none
  let head := match msg with
    | some m => m ++ "\n".toUTF8
    | none => ByteArray.empty
  tracebackLines t last level left (head ++ "stack traceback:".toUTF8) (n + 1)

end Machine

end LuaHost
