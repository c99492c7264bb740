import LuaHost.Library.Streams

/-!
# Input and output functions

Functions on streams, and on the default input and output, which the registry keeps.
-/

namespace LuaHost.Library

open Machine

/-! ## Streams as arguments -/

/-- An argument that is a stream, open or not. -/
def checkStream (t : ThreadId) (i : Int) : M (UserDataId × Stream) := do
  let v ← value t i
  match ← streamOf? v with
  | some s => return s
  | none => argumentTypeError t i streamTypeName.toUTF8

/-- The first argument, which must be an open stream. -/
def openStream (t : ThreadId) : M (UserDataId × Stream) := do
  let (u, s) ← checkStream t 1
  if s.closed then nativeErrorText t "attempt to use a closed file"
  return (u, s)

inductive DefaultStream where
  | input | output
deriving DecidableEq, Inhabited

def DefaultStream.word : DefaultStream → String
  | input => "input"
  | output => "output"

def DefaultStream.place (d : DefaultStream) : Value := .ofText ("_IO_" ++ d.word)

/-- The default stream, which must be open. -/
def defaultStream (t : ThreadId) (d : DefaultStream) : M (UserDataId × Stream) := do
  match ← streamOf? (← registryValue d.place) with
  | some (u, s) =>
    if s.closed then nativeErrorText t ("default " ++ d.word ++ " file is closed")
    return (u, s)
  | none => nativeErrorText t ("default " ++ d.word ++ " file is closed")

/-- The answer of an operation: true, or a failure with its message. -/
def outcome (t : ThreadId) (r : Except FileFault Unit) (name : Option Bytes) : M Nat := do
  match r with
  | .ok () =>
    pushBool t true
    return 1
  | .error e =>
    pushFailure t
    match name with
    | some n => pushBytes t (n ++ (": " ++ e.message).toUTF8)
    | none => pushText t e.message
    pushInt t e.code
    return 3

/-- Opens a file or raises an error. -/
def openOrRaise (t : ThreadId) (name : Bytes) (m : OpenMode) : M Value := do
  match ← openFile name.toText m with
  | .ok s => newStream s
  | .error e =>
    nativeError t ("cannot open file '".toUTF8 ++ name ++ ("' (" ++ e.message ++ ")").toUTF8)

/-! ## Opening and closing -/

def ioOpen (t : ThreadId) : M Nat := do
  let name := (← checkString t 1).untilNul
  let mode ← optString t 2 "r".toUTF8
  match OpenMode.read? mode.untilNul with
  | none => argumentErrorText t 2 "invalid mode"
  | some m =>
    match ← openFile name.toText m with
    | .ok s =>
      push t (← newStream s)
      return 1
    | .error e => outcome t (.error e) (some name)

/-- Closes a stream; the standard ones stay open. -/
def closeStream (t : ThreadId) (u : UserDataId) (s : Stream) : M Nat := do
  if s.standard then
    pushFailure t
    pushText t "cannot close standard file"
    return 2
  setStream u { s with closed := true }
  pushBool t true
  return 1

def fileClose (t : ThreadId) : M Nat := do
  let (u, s) ← openStream t
  closeStream t u s

def ioClose (t : ThreadId) : M Nat := do
  if ← isNone t 1 then push t (← registryValue DefaultStream.output.place)
  fileClose t

def fileGc (t : ThreadId) : M Nat := do
  let (u, s) ← checkStream t 1
  if !s.closed then
    let _ ← closeStream t u s
  return 0

def ioPopen (t : ThreadId) : M Nat := do
  let _ ← checkString t 1
  let mode ← optString t 2 "r".toUTF8
  argumentCheck t (mode == "r".toUTF8 || mode == "w".toUTF8) 2 "invalid mode"
  nativeErrorText t "'popen' not supported"

/-- The name of temporary files, which no path denotes. -/
def temporaryName : String := "/tmp"

def ioTmpfile (t : ThreadId) : M Nat := do
  let n := (← get).heap.userdata.next
  let target : StreamTarget := .file (temporaryName ++ "/" ++ toString n)
  push t (← newStream { target, readable := true, writable := true })
  return 1

def ioType (t : ThreadId) : M Nat := do
  checkAny t 1
  match ← streamOf? (← value t 1) with
  | none => pushFailure t
  | some (_, s) => pushText t (if s.closed then "closed file" else "file")
  return 1

def fileToString (t : ThreadId) : M Nat := do
  let (u, s) ← checkStream t 1
  if s.closed then pushText t "file (closed)"
  else pushText t ("file (" ++ Value.addressText (Value.userdata u).address ++ ")")
  return 1

/-- Sets or answers the default input or output. -/
def ioDefault (d : DefaultStream) (mode : OpenMode) (t : ThreadId) : M Nat := do
  if !(← isNoneOrNil t 1) then
    let v ← match ← toBytesAt t 1 with
      | some name => openOrRaise t name.untilNul mode
      | none => do
        let (u, _) ← openStream t
        pure (.userdata u)
    setRegistryValue d.place v
  push t (← registryValue d.place)
  return 1

/-! ## Reading -/

inductive ReadFormat where
  | number | line | lineWithEnd | rest
  | bytes (n : Nat)
deriving DecidableEq, Inhabited

/-- Reads by one format: the value, or `nil`. -/
def readOne (u : UserDataId) (f : ReadFormat) : M Value := do
  match ← streamOf? (.userdata u) with
  | none => return .nil
  | some (_, s) =>
    let (b, i) ← streamContent s
    match f with
    | .number =>
      let (n?, j) := nextNumber b i
      moveStream u s j
      return match n? with
        | some n => .ofNumber n
        | none => .nil
    | .line | .lineWithEnd =>
      match nextLine b i (f == .lineWithEnd) with
      | some (l, j) =>
        moveStream u s j
        return .str l
      | none => return .nil
    | .rest =>
      moveStream u s (max i b.size)
      return .str (b.extract i b.size)
    | .bytes n =>
      if i ≥ b.size then return .nil
      moveStream u s (min (i + n) b.size)
      return .str (b.extract i (i + n))

/-- The format that an argument asks for. -/
def readFormat (t : ThreadId) (i : Int) : M ReadFormat := do
  if (← kindAt t i) == .number then return .bytes (← checkInteger t i).toUInt64.toNat
  let s ← checkString t i
  let c := if s.byte? 0 == some 42 then s.byteAt 1 else s.byteAt 0
  match Char.ofNat c.toNat with
  | 'n' => return .number
  | 'l' => return .line
  | 'L' => return .lineWithEnd
  | 'a' => return .rest
  | _ => argumentErrorText t i "invalid format"

/-- Reads by formats from argument `i` on until one fails; how many values were pushed. -/
def readFormats (t : ThreadId) (u : UserDataId) (i : Int) (done : Nat) : Nat → M Nat
  | 0 => return done
  | n + 1 => do
    let v ← readOne u (← readFormat t i)
    push t v
    if v.isNil then return done + 1 else readFormats t u (i + 1) (done + 1) n

/-- Reads by the arguments from `first` on. -/
def readArguments (t : ThreadId) (u : UserDataId) (first : Nat) : M Nat := do
  let nargs := (← count t) - (first - 1)
  match ← streamOf? (.userdata u) with
  | some (_, s) =>
    if !s.readable then return ← outcome t (.error .badStream) none
    if s.target == .stdout || s.target == .stderr then return ← outcome t (.error .badStream) none
    if let .file name := s.target then
      if Outside.isDirectory name then return ← outcome t (.error .directory) none
  | none => pure ()
  if nargs == 0 then
    push t (← readOne u .line)
    return 1
  needRoom t (nargs + minStack) "too many arguments"
  readFormats t u first 0 nargs

def ioRead (t : ThreadId) : M Nat := do
  let (u, _) ← defaultStream t .input
  readArguments t u 1

def fileRead (t : ThreadId) : M Nat := do
  let (u, _) ← openStream t
  readArguments t u 2

/-! ## Lines -/

/-- The most formats that an iteration over lines takes. -/
def maxLineFormats : Nat := 250

/-- Pushes the function that iterates over a stream; `toClose` says that it closes the stream at the
end. -/
def pushLines (t : ThreadId) (toClose : Bool) : M Unit := do
  let n := (← count t) - 1
  argumentCheck t (n ≤ maxLineFormats) (maxLineFormats + 2 : Nat) "too many arguments"
  let formats := (← thread t).values.drop 1
  let ups := (← value t 1) :: .ofNat n :: .bool toClose :: formats
  push t (.closure (← newClosure (.native (.io .linesStep) ups.toArray)))

def linesStep (t : ThreadId) : M Nat := do
  match ← streamOf? (← value t (upvalueIndex 1)) with
  | none => return 0
  | some (u, s) =>
    let n := ((← value t (upvalueIndex 2)).toInt64?.getD 0).toInt.toNat
    if s.closed then nativeErrorText t "file is already closed"
    setHeight t 1
    needRoom t n "too many arguments"
    (List.range n).forM fun k => do push t (← value t (upvalueIndex (k + 4 : Nat)))
    let r ← readArguments t u 2
    if (← value t (-(r : Int))).isTrue then return r
    if r > 1 then
      let msg := (← value t (-(r : Int) + 1)).toBytes?.getD ByteArray.empty
      nativeError t msg
    if (← value t (upvalueIndex 3)).isTrue then
      setHeight t 0
      let _ ← closeStream t u s
    return 0

def fileLines (t : ThreadId) : M Nat := do
  let _ ← openStream t
  pushLines t false
  return 1

def ioLines (t : ThreadId) : M Nat := do
  if ← isNone t 1 then push t .nil
  if (← value t 1).isNil then
    let v ← registryValue DefaultStream.input.place
    store t v (← place t 1)
    let _ ← openStream t
    pushLines t false
    return 1
  let name := (← checkString t 1).untilNul
  let v ← openOrRaise t name {}
  store t v (← place t 1)
  pushLines t true
  push t .nil
  push t .nil
  pushValue t 1
  return 4

/-! ## Writing and positions -/

/-- Writes the arguments from `i` on; the stream itself is the answer. -/
def writeArguments (t : ThreadId) (u : UserDataId) (i : Int) (r : Except FileFault Unit) :
    Nat → M Nat
  | 0 => do
    match r with
    | .ok () =>
      push t (.userdata u)
      return 1
    | .error e => outcome t (.error e) none
  | n + 1 => do
    let s ← match ← value t i with
      | .float x => pure (Directive.double { precision := some 14 } 'g' false x).toUTF8
      | _ => checkString t i
    let r' ← writeStream u s
    writeArguments t u (i + 1) (r.bind fun _ => r') n

def ioWrite (t : ThreadId) : M Nat := do
  let (u, _) ← defaultStream t .output
  writeArguments t u 1 (.ok ()) (← count t)

def fileWrite (t : ThreadId) : M Nat := do
  let (u, _) ← openStream t
  writeArguments t u 2 (.ok ()) ((← count t) - 1)

def fileSeek (t : ThreadId) : M Nat := do
  let (u, s) ← openStream t
  let whence ← checkOption t 2 (some "cur") ["set", "cur", "end"]
  let offset ← optInt t 3 0
  if s.standard then return ← outcome t (.error .noPosition) none
  let (b, i) ← streamContent s
  let from_ : Nat := if whence == 0 then 0 else if whence == 1 then i else b.size
  let target := (from_ : Int) + offset
  if target < 0 then outcome t (.error .invalid) none
  else
    moveStream u s target.toNat
    pushInt t target
    return 1

def fileSetvbuf (t : ThreadId) : M Nat := do
  let (_, s) ← openStream t
  let mode ← checkOption t 2 none ["no", "full", "line"]
  let _ ← optInt t 3 1024
  if s.target == .stdout then
    modifyOutside (·.setBuffering (if mode == 0 then .none else if mode == 1 then .full else .line))
  pushBool t true
  return 1

def flushStream (t : ThreadId) (s : Stream) : M Nat := do
  if s.target == .stdout then flushOutput
  pushBool t true
  return 1

def ioFlush (t : ThreadId) : M Nat := do
  let (_, s) ← defaultStream t .output
  flushStream t s

def fileFlush (t : ThreadId) : M Nat := do
  let (_, s) ← openStream t
  flushStream t s

def io : IoFn → ThreadId → M Nat
  | .close => ioClose
  | .flush => ioFlush
  | .input => ioDefault .input {}
  | .lines => ioLines
  | .linesStep => linesStep
  | .open => ioOpen
  | .output => ioDefault .output { letter := 'w' }
  | .popen => ioPopen
  | .read => ioRead
  | .tmpfile => ioTmpfile
  | .type => ioType
  | .write => ioWrite
  | .fileClose => fileClose
  | .fileFlush => fileFlush
  | .fileGc => fileGc
  | .fileLines => fileLines
  | .fileRead => fileRead
  | .fileSeek => fileSeek
  | .fileSetvbuf => fileSetvbuf
  | .fileToString => fileToString
  | .fileWrite => fileWrite

end LuaHost.Library
