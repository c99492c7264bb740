import LuaHost.Library.Files

/-!
# Open files

A stream is a userdata that refers to a file or to one of the standard streams.  This module holds
what can be done to a stream, apart from how scripts ask for it.
-/

namespace LuaHost.Library

open Machine

/-- The registry name of the metatable of streams. -/
def streamTypeName : String := "FILE*"

def streamOf? (v : Value) : M (Option (UserDataId × Stream)) := do
  match v with
  | .userdata u =>
    match (← userdata u).payload with
    | .stream s => return some (u, s)
    | _ => return none
  | _ => return none

def setStream (u : UserDataId) (s : Stream) : M Unit :=
  modifyUserdata u fun d => { d with payload := .stream s }

/-- A new stream, as a value. -/
def newStream (s : Stream) : M Value := do
  let mt ← registryValue (.ofText streamTypeName)
  let metatable := match mt with
    | .table id => some id
    | _ => none
  let u ← newUserdata { payload := .stream s, metatable }
  match metatable with
  | some mt => noteFinalizer (.userdata u) mt
  | none => pure ()
  return .userdata u

/-! ## Opening -/

/-- How a file is opened. -/
structure OpenMode where
  letter : Char := 'r'
  update : Bool := false
deriving DecidableEq, Inhabited

/-- A mode: one of `r`, `w`, `a`, then perhaps `+`, then perhaps `b`. -/
def OpenMode.read? (s : Bytes) : Option OpenMode :=
  match s.toText.toList with
  | c :: r =>
    if c == 'r' || c == 'w' || c == 'a' then
      let (update, r) := match r with
        | '+' :: r => (true, r)
        | r => (false, r)
      if r == [] || r == ['b'] then some ⟨c, update⟩ else none
    else none
  | [] => none

/-- Opens a file; one that is written is made, and emptied unless it is appended to. -/
def openFile (name : String) (m : OpenMode) : M (Except FileFault Stream) := do
  let o ← outside
  let target : StreamTarget := .file (Outside.plainName name)
  if m.letter == 'r' then
    match o.openRead name with
    | .ok _ => return .ok { target, readable := true, writable := m.update }
    | .error .directory =>
      return if m.update then .error .directory else .ok { target, writable := false }
    | .error e => return .error e
  else if !Outside.canCreate name then return .error (o.absence name)
  else
    let append := m.letter == 'a'
    if !append || (o.file? name).isNone then
      modifyOutside (·.writeFile name ByteArray.empty)
    return .ok { target, readable := m.update, writable := true, append }

/-! ## Reading -/

/-- All that a stream holds, and the position in it; of the standard input, what is left. -/
def streamContent (s : Stream) : M (Bytes × Nat) := do
  let o ← outside
  match s.target with
  | .stdin => return (o.unread, 0)
  | .file name => return ((o.file? name).getD ByteArray.empty, s.position)
  | .stdout | .stderr => return (ByteArray.empty, 0)

def moveStream (u : UserDataId) (s : Stream) (position : Nat) : M Unit := do
  match s.target with
  | .stdin => modifyOutside (·.useUp position)
  | .file _ => setStream u { s with position }
  | .stdout | .stderr => return ()

/-- The next line, perhaps with its end, and the position behind it. -/
def nextLine (b : Bytes) (i : Nat) (keepEnd : Bool) : Option (Bytes × Nat) :=
  if i ≥ b.size then none
  else
    match b.findByte? (· == 10) i with
    | some e => some (b.extract i (if keepEnd then e + 1 else e), e + 1)
    | none => some (b.extract i b.size, b.size)

/-- A place in the bytes of a numeral, and what has been taken. -/
structure NumeralScan where
  position : Nat
  taken : Bytes := ByteArray.empty

/-- Takes one of some bytes. -/
def NumeralScan.oneOf (b : Bytes) (set : List Char) (s : NumeralScan) : Bool × NumeralScan :=
  if s.position < b.size && (set.any fun c => c.toNat == (b.byteAt s.position).toNat) then
    (true, ⟨s.position + 1, s.taken.push (b.byteAt s.position)⟩)
  else (false, s)

/-- Takes digits: how many. -/
def NumeralScan.digits (b : Bytes) (hex : Bool) (s : NumeralScan) : Nat × NumeralScan :=
  let isDigit := if hex then Ascii.isHexDigit else Ascii.isDigit
  let stop := (b.findByte? (fun c => !isDigit c) s.position).getD b.size
  (stop - s.position, ⟨stop, s.taken ++ b.extract s.position stop⟩)

/-- The longest numeral that is read from a stream. -/
def longestNumeral : Nat := 200

/-- The numeral at a position, after blanks: the number, if there is one, and the position behind
what was taken. -/
def nextNumber (b : Bytes) (i : Nat) : Option Number × Nat :=
  let start := (b.findByte? (fun c => !Ascii.isSpace c) i).getD b.size
  let (_, s) := NumeralScan.oneOf b ['-', '+'] ⟨start, ByteArray.empty⟩
  let (zero, s) := s.oneOf b ['0']
  let (hex, s) := if zero then s.oneOf b ['x', 'X'] else (false, s)
  let (n, s) := s.digits b hex
  let (point, s) := s.oneOf b ['.']
  let (m, s) := if point then s.digits b hex else (0, s)
  let count := (if zero && !hex then 1 else 0) + n + m
  let (mark, s) := if count > 0 then s.oneOf b (if hex then ['p', 'P'] else ['e', 'E'])
    else (false, s)
  let s := if mark then ((s.oneOf b ['-', '+']).2.digits b false).2 else s
  if s.taken.size > longestNumeral then (none, start + longestNumeral)
  else (Number.read s.taken, s.position)

/-! ## Writing -/

/-- A text with a part replaced from a position on; a gap before it is filled with NUL. -/
def overwrite (b : Bytes) (i : Nat) (s : Bytes) : Bytes :=
  let head := b.extract 0 i
  head ++ Bytes.replicate (Bytes.singleton 0) (i - head.size) ++ s
    ++ b.extract (i + s.size) b.size

/-- Writes to a stream. -/
def writeStream (u : UserDataId) (s : Bytes) : M (Except FileFault Unit) := do
  match ← streamOf? (.userdata u) with
  | none => return .error .badStream
  | some (_, st) =>
    match st.target with
    | .stdin => return .error .badStream
    | .stdout =>
      writeOutput s
      return .ok ()
    | .stderr =>
      modifyOutside (·.writeErrors s)
      return .ok ()
    | .file name =>
      if !st.writable then return .error .badStream
      let b := ((← outside).file? name).getD ByteArray.empty
      let i := if st.append then b.size else st.position
      modifyOutside (·.writeFile name (overwrite b i s))
      setStream u { st with position := i + s.size }
      return .ok ()

end LuaHost.Library
