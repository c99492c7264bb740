import LuaHost.Chunk.Prototype

/-!
# The binary form of a chunk

A compiled chunk can be written as bytes and read back.  It begins with a header that tells the
version and the sizes of numbers; sizes are written in groups of seven bits, most significant first,
and the last group is marked.
-/

namespace LuaHost

namespace Binary

/-! ## Writing -/

def wordBytes (n : Nat) (width : Nat) : List UInt8 :=
  (List.range width).map fun i => (n >>> (8 * i)).toUInt8

def sizeGroups (n : Nat) : Nat → List UInt8 → List UInt8
  | 0, acc => acc
  | fuel + 1, acc =>
    if n < 128 then n.toUInt8 :: acc else sizeGroups (n / 128) fuel ((n % 128).toUInt8 :: acc)

/-- A size: its last group carries a mark. -/
def sizeBytes (n : Nat) : List UInt8 :=
  match (sizeGroups n (n.log2 + 1) []).reverse with
  | last :: rest => ((last ||| 0x80) :: rest).reverse
  | [] => []

def bytesOf (l : List UInt8) : Bytes := Bytes.ofList l

def size (n : Nat) : Bytes := bytesOf (sizeBytes n)

def byte (n : Nat) : Bytes := Bytes.singleton n.toUInt8

/-- A string with its size plus one in front; an absent one has size zero. -/
def string : Option Bytes → Bytes
  | none => size 0
  | some s => size (s.size + 1) ++ s

def concat (l : List Bytes) : Bytes := l.foldl (· ++ ·) ByteArray.empty

def counted (l : List Bytes) : Bytes := size l.length ++ concat l

def signature : Bytes := bytesOf [0x1b, 0x4c, 0x75, 0x61]

def checkData : Bytes := bytesOf [0x19, 0x93, 0x0d, 0x0a, 0x1a, 0x0a]

def version : Nat := 0x54

def checkInt : Nat := 0x5678

/-- The bits of 370.5. -/
def checkDouble : Nat := 0x4077280000000000

def header : Bytes :=
  signature ++ byte version ++ byte 0 ++ checkData ++ byte 4 ++ byte 8 ++ byte 8
    ++ bytesOf (wordBytes checkInt 8) ++ bytesOf (wordBytes checkDouble 8)

def constant : Value → Bytes
  | .bool false => byte 0x01
  | .bool true => byte 0x11
  | .int i => byte 0x03 ++ bytesOf (wordBytes i.toUInt64.toNat 8)
  | .float x => byte 0x13 ++ bytesOf (wordBytes x.bits.toNat 8)
  | .str s => byte (if s.size ≤ 40 then 0x04 else 0x14) ++ string (some s)
  | _ => byte 0x00

def stepByte (d : Int) : Bytes := Bytes.singleton (d % 256).toNat.toUInt8

mutual

/-- A function; `outer` is the source of the enclosing one, which need not be repeated. -/
def function (strip : Bool) (outer : Option Bytes) : Prototype → Bytes
  | .mk parameters isVararg maxStack code constants nested upvalues lineSteps lineMarks locals
      lineDefined lastLineDefined source =>
    let debug : List Bytes := if strip then [size 0, size 0, size 0, size 0] else
      [size lineSteps.size, concat (lineSteps.toList.map stepByte),
        counted (lineMarks.toList.map fun m => size m.1 ++ size m.2),
        counted (locals.toList.map fun v =>
          string (some v.name) ++ size v.startPc ++ size v.endPc),
        counted (upvalues.toList.map fun u => string u.name)]
    concat
      ([string (if strip || source == outer then none else source), size lineDefined,
        size lastLineDefined, byte parameters, byte (if isVararg then 1 else 0), byte maxStack,
        counted (code.toList.map fun i => bytesOf (wordBytes i.toNat 4)),
        counted (constants.toList.map constant),
        counted (upvalues.toList.map fun u =>
          byte (if u.inStack then 1 else 0) ++ byte u.index ++ byte u.kind.toNat),
        size nested.size, functions strip source nested.toList] ++ debug)

def functions (strip : Bool) (outer : Option Bytes) : List Prototype → Bytes
  | [] => ByteArray.empty
  | p :: ps => function strip outer p ++ functions strip outer ps

end

/-- A chunk as bytes; stripping leaves out what only serves messages. -/
def write (strip : Bool) (p : Prototype) : Bytes :=
  header ++ byte p.upvalues.size ++ function strip none p

/-! ## Reading -/

/-- What is left of the bytes; an error is a reason. -/
abbrev Read := StateT Nat (ReaderT Bytes (Except String))

namespace Read

def next : Read UInt8 := do
  let i ← get
  match (← read).byte? i with
  | some c =>
    set (i + 1)
    return c
  | none => throw "truncated chunk"

def take (n : Nat) : Read Bytes := do
  let i ← get
  let b ← read
  if i + n ≤ b.size then
    set (i + n)
    return b.extract i (i + n)
  else throw "truncated chunk"

/-- A word of `width` bytes, least significant first. -/
def word (width : Nat) : Read Nat := do
  let b ← take width
  return b.data.foldr (fun c n => n * 256 + c.toNat) 0

def sizeLoop (limit acc : Nat) : Nat → Read Nat
  | 0 => throw "integer overflow"
  | fuel + 1 => do
    let c ← next
    if acc ≥ limit then throw "integer overflow"
    let acc := acc * 128 + (c &&& 0x7f).toNat
    if c &&& 0x80 != 0 then return acc else sizeLoop limit acc fuel

/-- A size below a limit. -/
def size (limit : Nat) : Read Nat := sizeLoop (limit / 128) 0 10

def int : Read Nat := size 0x7fffffff

def string? : Read (Option Bytes) := do
  match ← size 0xffffffffffffffff with
  | 0 => return none
  | n + 1 => return some (← take n)

/-- `n` items one after the other. -/
def many {α : Type} (x : Read α) (acc : Array α) : Nat → Read (Array α)
  | 0 => return acc
  | n + 1 => do many x (acc.push (← x)) n

def counted {α : Type} (x : Read α) : Read (Array α) := do many x #[] (← int)

def constant : Read Value := do
  match (← next).toNat with
  | 0x01 => return .bool false
  | 0x11 => return .bool true
  | 0x03 => return .int (← word 8).toUInt64.toInt64
  | 0x13 => return .float ⟨(← word 8).toUInt64⟩
  | 0x04 | 0x14 =>
    match ← string? with
    | some s => return .str s
    | none => throw "bad format for constant string"
  | _ => return .nil

def stepOf (c : UInt8) : Int := Int.bmod c.toNat 256

/-- A function; `fuel` bounds the nesting. -/
def function (outer : Option Bytes) : Nat → Read Prototype
  | 0 => throw "truncated chunk"
  | fuel + 1 => do
    let source := (← string?) <|> outer
    let lineDefined ← int
    let lastLineDefined ← int
    let parameters := (← next).toNat
    let isVararg := (← next) != 0
    let maxStack := (← next).toNat
    let code ← counted (do return (← word 4).toUInt32)
    let constants ← counted constant
    let upvalues ← counted do
      let inStack := (← next) != 0
      let index := (← next).toNat
      let kind ← next
      return ({ name := none, inStack, index, kind } : UpvalueInfo)
    let nested ← counted (function source fuel)
    let lineSteps := (← take (← int)).data.map stepOf
    let lineMarks ← counted (do return (← int, ← int))
    let locals ← counted do
      let name := (← string?).getD ByteArray.empty
      let startPc ← int
      let endPc ← int
      return ({ name, startPc, endPc } : LocalInfo)
    let names ← if (← int) == 0 then pure #[] else many string? #[] upvalues.size
    let upvalues := upvalues.mapIdx fun i u => { u with name := names.getD i none }
    return {
      parameters, isVararg, maxStack, code, constants, nested, upvalues, lineSteps, lineMarks,
      locals, lineDefined, lastLineDefined, source }

def expect (b : Bytes) (why : String) : Read Unit := do
  if (← take b.size) != b then throw why

def expectByte (n : Nat) (why : String) : Read Unit := do
  if (← next).toNat != n then throw why

def header : Read Unit := do
  expect signature "not a binary chunk"
  expectByte version "version mismatch"
  expectByte 0 "format mismatch"
  expect checkData "corrupted chunk"
  expectByte 4 "Instruction size mismatch"
  expectByte 8 "lua_Integer size mismatch"
  expectByte 8 "lua_Number size mismatch"
  if (← word 8) != checkInt then throw "integer format mismatch"
  if (← word 8) != checkDouble then throw "float format mismatch"

end Read

/-- The chunk that bytes hold. -/
def read (b : Bytes) : Except String Prototype :=
  let all : Read Prototype := do
    Read.header
    let _ ← Read.next
    Read.function none b.size
  ((all.run 0).run b).map (·.1)

end Binary
end LuaHost
