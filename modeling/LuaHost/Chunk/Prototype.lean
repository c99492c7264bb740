import LuaHost.Chunk.Opcode
import LuaHost.Machine.Value

/-!
# Compiled functions

A prototype is the compiled form of a function: code, constants, nested prototypes, what its
upvalues are, and what is known of source lines and names of local variables.
-/

namespace LuaHost

/-- Where a closure finds an upvalue when it is created. -/
structure UpvalueInfo where
  name : Option Bytes
  /-- In the enclosing function's registers, or among its upvalues. -/
  inStack : Bool
  index : Nat
  /-- The kind of the variable: plain, constant, to be closed, or a compile-time constant. -/
  kind : UInt8
deriving Inhabited

/-- A local variable and the instructions between which it is live. -/
structure LocalInfo where
  name : Bytes
  startPc : Nat
  endPc : Nat
deriving Inhabited

structure Prototype where
  parameters : Nat := 0
  isVararg : Bool := false
  maxStack : Nat := 2
  code : Array Instruction := #[]
  constants : Array Value := #[]
  nested : Array Prototype := #[]
  upvalues : Array UpvalueInfo := #[]
  /-- For each instruction, the line as a difference to the one before; −128 marks one whose line is
  in `lineMarks`. -/
  lineSteps : Array Int := #[]
  /-- Pairs of an instruction and its line. -/
  lineMarks : Array (Nat × Nat) := #[]
  locals : Array LocalInfo := #[]
  lineDefined : Nat := 0
  lastLineDefined : Nat := 0
  source : Option Bytes := none

namespace Prototype

instance : Inhabited Prototype := ⟨{}⟩

/-- The difference that stands for "see the line marks". -/
def markedStep : Int := -128

/-- The last line mark at or before an instruction; the function's first line if there is none. -/
def baseLine (p : Prototype) (pc : Nat) : Int × Int :=
  p.lineMarks.foldl
    (fun best m => if m.1 ≤ pc then ((m.1 : Int), (m.2 : Int)) else best)
    (-1, (p.lineDefined : Int))

/-- The source line of an instruction, or −1 when lines are not known. -/
def lineOf (p : Prototype) (pc : Nat) : Int :=
  if p.lineSteps.isEmpty then -1
  else
    let (start, line) := p.baseLine pc
    let first := (start + 1).toNat
    (p.lineSteps.extract first (pc + 1)).foldl (· + ·) line

/-- The name of the `n`-th local variable (from 1) that is live at an instruction. -/
def localName (p : Prototype) (n pc : Nat) : Option Bytes :=
  let live := p.locals.toList.filter fun v => v.startPc ≤ pc && pc < v.endPc
  if n == 0 then none else (live[n - 1]?).map (·.name)

def upvalueName (p : Prototype) (i : Nat) : Bytes :=
  match p.upvalues[i]? with
  | some u => u.name.getD "?".toUTF8
  | none => "?".toUTF8

end Prototype

end LuaHost
