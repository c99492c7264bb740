import LuaHost.Machine.Stack
import LuaHost.Machine.Event

/-!
# Names for values and functions

Messages name the variable or field that a value came from.  The name is found by walking the code
that led to the register: the last instruction that wrote it, unless a jump makes that uncertain.
-/

namespace LuaHost

/-! ## Names of chunks -/

namespace ChunkName

/-- The longest displayed name of a chunk, with its terminator. -/
def limit : Nat := 60

/-- A chunk's source as messages show it: names after `=` and file names after `@` as they are, cut
to fit; other sources by their first line in quotes. -/
def display (source : Bytes) : Bytes :=
  match source.byte? 0 with
  | some 61 =>
    let s := source.extract 1 source.size
    if s.size < limit then s else s.extract 0 (limit - 1)
  | some 64 =>
    let s := source.extract 1 source.size
    if source.size < limit then s
    else
      let room := limit - 1 - 3
      "...".toUTF8 ++ s.extract (s.size - room) s.size
  | _ =>
    let line := match source.findByte? (· == 10) 0 with
      | some i => source.extract 0 i
      | none => source
    -- fifteen bytes go to the frame: `[string "`, `..."` with `]`, and the terminator
    let room := limit - 15
    let whole := line.size == source.size
    let text :=
      if whole && line.size < room then line
      else (if line.size > room then line.extract 0 room else line) ++ "...".toUTF8
    "[string \"".toUTF8 ++ text ++ "\"]".toUTF8

end ChunkName

/-! ## Names of registers -/

/-- What a name belongs to. -/
inductive NameKind where
  | global | field | method | localVar | upvalue | constant | metamethod | forIterator | hook
deriving DecidableEq, Inhabited

namespace NameKind

def word : NameKind → String
  | global => "global"
  | field => "field"
  | method => "method"
  | localVar => "local"
  | upvalue => "upvalue"
  | constant => "constant"
  | metamethod => "metamethod"
  | forIterator => "for iterator"
  | hook => "hook"

end NameKind

abbrev Naming := NameKind × Bytes

namespace Prototype

def instruction (p : Prototype) (pc : Nat) : Instruction := p.code.getD pc 0

def constant (p : Prototype) (i : Nat) : Value := p.constants.getD i .nil

/-- Whether an instruction changes a register. -/
def changes (i : Instruction) (reg : Nat) : Bool :=
  let a := i.a
  match i.opcode with
  | .loadNil => a ≤ reg && reg ≤ a + i.b
  | .tforCall => a + 2 ≤ reg
  | .call | .tailCall => a ≤ reg
  | .jmp => false
  | o => o.setsA && reg == a

/-- Walks the instructions before `last`, keeping the last change of a register and the farthest
target of the jumps that stay before `last`; a change before that target is uncertain. -/
def findChangeFrom (p : Prototype) (last reg pc : Nat) (found : Option Nat) (target : Nat) :
    Nat → Option Nat
  | 0 => found
  | fuel + 1 =>
    if last ≤ pc then found
    else
      let i := p.instruction pc
      let target :=
        if i.opcode == .jmp then
          let dest := (pc : Int) + 1 + i.sj
          if dest ≤ last && dest > target then dest.toNat else target
        else target
      let found := if changes i reg then (if pc < target then none else some pc) else found
      findChangeFrom p last reg (pc + 1) found target fuel

/-- The instruction that last wrote a register before another one was reached, if that is certain.
An arithmetic instruction whose fallback is running did not write. -/
def findChange (p : Prototype) (last reg : Nat) : Option Nat :=
  let last := if (p.instruction last).opcode.isMetaBinary then last - 1 else last
  findChangeFrom p last reg 0 none 0 (last + 1)

def constantName (p : Prototype) (i : Nat) : Option Naming :=
  match p.constant i with
  | .str s => some (.constant, s)
  | _ => none

/-- A name for a register from locals, upvalues and constants only, and the instruction that the
search ended at; `fuel` bounds the moves followed, each to a lower register. -/
def basicName (p : Prototype) (pc reg : Nat) : Nat → Option Naming × Option Nat
  | 0 => (none, none)
  | fuel + 1 =>
    match p.localName (reg + 1) pc with
    | some n => (some (.localVar, n), some pc)
    | none =>
      match p.findChange pc reg with
      | none => (none, none)
      | some at_ =>
        let i := p.instruction at_
        match i.opcode with
        | .move => if i.b < i.a then basicName p at_ i.b fuel else (none, some at_)
        | .getUpval => (some (.upvalue, p.upvalueName i.b), some at_)
        | .loadK => (p.constantName i.bx, some at_)
        | .loadKX => (p.constantName (p.instruction (at_ + 1)).ax, some at_)
        | _ => (none, some at_)

def unknownName : Bytes := "?".toUTF8

/-- The name of a constant key. -/
def keyName (p : Prototype) (i : Nat) : Bytes :=
  match p.constantName i with
  | some (_, n) => n
  | none => unknownName

/-- The name of a key in a register, when a constant was put there. -/
def registerKeyName (p : Prototype) (pc reg : Nat) : Bytes :=
  match (p.basicName pc reg (reg + 2)).1 with
  | some (.constant, n) => n
  | _ => unknownName

/-- Fields of the environment are global variables. -/
def fieldKind (name : Option Bytes) : NameKind :=
  if name == some "_ENV".toUTF8 then .global else .field

/-- The kind of a field, by the register that the table is in. -/
def fieldKindOf (p : Prototype) (pc reg : Nat) : NameKind :=
  match (p.basicName pc reg (reg + 2)).1 with
  | some (.localVar, n) | some (.upvalue, n) => fieldKind (some n)
  | _ => .field

/-- A name for what is in a register when an instruction runs. -/
def registerName (p : Prototype) (pc reg : Nat) : Option Naming :=
  match p.basicName pc reg (reg + 2) with
  | (some n, _) => some n
  | (none, none) => none
  | (none, some at_) =>
    let i := p.instruction at_
    match i.opcode with
    | .getTabUp => some (fieldKind (some (p.upvalueName i.b)), p.keyName i.c)
    | .getTable => some (p.fieldKindOf at_ i.b, p.registerKeyName at_ i.c)
    | .getI => some (.field, "integer index".toUTF8)
    | .getField => some (p.fieldKindOf at_ i.b, p.keyName i.c)
    | .self =>
      some (.method, if i.k then p.keyName i.c else p.registerKeyName at_ i.c)
    | _ => none

/-- A name for the function that the instruction calls: by its register, or as the metamethod that
the operation uses. -/
def calledName (p : Prototype) (pc : Nat) : Option Naming :=
  let i := p.instruction pc
  let event (e : Event) : Option Naming := some (.metamethod, e.word.toUTF8)
  match i.opcode with
  | .call | .tailCall => p.registerName pc i.a
  | .tforCall => some (.forIterator, "for iterator".toUTF8)
  | .self | .getTabUp | .getTable | .getI | .getField => event .index
  | .setTabUp | .setTable | .setI | .setField => event .newindex
  | .mmBin | .mmBinI | .mmBinK => event (Event.ofCode i.c)
  | .unm => event .unm
  | .bnot => event .bnot
  | .len => event .len
  | .concat => event .concat
  | .eq => event .eq
  | .lt | .ltI | .gtI => event .lt
  | .le | .leI | .geI => event .le
  | .close | .ret => event .close
  | _ => none

end Prototype

/-- Where an operand comes from, for messages about it. -/
inductive Origin where
  /-- A stack slot. -/
  | slot (i : Nat)
  /-- An upvalue of the running function. -/
  | upvalue (i : Nat)
  | unknown
deriving DecidableEq, Inhabited

namespace Frame

def isScript (f : Frame) : Bool :=
  match f.kind with
  | .script .. => true
  | .native => false

/-- The instruction that is running. -/
def currentPc (f : Frame) : Nat := f.pc - 1

/-- The source line that is running; −1 when it is not known. -/
def currentLine (f : Frame) : Int :=
  match f.kind with
  | .script p _ => p.lineOf f.currentPc
  | .native => -1

/-- A name for the function that this call has called. -/
def calledName (f : Frame) : Option Naming :=
  if f.hooked then some (.hook, "?".toUTF8)
  else if f.finalizer then some (.metamethod, "__gc".toUTF8)
  else
    match f.kind with
    | .script p _ => p.calledName f.currentPc
    | .native => none

/-- A name for an operand of the running instruction. -/
def operandName (f : Frame) (o : Origin) : Option Naming :=
  match f.kind, o with
  | .script p _, .upvalue i => some (.upvalue, p.upvalueName i)
  | .script p _, .slot i =>
    if f.func + 1 ≤ i then p.registerName f.currentPc (i - (f.func + 1)) else none
  | _, _ => none

end Frame

/-- A name as messages add it in brackets. -/
def Naming.suffix : Option Naming → Bytes
  | some (k, n) => (" (" ++ k.word ++ " '").toUTF8 ++ n ++ "')".toUTF8
  | none => ByteArray.empty

end LuaHost
