/-!
# Instructions

An instruction is one 32-bit word: an opcode of seven bits and, from low to high, one of the layouts

* `A` (8 bits), `k` (1 bit), `B` (8 bits), `C` (8 bits);
* `A` (8 bits), `Bx` (17 bits), signed or not;
* `Ax` (25 bits), or `sJ`, the same bits signed.

Signed arguments are stored with an excess.
-/

namespace LuaHost

/-- The operations of the instruction set, in the order of their codes. -/
inductive Opcode where
  | move | loadInt | loadFloat | loadK | loadKX | loadFalse | loadFalseSkip | loadTrue
  | loadNil | getUpval | setUpval | getTabUp | getTable | getI | getField | setTabUp
  | setTable | setI | setField | newTable | self | addI | addK | subK | mulK | modK | powK
  | divK | idivK | bandK | borK | bxorK | shrI | shlI | add | sub | mul | mod | pow | div
  | idiv | band | bor | bxor | shl | shr | mmBin | mmBinI | mmBinK | unm | bnot | not | len
  | concat | close | tbc | jmp | eq | lt | le | eqK | eqI | ltI | leI | gtI | geI | test
  | testSet | call | tailCall | ret | ret0 | ret1 | forLoop | forPrep | tforPrep | tforCall
  | tforLoop | setList | closure | vararg | varargPrep | extraArg
deriving DecidableEq, Inhabited

namespace Opcode

/-- All operations by code. -/
def table : Array Opcode :=
  #[.move, .loadInt, .loadFloat, .loadK, .loadKX, .loadFalse, .loadFalseSkip, .loadTrue,
    .loadNil, .getUpval, .setUpval, .getTabUp, .getTable, .getI, .getField, .setTabUp,
    .setTable, .setI, .setField, .newTable, .self, .addI, .addK, .subK, .mulK, .modK, .powK,
    .divK, .idivK, .bandK, .borK, .bxorK, .shrI, .shlI, .add, .sub, .mul, .mod, .pow, .div,
    .idiv, .band, .bor, .bxor, .shl, .shr, .mmBin, .mmBinI, .mmBinK, .unm, .bnot, .not, .len,
    .concat, .close, .tbc, .jmp, .eq, .lt, .le, .eqK, .eqI, .ltI, .leI, .gtI, .geI, .test,
    .testSet, .call, .tailCall, .ret, .ret0, .ret1, .forLoop, .forPrep, .tforPrep, .tforCall,
    .tforLoop, .setList, .closure, .vararg, .varargPrep, .extraArg]

/-- The operation with a code; codes past the last one stand for the extra argument. -/
def ofCode (n : Nat) : Opcode := table.getD n .extraArg

def code (o : Opcode) : UInt32 := o.ctorIdx.toUInt32

/-- Whether the operation is a test, so that the next instruction is a jump. -/
def isTest : Opcode → Bool
  | eq | lt | le | eqK | eqI | ltI | leI | gtI | geI | test | testSet => true
  | _ => false

/-- Whether the operation writes register `A`. -/
def setsA : Opcode → Bool
  | setUpval | setTabUp | setTable | setI | setField | mmBin | mmBinI | mmBinK | close | tbc | jmp
  | eq | lt | le | eqK | eqI | ltI | leI | gtI | geI | test | ret | ret0 | ret1 | tforPrep
  | tforCall | setList | extraArg => false
  | _ => true

/-- Whether the operation calls a metamethod for the arithmetic instruction before it. -/
def isMetaBinary : Opcode → Bool
  | mmBin | mmBinI | mmBinK => true
  | _ => false

end Opcode

/-- A machine instruction. -/
abbrev Instruction := UInt32

/-- The bits of a word from a position on, cut by a mask. -/
def wordField (w : UInt32) (shift mask : UInt32) : Nat := ((w >>> shift) &&& mask).toNat

/-- Replaces the bits that `keep` leaves out. -/
def setWordField (w keep : UInt32) (shift : UInt32) (v : Nat) : UInt32 :=
  (w &&& keep) ||| (v.toUInt32 <<< shift)

namespace Instruction

def opcode (i : Instruction) : Opcode := Opcode.ofCode (wordField i 0 0x7f)

def a (i : Instruction) : Nat := wordField i 7 0xff
def k (i : Instruction) : Bool := wordField i 15 1 == 1
def b (i : Instruction) : Nat := wordField i 16 0xff
def c (i : Instruction) : Nat := wordField i 24 0xff
def bx (i : Instruction) : Nat := wordField i 15 0x1ffff
def ax (i : Instruction) : Nat := wordField i 7 0x1ffffff

/-- The excess of the one-byte signed arguments. -/
def byteExcess : Int := 127

/-- The excess of a signed `Bx`. -/
def bxExcess : Int := 65535

/-- The excess of a jump distance. -/
def jumpExcess : Int := 16777215

def sb (i : Instruction) : Int := (i.b : Int) - byteExcess
def sc (i : Instruction) : Int := (i.c : Int) - byteExcess
def sbx (i : Instruction) : Int := (i.bx : Int) - bxExcess
def sj (i : Instruction) : Int := (i.ax : Int) - jumpExcess

/-- An instruction with arguments `A`, `B`, `C` and the flag `k`. -/
def abck (o : Opcode) (a b c : Nat) (k : Bool) : Instruction :=
  o.code ||| (a.toUInt32 <<< 7) ||| (if k then (0x8000 : UInt32) else 0) ||| (b.toUInt32 <<< 16)
    ||| (c.toUInt32 <<< 24)

/-- An instruction with arguments `A` and `Bx`. -/
def abx (o : Opcode) (a bx : Nat) : Instruction :=
  o.code ||| (a.toUInt32 <<< 7) ||| (bx.toUInt32 <<< 15)

/-- An instruction with the argument `Ax`. -/
def withAx (o : Opcode) (ax : Nat) : Instruction := o.code ||| (ax.toUInt32 <<< 7)

def setOpcode (i : Instruction) (o : Opcode) : Instruction := setWordField i 0xffffff80 0 o.ctorIdx
def setA (i : Instruction) (a : Nat) : Instruction := setWordField i 0xffff807f 7 a
def setB (i : Instruction) (b : Nat) : Instruction := setWordField i 0xff00ffff 16 b
def setC (i : Instruction) (c : Nat) : Instruction := setWordField i 0x00ffffff 24 c
def setK (i : Instruction) (k : Bool) : Instruction :=
  setWordField i 0xffff7fff 15 (if k then 1 else 0)
def setBx (i : Instruction) (bx : Nat) : Instruction := setWordField i 0x00007fff 15 bx
def setSbx (i : Instruction) (d : Int) : Instruction := i.setBx (d + bxExcess).toNat
def setSj (i : Instruction) (d : Int) : Instruction :=
  setWordField i 0x7f 7 (d + jumpExcess).toNat

/-! ## Limits of the arguments -/

def maxA : Nat := 255
def maxB : Nat := 255
def maxC : Nat := 255
def maxBx : Nat := 131071
def maxAx : Nat := 33554431

end Instruction

end LuaHost
