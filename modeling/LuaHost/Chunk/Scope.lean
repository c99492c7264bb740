import LuaHost.Chunk.Lexer
import LuaHost.Chunk.Prototype
import Std.Data.TreeMap

/-!
# Functions under compilation

Code is generated while the text is read, in one pass.  This module holds what is known on the way:
the functions that are open, their blocks, the variables in scope, and jumps whose label has not
been seen.
-/

namespace LuaHost

/-! ## Expressions -/

/-- The start of a list of jumps; the end of a list is −1. -/
abbrev JumpList := Int

def noJump : JumpList := -1

/-- Where the value of an expression is. -/
inductive ExprKind where
  | void
  | nil | true | false
  /-- A constant of the function. -/
  | constant (k : Nat)
  | float (x : Double)
  | int (i : Int64)
  | str (s : Bytes)
  /-- In a register. -/
  | fixed (reg : Nat)
  /-- A local variable: its register and its number. -/
  | localVar (reg number : Nat)
  | upvalue (i : Nat)
  /-- A compile-time constant: its place among all variables. -/
  | known (i : Nat)
  /-- A table in a register and a key in a register. -/
  | indexed (table key : Nat)
  /-- A table in an upvalue and a constant key. -/
  | indexedUpvalue (upvalue k : Nat)
  | indexedInt (table i : Nat)
  | indexedStr (table k : Nat)
  /-- A test, followed by a jump. -/
  | jump (pc : Nat)
  /-- An instruction whose result register is still open. -/
  | open (pc : Nat)
  | call (pc : Nat)
  | vararg (pc : Nat)
deriving Inhabited

/-- An expression: where its value is, and the jumps taken when it turns out true or false. -/
structure Expr where
  kind : ExprKind
  whenTrue : JumpList := noJump
  whenFalse : JumpList := noJump
deriving Inhabited

namespace Expr

def hasJumps (e : Expr) : Bool := e.whenTrue != e.whenFalse

/-- Whether the expression can have any number of values. -/
def isOpen (e : Expr) : Bool :=
  match e.kind with
  | .call _ | .vararg _ => true
  | _ => false

def isIndexed (e : Expr) : Bool :=
  match e.kind with
  | .indexed .. | .indexedUpvalue .. | .indexedInt .. | .indexedStr .. => true
  | _ => false

def isVariable (e : Expr) : Bool :=
  e.isIndexed || match e.kind with
    | .localVar .. | .upvalue _ | .known _ => true
    | _ => false

def isVoid (e : Expr) : Bool :=
  match e.kind with
  | .void => true
  | _ => false

/-- The register of a value that is in one. -/
def register? (e : Expr) : Option Nat :=
  match e.kind with
  | .fixed r => some r
  | _ => none

/-- The number that a numeral without jumps denotes. -/
def numeral? (e : Expr) : Option Number :=
  if e.hasJumps then none
  else
    match e.kind with
    | .int i => some (.int i)
    | .float x => some (.float x)
    | _ => none

end Expr

/-! ## Variables, labels and blocks -/

inductive VariableKind where
  | regular | constant | toClose
  /-- Known while compiling: it has no register. -/
  | known
deriving DecidableEq, Inhabited

def VariableKind.code : VariableKind → UInt8
  | regular => 0
  | constant => 1
  | toClose => 2
  | known => 3

structure Variable where
  name : Bytes
  kind : VariableKind := .regular
  register : Nat := 0
  /-- Its place among the function's local variables. -/
  place : Nat := 0
  value : Value := .nil
deriving Inhabited

/-- A label, or a jump to one. -/
structure Label where
  name : Bytes
  /-- The position of a label, or the jumps to one. -/
  pc : JumpList
  line : Nat
  /-- How many variables are active. -/
  active : Nat
  /-- Whether the jump leaves the scope of a shared variable. -/
  close : Bool := false
deriving Inhabited

structure Scope where
  firstLabel : Nat
  firstGoto : Nat
  active : Nat
  /-- Whether a variable of the block is shared or to be closed. -/
  shared : Bool := false
  isLoop : Bool := false
  insideToClose : Bool := false
deriving Inhabited

/-- A function under compilation. -/
structure Function where
  p : Prototype
  scopes : List Scope := []
  /-- The instruction that was last named as a target of jumps. -/
  lastTarget : Nat := 0
  previousLine : Nat := 0
  /-- Instructions since the last line mark. -/
  sinceMark : Nat := 0
  /-- The place of its first variable among all variables. -/
  firstLocal : Nat := 0
  firstLabel : Nat := 0
  active : Nat := 0
  freeRegister : Nat := 0
  needsClose : Bool := false
deriving Inhabited

/-- The state of a compilation. -/
structure Compilation where
  scanner : Scanner
  current : Lexeme := default
  ahead : Option Lexeme := none
  /-- The line of the token before the current one. -/
  lastLine : Nat := 1
  source : Bytes
  function : Function
  /-- The enclosing functions, innermost first. -/
  outer : List Function := []
  locals : Array Variable := #[]
  gotos : Array Label := #[]
  labels : Array Label := #[]
  /-- Where constants were last put. -/
  places : Std.TreeMap Value Nat Value.keyCmp := {}

abbrev Compile := EStateM ChunkFault Compilation

namespace Compile

/-! ## Tokens -/

def scan {α : Type} (x : Scan α) : Compile α := do
  match x.run (← get).scanner with
  | .ok a scanner =>
    modify fun s => { s with scanner }
    return a
  | .error e _ => throw e

/-- Goes to the next token. -/
def advance : Compile Unit := do
  let s ← get
  match s.ahead with
  | some t => set { s with current := t, ahead := none, lastLine := s.scanner.line }
  | none =>
    set { s with lastLine := s.scanner.line }
    let t ← scan Scan.lexeme
    modify fun s => { s with current := t }

/-- The token after the current one. -/
def lookAhead : Compile Token := do
  let t ← scan Scan.lexeme
  modify fun s => { s with ahead := some t }
  return t.token

@[inline] def token : Compile Token := return (← get).current.token

/-- The line that has been reached. -/
@[inline] def line : Compile Nat := return (← get).scanner.line

/-- A bound on the tokens left. -/
def tokensLeft : Compile Nat := do
  let s := (← get).scanner
  return s.text.size - s.position + 4

/-! ## Faults -/

/-- A fault of syntax, which shows the current token. -/
def fault {α : Type} (what : Bytes) : Compile α := do
  let t := (← get).current
  throw (.malformed (← line) what (some (t.token.shown t.text)))

def faultText {α : Type} (what : String) : Compile α := fault what.toUTF8

/-- A fault of meaning, which shows no token. -/
def meaningFault {α : Type} (what : Bytes) : Compile α := do
  throw (.malformed (← line) what none)

def limitFault {α : Type} (limit : Nat) (what : String) : Compile α := do
  let n := (← get).function.p.lineDefined
  let place := if n == 0 then "main function" else "function at line " ++ toString n
  faultText ("too many " ++ what ++ " (limit is " ++ toString limit ++ ") in " ++ place)

/-! ## The function under compilation -/

@[inline] def fn : Compile Function := return (← get).function

@[inline] def modifyFn (f : Function → Function) : Compile Unit :=
  modify fun s => { s with function := f s.function }

@[inline] def modifyProto (f : Prototype → Prototype) : Compile Unit :=
  modifyFn fun x => { x with p := f x.p }

/-- The number of instructions so far. -/
@[inline] def here : Compile Nat := return (← fn).p.code.size

/-- A variable of a function. -/
def variableOf (s : Compilation) (f : Function) (n : Nat) : Variable :=
  s.locals.getD (f.firstLocal + n) default

/-- The register level after the first `n` variables of a function: known ones have no register. -/
def levelIn (vars : Array Variable) (f : Function) : Nat → Nat
  | 0 => 0
  | n + 1 =>
    let v := vars.getD (f.firstLocal + n) default
    if v.kind == .known then levelIn vars f n else v.register + 1

def registerLevel (n : Nat) : Compile Nat := do
  let s ← get
  return levelIn s.locals s.function n

/-- The registers that active variables take. -/
def activeRegisters : Compile Nat := do registerLevel (← fn).active

end Compile

end LuaHost
