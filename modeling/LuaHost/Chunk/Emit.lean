import LuaHost.Chunk.Scope
import LuaHost.Machine.Arithmetic

/-!
# Generating code

Instructions are appended to the function under compilation, with the lines that they come from.
Expressions are kept open as long as possible, so that constants are folded, results go straight to
where they are wanted, and tests become jumps.
-/

namespace LuaHost.Compile

/-! ## Lines -/

/-- The greatest step between lines that is stored as a difference, plus one. -/
def maxLineStep : Nat := 128

/-- How many instructions may follow a line mark. -/
def maxUnmarked : Nat := 128

/-- Stores the line of the last instruction. -/
def saveLine (line : Nat) : Compile Unit :=
  modifyFn fun f =>
    let step : Int := (line : Int) - f.previousLine
    let p := f.p
    if step.natAbs ≥ maxLineStep || f.sinceMark ≥ maxUnmarked then
      { f with
        p := { p with
          lineMarks := p.lineMarks.push (p.code.size - 1, line)
          lineSteps := p.lineSteps.push Prototype.markedStep }
        sinceMark := 1, previousLine := line }
    else
      { f with
        p := { p with lineSteps := p.lineSteps.push step }
        sinceMark := f.sinceMark + 1, previousLine := line }

/-- Forgets the line of the last instruction. -/
def dropLine : Compile Unit :=
  modifyFn fun f =>
    let p := f.p
    let step := p.lineSteps.back?.getD 0
    if step != Prototype.markedStep then
      { f with
        p := { p with lineSteps := p.lineSteps.pop }
        previousLine := ((f.previousLine : Int) - step).toNat, sinceMark := f.sinceMark - 1 }
    else
      { f with
        p := { p with lineSteps := p.lineSteps.pop, lineMarks := p.lineMarks.pop }
        sinceMark := maxUnmarked + 1 }

/-- Gives the last instruction another line. -/
def fixLine (line : Nat) : Compile Unit := do
  dropLine
  saveLine line

/-! ## Instructions -/

def emit (i : Instruction) : Compile Nat := do
  let pc ← here
  modifyProto fun p => { p with code := p.code.push i }
  saveLine (← get).lastLine
  return pc

def emitABCk (o : Opcode) (a b c : Nat) (k : Bool) : Compile Nat := emit (.abck o a b c k)

def emitABC (o : Opcode) (a b c : Nat) : Compile Nat := emitABCk o a b c false

def emitABx (o : Opcode) (a bx : Nat) : Compile Nat := emit (.abx o a bx)

def emitAsBx (o : Opcode) (a : Nat) (sbx : Int) : Compile Nat :=
  emit (.abx o a (sbx + Instruction.bxExcess).toNat)

def emitExtra (a : Nat) : Compile Nat := emit (.withAx .extraArg a)

/-- Removes the last instruction. -/
def dropInstruction : Compile Unit := do
  dropLine
  modifyProto fun p => { p with code := p.code.pop }

def instruction (pc : Nat) : Compile Instruction := return (← fn).p.code.getD pc 0

def modifyInstruction (pc : Nat) (f : Instruction → Instruction) : Compile Unit :=
  modifyProto fun p => { p with code := p.code.modify pc f }

/-- The last instruction, unless a jump may lead behind it. -/
def previous? : Compile (Option Instruction) := do
  let f ← fn
  return if f.p.code.size > f.lastTarget then f.p.code.back? else none

/-! ## Registers -/

def maxRegisters : Nat := 255

/-- The register that stands for none. -/
def noRegister : Nat := Instruction.maxA

def checkRegisters (n : Nat) : Compile Unit := do
  let f ← fn
  let needed := f.freeRegister + n
  if needed > f.p.maxStack then
    if needed ≥ maxRegisters then
      faultText "function or expression needs too many registers"
    modifyProto fun p => { p with maxStack := needed }

def reserve (n : Nat) : Compile Unit := do
  checkRegisters n
  modifyFn fun f => { f with freeRegister := f.freeRegister + n }

/-- Frees a register, unless a variable has it. -/
def freeRegister (r : Nat) : Compile Unit := do
  if r ≥ (← activeRegisters) then
    modifyFn fun f => { f with freeRegister := f.freeRegister - 1 }

/-- Frees two registers, the higher one first. -/
def freeRegisters (r s : Nat) : Compile Unit := do
  if r > s then
    freeRegister r
    freeRegister s
  else
    freeRegister s
    freeRegister r

def freeExpr (e : Expr) : Compile Unit := do
  match e.register? with
  | some r => freeRegister r
  | none => return ()

def freeExprs (x y : Expr) : Compile Unit := do
  match x.register?, y.register? with
  | some r, some s => freeRegisters r s
  | some r, none => freeRegister r
  | none, some s => freeRegister s
  | none, none => return ()

/-! ## Constants -/

/-- The place of a constant of the function. -/
def addConstant (v : Value) : Compile Nat := do
  let s ← get
  let ks := s.function.p.constants
  match s.places[v]? with
  | some k =>
    if k < ks.size && Value.keyCmp (ks.getD k .nil) v == .eq then return k
  | none => pure ()
  let k := ks.size
  modify fun s => { s with places := s.places.insert v k }
  modifyProto fun p => { p with constants := p.constants.push v }
  return k

/-- The longest string that counts as a short one. -/
def maxShort : Nat := 40

def fitsSignedC (i : Int64) : Bool := -Instruction.byteExcess ≤ i.toInt && i.toInt ≤ 255 - Instruction.byteExcess

def fitsSignedBx (i : Int64) : Bool :=
  -Instruction.bxExcess ≤ i.toInt && i.toInt ≤ Instruction.maxBx - Instruction.bxExcess

def loadConstant (reg k : Nat) : Compile Unit := do
  if k ≤ Instruction.maxBx then
    let _ ← emitABx .loadK reg k
  else
    let _ ← emitABx .loadKX reg 0
    let _ ← emitExtra k

def loadInt (reg : Nat) (i : Int64) : Compile Unit := do
  if fitsSignedBx i then
    let _ ← emitAsBx .loadInt reg i.toInt
  else loadConstant reg (← addConstant (.int i))

def loadFloat (reg : Nat) (x : Double) : Compile Unit := do
  match x.toInt64? with
  | some i =>
    if fitsSignedBx i then
      let _ ← emitAsBx .loadFloat reg i.toInt
    else loadConstant reg (← addConstant (.float x))
  | none => loadConstant reg (← addConstant (.float x))

/-- Sets registers to `nil`, together with the ones that the last instruction sets if they join. -/
def loadNils (start n : Nat) : Compile Unit := do
  let last := start + n - 1
  match ← previous? with
  | some i =>
    if i.opcode == .loadNil then
      let pstart := i.a
      let plast := pstart + i.b
      if (pstart ≤ start && start ≤ plast + 1) || (start ≤ pstart && pstart ≤ last + 1) then
        let lo := min start pstart
        let hi := max last plast
        modifyInstruction ((← here) - 1) fun i => (i.setA lo).setB (hi - lo)
        return ()
  | none => pure ()
  let _ ← emitABC .loadNil start (n - 1) 0

/-! ## Jumps -/

/-- The jump that follows in a list. -/
def nextJump (pc : Nat) : Compile JumpList := do
  let d := (← instruction pc).sj
  return if d == noJump then noJump else (pc : Int) + 1 + d

def fixJump (pc dest : Nat) : Compile Unit := do
  let d : Int := (dest : Int) - (pc + 1)
  if d < -Instruction.jumpExcess || d > Instruction.maxAx - Instruction.jumpExcess then
    faultText "control structure too long"
  modifyInstruction pc (·.setSj d)

/-- The last jump of a list; `fuel` bounds its length. -/
def lastJump (pc : Nat) : Nat → Compile Nat
  | 0 => return pc
  | fuel + 1 => do
    match ← nextJump pc with
    | .ofNat n => lastJump n fuel
    | .negSucc _ => return pc

/-- Joins two lists. -/
def joinJumps (l₁ l₂ : JumpList) : Compile JumpList := do
  match l₁, l₂ with
  | l₁, .negSucc _ => return l₁
  | .negSucc _, l₂ => return l₂
  | .ofNat a, .ofNat b =>
    fixJump (← lastJump a (← here)) b
    return l₁

def emitJump : Compile Nat := emit (Instruction.setSj (Instruction.withAx .jmp 0) noJump)

/-- Marks the next instruction as a target of jumps. -/
def label : Compile Nat := do
  let pc ← here
  modifyFn fun f => { f with lastTarget := pc }
  return pc

def emitTest (o : Opcode) (a b c : Nat) (k : Bool) : Compile Nat := do
  let _ ← emitABCk o a b c k
  emitJump

/-- The instruction that decides about a jump: the test before it, or the jump itself. -/
def controlOf (pc : Nat) : Compile Nat := do
  if pc ≥ 1 && (← instruction (pc - 1)).opcode.isTest then return pc - 1 else return pc

/-- Gives the test of a jump a register for its value, or none: whether the test produces one. -/
def patchTest (pc reg : Nat) : Compile Bool := do
  let at_ ← controlOf pc
  let i ← instruction at_
  if i.opcode != .testSet then return false
  if reg != noRegister && reg != i.b then modifyInstruction at_ (·.setA reg)
  else modifyInstruction at_ fun i => .abck .test i.b 0 0 i.k
  return true

/-- Makes the tests of a list produce no values. -/
def removeValues (l : JumpList) : Nat → Compile Unit
  | 0 => return ()
  | fuel + 1 => do
    match l with
    | .negSucc _ => return ()
    | .ofNat pc =>
      let _ ← patchTest pc noRegister
      removeValues (← nextJump pc) fuel

/-- Whether some jump of a list comes without a value. -/
def needsValue (l : JumpList) : Nat → Compile Bool
  | 0 => return false
  | fuel + 1 => do
    match l with
    | .negSucc _ => return false
    | .ofNat pc =>
      if (← instruction (← controlOf pc)).opcode != .testSet then return true
      needsValue (← nextJump pc) fuel

/-- Directs the jumps of a list: those that produce a value in `reg` to one target, others to
another. -/
def patchListTo (l : JumpList) (valueTarget reg otherTarget : Nat) : Nat → Compile Unit
  | 0 => return ()
  | fuel + 1 => do
    match l with
    | .negSucc _ => return ()
    | .ofNat pc =>
      let next ← nextJump pc
      fixJump pc (if ← patchTest pc reg then valueTarget else otherTarget)
      patchListTo next valueTarget reg otherTarget fuel

def patchList (l : JumpList) (target : Nat) : Compile Unit := do
  patchListTo l target noRegister target ((← here) + 1)

def patchToHere (l : JumpList) : Compile Unit := do
  let pc ← label
  patchList l pc

/-! ## Values of expressions -/

def ofKind (k : ExprKind) : Expr := { kind := k }

/-- The expression for a constant value. -/
def ofValue (v : Value) : ExprKind :=
  match v with
  | .int i => .int i
  | .float x => .float x
  | .bool true => .true
  | .bool false => .false
  | .str s => .str s
  | _ => .nil

/-- The value of an expression that is known while compiling. -/
def knownValue (e : Expr) : Compile (Option Value) := do
  if e.hasJumps then return none
  match e.kind with
  | .false => return some (.bool false)
  | .true => return some (.bool true)
  | .nil => return some .nil
  | .str s => return some (.str s)
  | .known i => return some ((← get).locals.getD i default).value
  | .int i => return some (.int i)
  | .float x => return some (.float x)
  | _ => return none

/-- Sets how many results an open expression has; −1 for all. -/
def setResults (e : Expr) (n : Int) : Compile Unit := do
  let c := (n + 1).toNat
  match e.kind with
  | .call pc => modifyInstruction pc (·.setC c)
  | .vararg pc =>
    let r := (← fn).freeRegister
    modifyInstruction pc fun i => (i.setC c).setA r
    reserve 1
  | _ => return ()

/-- Limits an open expression to one value. -/
def setOneResult (e : Expr) : Compile Expr := do
  match e.kind with
  | .call pc => return { e with kind := .fixed (← instruction pc).a }
  | .vararg pc =>
    modifyInstruction pc (·.setC 2)
    return { e with kind := .open pc }
  | _ => return e

/-- Makes sure that an expression is not a variable any more. -/
def dischargeVariable (e : Expr) : Compile Expr := do
  match e.kind with
  | .known i =>
    return { e with kind := ofValue ((← get).locals.getD i default).value }
  | .localVar r _ => return { e with kind := .fixed r }
  | .upvalue i => return { e with kind := .open (← emitABC .getUpval 0 i 0) }
  | .indexedUpvalue t k => return { e with kind := .open (← emitABC .getTabUp 0 t k) }
  | .indexedInt t i =>
    freeRegister t
    return { e with kind := .open (← emitABC .getI 0 t i) }
  | .indexedStr t k =>
    freeRegister t
    return { e with kind := .open (← emitABC .getField 0 t k) }
  | .indexed t k =>
    freeRegisters t k
    return { e with kind := .open (← emitABC .getTable 0 t k) }
  | .call _ | .vararg _ => setOneResult e
  | _ => return e

/-- Puts a value into a register; a test stays one. -/
def dischargeTo (e : Expr) (reg : Nat) : Compile Expr := do
  let e ← dischargeVariable e
  let done : Expr := { e with kind := .fixed reg }
  match e.kind with
  | .nil =>
    loadNils reg 1
    return done
  | .false =>
    let _ ← emitABC .loadFalse reg 0 0
    return done
  | .true =>
    let _ ← emitABC .loadTrue reg 0 0
    return done
  | .str s =>
    loadConstant reg (← addConstant (.str s))
    return done
  | .constant k =>
    loadConstant reg k
    return done
  | .float x =>
    loadFloat reg x
    return done
  | .int i =>
    loadInt reg i
    return done
  | .open pc =>
    modifyInstruction pc (·.setA reg)
    return done
  | .fixed r =>
    if r != reg then
      let _ ← emitABC .move reg r 0
    return done
  | _ => return e

def dischargeToAny (e : Expr) : Compile Expr := do
  match e.kind with
  | .fixed _ => return e
  | _ =>
    reserve 1
    dischargeTo e ((← fn).freeRegister - 1)

/-- Loads a boolean by an instruction that jumps may lead to. -/
def loadBool (reg : Nat) (o : Opcode) : Compile Nat := do
  let _ ← label
  emitABC o reg 0 0

/-- Puts the final value of an expression into a register, with all its jumps. -/
def toRegister (e : Expr) (reg : Nat) : Compile Expr := do
  let e ← dischargeTo e reg
  let (e, isTest) ← match e.kind with
    | .jump pc => do
      pure ({ e with whenTrue := ← joinJumps e.whenTrue pc }, true)
    | _ => pure (e, false)
  if e.hasJumps then
    let n := (← here) + 1
    let (loadFalse, loadTrue) ←
      if (← needsValue e.whenTrue n) || (← needsValue e.whenFalse n) then do
        let skip : JumpList ← if isTest then pure noJump else do pure ((← emitJump : Nat) : Int)
        let f ← loadBool reg .loadFalseSkip
        let t ← loadBool reg .loadTrue
        patchToHere skip
        pure (f, t)
      else pure (0, 0)
    let final ← label
    let n := final + 1
    patchListTo e.whenFalse final reg loadFalse n
    patchListTo e.whenTrue final reg loadTrue n
  return { kind := .fixed reg }

def toNextRegister (e : Expr) : Compile Expr := do
  let e ← dischargeVariable e
  freeExpr e
  reserve 1
  toRegister e ((← fn).freeRegister - 1)

/-- Puts an expression into some register: the expression, and the register. -/
def toAnyRegister (e : Expr) : Compile (Expr × Nat) := do
  let e ← dischargeVariable e
  let fresh : Compile (Expr × Nat) := do
    let e ← toNextRegister e
    return (e, e.register?.getD 0)
  match e.kind with
  | .fixed r =>
    if !e.hasJumps then return (e, r)
    if r ≥ (← activeRegisters) then return (← toRegister e r, r)
    fresh
  | _ => fresh

/-- Puts an expression into a register unless it is an upvalue. -/
def toRegisterOrUpvalue (e : Expr) : Compile Expr := do
  match e.kind, e.hasJumps with
  | .upvalue _, false => return e
  | _, _ => return (← toAnyRegister e).1

/-- Puts the final value of an expression in a register or leaves it a constant. -/
def toValue (e : Expr) : Compile Expr := do
  match e.kind, e.hasJumps with
  | .jump _, _ | _, true => return (← toAnyRegister e).1
  | _, _ => dischargeVariable e

/-- The place of an expression among the constants, if it is one and the place fits an operand. -/
def toConstant? (e : Expr) : Compile (Option Nat) := do
  if e.hasJumps then return none
  let k ← match e.kind with
    | .true => do pure (some (← addConstant (.bool true)))
    | .false => do pure (some (← addConstant (.bool false)))
    | .nil => do pure (some (← addConstant .nil))
    | .int i => do pure (some (← addConstant (.int i)))
    | .float x => do pure (some (← addConstant (.float x)))
    | .str s => do pure (some (← addConstant (.str s)))
    | .constant k => pure (some k)
    | _ => pure none
  match k with
  | some k => return if k ≤ Instruction.maxB then some k else none
  | none => return none

/-- An operand that is a constant or in a register: the expression, the operand, and whether it is
a constant. -/
def toOperand (e : Expr) : Compile (Expr × Nat × Bool) := do
  match ← toConstant? e with
  | some k => return ({ kind := .constant k }, k, true)
  | none =>
    let (e, r) ← toAnyRegister e
    return (e, r, false)

def emitWithOperand (o : Opcode) (a b : Nat) (e : Expr) : Compile Expr := do
  let (e, c, k) ← toOperand e
  let _ ← emitABCk o a b c k
  return e

/-- Assigns a value to a variable. -/
def storeVariable (v : Expr) (e : Expr) : Compile Unit := do
  match v.kind with
  | .localVar r _ =>
    freeExpr e
    let _ ← toRegister e r
  | .upvalue i =>
    let (e, r) ← toAnyRegister e
    let _ ← emitABC .setUpval r i 0
    freeExpr e
  | .indexedUpvalue t k => freeExpr (← emitWithOperand .setTabUp t k e)
  | .indexedInt t i => freeExpr (← emitWithOperand .setI t i e)
  | .indexedStr t k => freeExpr (← emitWithOperand .setField t k e)
  | .indexed t k => freeExpr (← emitWithOperand .setTable t k e)
  | _ => return ()

/-- Prepares a method call: the method, and the object as its first argument. -/
def selfCall (e key : Expr) : Compile Expr := do
  let (e, r) ← toAnyRegister e
  freeExpr e
  let base := (← fn).freeRegister
  reserve 2
  let key ← emitWithOperand .self base r key
  freeExpr key
  return { kind := .fixed base }

/-! ## Conditions -/

def negateCondition (pc : Nat) : Compile Unit := do
  modifyInstruction (← controlOf pc) fun i => i.setK (!i.k)

/-- Jumps if an expression is `cond`. -/
def jumpOn (e : Expr) (cond : Bool) : Compile (Expr × Nat) := do
  let general : Compile (Expr × Nat) := do
    let e ← dischargeToAny e
    freeExpr e
    return (e, ← emitTest .testSet noRegister (e.register?.getD 0) 0 cond)
  match e.kind with
  | .open pc =>
    let i ← instruction pc
    if i.opcode == .not then
      dropInstruction
      return (e, ← emitTest .test i.b 0 0 (!cond))
    general
  | _ => general

/-- Goes on if an expression is true, and jumps otherwise. -/
def goIfTrue (e : Expr) : Compile Expr := do
  let e ← dischargeVariable e
  let (e, pc) : Expr × JumpList ← match e.kind with
    | .jump pc => do
      negateCondition pc
      pure (e, (pc : Int))
    | .constant _ | .float _ | .int _ | .str _ | .true => pure (e, noJump)
    | _ => do
      let (e, pc) ← jumpOn e false
      pure (e, (pc : Int))
  let whenFalse ← joinJumps e.whenFalse pc
  patchToHere e.whenTrue
  return { e with whenFalse, whenTrue := noJump }

/-- Goes on if an expression is false, and jumps otherwise. -/
def goIfFalse (e : Expr) : Compile Expr := do
  let e ← dischargeVariable e
  let (e, pc) : Expr × JumpList ← match e.kind with
    | .jump pc => pure (e, (pc : Int))
    | .nil | .false => pure (e, noJump)
    | _ => do
      let (e, pc) ← jumpOn e true
      pure (e, (pc : Int))
  let whenTrue ← joinJumps e.whenTrue pc
  patchToHere e.whenFalse
  return { e with whenTrue, whenFalse := noJump }

def emitNot (e : Expr) : Compile Expr := do
  let kind ← match e.kind with
    | .nil | .false => pure ExprKind.true
    | .constant _ | .float _ | .int _ | .str _ | .true => pure ExprKind.false
    | .jump pc => do
      negateCondition pc
      pure e.kind
    | _ => do
      let e ← dischargeToAny e
      freeExpr e
      pure (.open (← emitABC .not 0 (e.register?.getD 0) 0))
  let n := (← here) + 1
  removeValues e.whenTrue n
  removeValues e.whenFalse n
  return { kind, whenTrue := e.whenFalse, whenFalse := e.whenTrue }

/-! ## Indexing -/

/-- Whether a constant is a short string that fits an operand. -/
def isShortKey (e : Expr) : Compile (Option Nat) := do
  match e.kind, e.hasJumps with
  | .constant k, false =>
    match (← fn).p.constants.getD k .nil with
    | .str s => return if k ≤ Instruction.maxB && s.size ≤ maxShort then some k else none
    | _ => return none
  | _, _ => return none

/-- The expression `t[k]`; `t` is in a register or an upvalue. -/
def indexedBy (t k : Expr) : Compile Expr := do
  let k ← match k.kind with
    | .str s => do pure { k with kind := .constant (← addConstant (.str s)) }
    | _ => pure k
  let short ← isShortKey k
  let t ← match t.kind, short with
    | .upvalue _, none => do pure (← toAnyRegister t).1
    | _, _ => pure t
  match t.kind, short with
  | .upvalue u, some k => return { t with kind := .indexedUpvalue u k }
  | _, _ =>
    let r := match t.kind with
      | .localVar r _ => r
      | .fixed r => r
      | _ => 0
    match short with
    | some k => return { t with kind := .indexedStr r k }
    | none =>
      match k.kind, k.hasJumps with
      | .int i, false =>
        if 0 ≤ i && i.toInt ≤ Instruction.maxC then
          return { t with kind := .indexedInt r i.toInt.toNat }
        else return { t with kind := .indexed r (← toAnyRegister k).2 }
      | _, _ => return { t with kind := .indexed r (← toAnyRegister k).2 }

/-! ## Operators -/

inductive UnaryOp where
  | minus | bnot | not | len
deriving DecidableEq, Inhabited

inductive BinaryOp where
  | arith (op : ArithOp)
  | concat
  | eq | lt | le | ne | gt | ge
  | and | or
deriving DecidableEq, Inhabited

/-- Folds an operation on numerals, unless it may fail or gives a zero or `NaN` double. -/
def fold (op : ArithOp) (x y : Expr) : Option ExprKind :=
  match x.numeral?, y.numeral? with
  | some a, some b =>
    let zero := match b with
      | .int i => i == 0
      | .float z => z.isZero
    let valid := match op with
      | .div | .idiv | .mod => !zero
      | _ => true
    if !valid then none
    else
      match Number.arith op a b with
      | some (.ok (.int i)) => some (.int i)
      | some (.ok (.float z)) => if z.isNaN || z.isZero then none else some (.float z)
      | _ => none
  | _, _ => none

def emitUnary (o : Opcode) (e : Expr) (line : Nat) : Compile Expr := do
  let (e, r) ← toAnyRegister e
  freeExpr e
  let pc ← emitABC o 0 r 0
  fixLine line
  return { e with kind := .open pc }

/-- Ends an arithmetic operation: the operation, and the call of its handler. -/
def finishArith (x y : Expr) (o : Opcode) (operand : Nat) (flip : Bool) (line : Nat)
    (handlerOp : Opcode) (e : Event) : Compile Expr := do
  let (x, r) ← toAnyRegister x
  let pc ← emitABC o 0 r operand
  freeExprs x y
  fixLine line
  let _ ← emitABCk handlerOp r operand e.code flip
  fixLine line
  return { x with kind := .open pc }

def registerOpcode : ArithOp → Opcode
  | .add => .add
  | .sub => .sub
  | .mul => .mul
  | .mod => .mod
  | .pow => .pow
  | .div => .div
  | .idiv => .idiv
  | .band => .band
  | .bor => .bor
  | .bxor => .bxor
  | .shl => .shl
  | _ => .shr

def constantOpcode : ArithOp → Opcode
  | .sub => .subK
  | .mul => .mulK
  | .mod => .modK
  | .pow => .powK
  | .div => .divK
  | .idiv => .idivK
  | .band => .bandK
  | .bor => .borK
  | .bxor => .bxorK
  | _ => .addK

/-- An operation on two registers. -/
def arithRegisters (op : ArithOp) (x y : Expr) (line : Nat) : Compile Expr := do
  let (y, r) ← toAnyRegister y
  finishArith x y (registerOpcode op) r false line .mmBin op.event

/-- An operation with a small integer. -/
def arithImmediate (o : Opcode) (x y : Expr) (i : Int64) (flip : Bool) (line : Nat) (e : Event) :
    Compile Expr :=
  finishArith x y o (i.toInt + Instruction.byteExcess).toNat flip line .mmBinI e

/-- An operation with a constant. -/
def arithConstant (op : ArithOp) (x : Expr) (k : Nat) (flip : Bool) (line : Nat) : Compile Expr :=
  finishArith x { kind := .constant k } (constantOpcode op) k flip line .mmBinK op.event

/-- An operation without constants; `flip` tells that the operands were exchanged. -/
def arithPlain (op : ArithOp) (x y : Expr) (flip : Bool) (line : Nat) : Compile Expr :=
  if flip then arithRegisters op y x line else arithRegisters op x y line

/-- An operation whose second operand may be a numeral. -/
def arithNumeral (op : ArithOp) (x y : Expr) (flip : Bool) (line : Nat) : Compile Expr := do
  if y.numeral?.isSome then
    match ← toConstant? y with
    | some k => arithConstant op x k flip line
    | none => arithPlain op x y flip line
  else arithPlain op x y flip line

/-- The small integer that an expression is. -/
def smallInt? (e : Expr) : Option Int64 :=
  match e.kind, e.hasJumps with
  | .int i, false => if fitsSignedC i then some i else none
  | _, _ => none

/-- The small integer that a numeral is equal to, and whether it is a double. -/
def smallNumber? (e : Expr) : Option (Int64 × Bool) :=
  if e.hasJumps then none
  else
    match e.kind with
    | .int i => if fitsSignedC i then some (i, false) else none
    | .float x =>
      match x.toInt64? with
      | some i => if fitsSignedC i then some (i, true) else none
      | none => none
    | _ => none

def commutative (op : ArithOp) (x y : Expr) (line : Nat) : Compile Expr := do
  let flip := x.numeral?.isSome
  let (x, y) := if flip then (y, x) else (x, y)
  match op, smallInt? y with
  | .add, some i => arithImmediate .addI x y i flip line .add
  | _, _ => arithNumeral op x y flip line

def isInt (e : Expr) : Bool :=
  match e.kind with
  | .int _ => true
  | _ => false

def bitwise (op : ArithOp) (x y : Expr) (line : Nat) : Compile Expr := do
  let flip := isInt x
  let (x, y) := if flip then (y, x) else (x, y)
  if isInt y then
    match ← toConstant? y with
    | some k => arithConstant op x k flip line
    | none => arithPlain op x y flip line
  else arithPlain op x y flip line

/-- An operation by a small integer, done as its inverse by the negated integer. -/
def negated? (x y : Expr) (o : Opcode) (line : Nat) (e : Event) : Compile (Option Expr) := do
  match y.kind, y.hasJumps with
  | .int i, false =>
    if fitsSignedC i && fitsSignedC (0 - i) then
      let r ← arithImmediate o x y (0 - i) false line e
      modifyInstruction ((← here) - 1) (·.setB (i.toInt + Instruction.byteExcess).toNat)
      return some r
    else return none
  | _, _ => return none

/-- A comparison by order. -/
def order (strict : Bool) (x y : Expr) : Compile Expr := do
  let finish (x y : Expr) (o : Opcode) (a b : Nat) (isFloat : Bool) : Compile Expr := do
    freeExprs x y
    let pc ← emitTest o a b (if isFloat then 1 else 0) true
    return { kind := .jump pc }
  let excess (i : Int64) : Nat := (i.toInt + Instruction.byteExcess).toNat
  match smallNumber? y with
  | some (i, isFloat) =>
    let (x, r) ← toAnyRegister x
    finish x y (if strict then .ltI else .leI) r (excess i) isFloat
  | none =>
    match smallNumber? x with
    | some (i, isFloat) =>
      let (y, r) ← toAnyRegister y
      finish x y (if strict then .gtI else .geI) r (excess i) isFloat
    | none =>
      let (x, r) ← toAnyRegister x
      let (y, s) ← toAnyRegister y
      finish x y (if strict then .lt else .le) r s false

/-- A comparison by equality. -/
def equality (positive : Bool) (x y : Expr) : Compile Expr := do
  let (x, y) := if x.register?.isSome then (x, y) else (y, x)
  let (x, r) ← toAnyRegister x
  let finish (y : Expr) (o : Opcode) (b : Nat) (isFloat : Bool) : Compile Expr := do
    freeExprs x y
    let pc ← emitTest o r b (if isFloat then 1 else 0) positive
    return { kind := .jump pc }
  match smallNumber? y with
  | some (i, isFloat) => finish y .eqI (i.toInt + Instruction.byteExcess).toNat isFloat
  | none =>
    match ← toOperand y with
    | (y, k, true) => finish y .eqK k false
    | (y, s, false) => finish y .eq s false

/-- Applies a unary operator. -/
def unaryOperator (op : UnaryOp) (e : Expr) (line : Nat) : Compile Expr := do
  let e ← dischargeVariable e
  match op with
  | .minus =>
    match fold .unm e { kind := .int 0 } with
    | some k => return { e with kind := k }
    | none => emitUnary .unm e line
  | .bnot =>
    match fold .bnot e { kind := .int 0 } with
    | some k => return { e with kind := k }
    | none => emitUnary .bnot e line
  | .len => emitUnary .len e line
  | .not => emitNot e

/-- Treats the first operand of a binary operator, before the second one is read. -/
def beginBinary (op : BinaryOp) (e : Expr) : Compile Expr := do
  let e ← dischargeVariable e
  match op with
  | .and => goIfTrue e
  | .or => goIfFalse e
  | .concat => toNextRegister e
  | .arith _ => if e.numeral?.isSome then return e else return (← toAnyRegister e).1
  | .eq | .ne => if e.numeral?.isSome then return e else return (← toOperand e).1
  | .lt | .le | .gt | .ge =>
    if (smallNumber? e).isSome then return e else return (← toAnyRegister e).1

/-- Concatenates; a concatenation to the right of another joins it. -/
def concatenate (x y : Expr) (line : Nat) : Compile Expr := do
  let y ← toNextRegister y
  let r := x.register?.getD 0
  match ← previous? with
  | some i =>
    if i.opcode == .concat then
      freeExpr y
      modifyInstruction ((← here) - 1) fun i => (i.setA r).setB (i.b + 1)
      return x
  | none => pure ()
  let _ ← emitABC .concat r 2 0
  freeExpr y
  fixLine line
  return x

/-- Applies an arithmetic operator that could not be folded. -/
def arithOperator (op : ArithOp) (x y : Expr) (line : Nat) : Compile Expr := do
  match op with
  | .add | .mul => commutative op x y line
  | .sub =>
    match ← negated? x y .addI line .sub with
    | some e => return e
    | none => arithNumeral op x y false line
  | .band | .bor | .bxor => bitwise op x y line
  | .shl =>
    match smallInt? x with
    | some i => arithImmediate .shlI y x i true line .shl
    | none =>
      match ← negated? x y .shrI line .shl with
      | some e => return e
      | none => arithRegisters op x y line
  | .shr =>
    match smallInt? y with
    | some i => arithImmediate .shrI x y i false line .shr
    | none => arithRegisters op x y line
  | _ => arithNumeral op x y false line

/-- Applies a binary operator, when its second operand was read. -/
def endBinary (op : BinaryOp) (x y : Expr) (line : Nat) : Compile Expr := do
  let y ← dischargeVariable y
  match op with
  | .and => return { y with whenFalse := ← joinJumps y.whenFalse x.whenFalse }
  | .or => return { y with whenTrue := ← joinJumps y.whenTrue x.whenTrue }
  | .concat => concatenate x y line
  | .arith op =>
    match fold op x y with
    | some k => return { x with kind := k }
    | none => arithOperator op x y line
  | .eq => equality true x y
  | .ne => equality false x y
  | .lt => order true x y
  | .le => order false x y
  | .gt => order true y x
  | .ge => order false y x

/-! ## Tables and the end of a function -/

def ceilLog2 (n : Nat) : Nat := if n ≤ 1 then 0 else (n - 1).log2 + 1

/-- Fills in the sizes of a table constructor. -/
def setTableSize (pc reg arraySize hashSize : Nat) : Compile Unit := do
  let extra := arraySize / 256
  let b := if hashSize != 0 then ceilLog2 hashSize + 1 else 0
  modifyInstruction pc fun _ => .abck .newTable reg b (arraySize % 256) (extra > 0)
  modifyInstruction (pc + 1) fun _ => .withAx .extraArg extra

/-- Stores list items from registers; `count` is zero for all up to the top. -/
def emitSetList (base stored count : Nat) : Compile Unit := do
  if stored ≤ Instruction.maxC then
    let _ ← emitABC .setList base count stored
  else
    let _ ← emitABCk .setList base count (stored % 256) true
    let _ ← emitExtra (stored / 256)
  modifyFn fun f => { f with freeRegister := base + 1 }

def emitReturn (first : Nat) (n : Int) : Compile Unit := do
  let o : Opcode := if n == 0 then .ret0 else if n == 1 then .ret1 else .ret
  let _ ← emitABC o first (n + 1).toNat 0

/-- Where a chain of jumps ends. -/
def finalTarget (code : Array Instruction) (i : Int) : Nat → Int
  | 0 => i
  | fuel + 1 =>
    let x := code.getD i.toNat 0
    if x.opcode == .jmp then finalTarget code (i + x.sj + 1) fuel else i

/-- An instruction after the last pass: returns learn what they have to do, and jumps to jumps go
straight to the end. -/
def finished (p : Prototype) (needsClose : Bool) (pc : Nat) (i : Instruction) : Instruction :=
  let mark (i : Instruction) : Instruction :=
    let i := if needsClose then i.setK true else i
    if p.isVararg then i.setC (p.parameters + 1) else i
  match i.opcode with
  | .ret0 | .ret1 => if needsClose || p.isVararg then mark (i.setOpcode .ret) else i
  | .ret | .tailCall => mark i
  | .jmp => i.setSj (finalTarget p.code pc 100 - (pc + 1))
  | _ => i

def finishCode : Compile Unit :=
  modifyFn fun f =>
    { f with p := { f.p with code := f.p.code.mapIdx (finished f.p f.needsClose) } }

end LuaHost.Compile
