import LuaHost.Machine.Collect
import LuaHost.Machine.Loops

/-!
# Executing instructions

`step` carries out one instruction of the running script function.  Calls of script functions open a
frame and go on; `run` repeats steps until the function that it was entered with returns.

Operations that may call a handler first move the stack's top to the end of the frame, so that the
handler finds the registers below it.
-/

namespace LuaHost.Machine

/-- The instruction that is to be carried out, and where. -/
structure Site where
  p : Prototype
  /-- The running closure. -/
  self : ClosureId
  base : Nat
  /-- The end of the frame. -/
  limit : Nat
  pc : Nat
  i : Instruction
deriving Inhabited

/-- Fetches the next instruction of the running script function and moves on behind it. -/
@[noinline] def fetch (t : ThreadId) : M (Option Site) := do
  let f ← frame t
  match f.kind with
  | .native => return none
  | .script p c =>
    let site : Site :=
      { p, self := c, base := f.func + 1, limit := f.top, pc := f.pc, i := p.instruction f.pc }
    modifyFrame t fun f => { f with pc := f.pc + 1 }
    return some site

namespace Site

/-- Moves the next instruction. -/
@[inline] def goto (t : ThreadId) (pc : Int) : M Unit :=
  modifyFrame t fun f => { f with pc := pc.toNat }

@[inline] def skip (t : ThreadId) : M Unit := modifyFrame t fun f => { f with pc := f.pc + 1 }

@[inline] def reg (s : Site) (t : ThreadId) (n : Nat) : M Value := slot t (s.base + n)

@[inline] def setReg (s : Site) (t : ThreadId) (n : Nat) (v : Value) : M Unit :=
  setSlot t (s.base + n) v

@[inline] def a (s : Site) : Nat := s.i.a
@[inline] def b (s : Site) : Nat := s.i.b
@[inline] def c (s : Site) : Nat := s.i.c

/-- The constant or register that `C` names. -/
@[inline] def constantOrRegister (s : Site) (t : ThreadId) : M Value :=
  if s.i.k then return s.p.constant s.i.c else s.reg t s.i.c

@[inline] def raiseTop (s : Site) (t : ThreadId) : M Unit := setTop t s.limit

/-- Takes the jump that follows a test, or skips it. -/
def branch (s : Site) (t : ThreadId) (cond : Bool) : M Unit :=
  if cond != s.i.k then goto t (s.pc + 2)
  else goto t (s.pc + 2 + (s.p.instruction (s.pc + 1)).sj)

/-! ## Tables -/

/-- `v[k]` when no handler is needed. -/
@[inline] def plainIndex (v k : Value) : M Value := do
  match v with
  | .table i => return (← table i).get k
  | _ => return .nil

/-- Puts `v[k]` into register `A`. -/
def readField (s : Site) (t : ThreadId) (v k : Value) (o : Origin) : M Unit := do
  let x ← plainIndex v k
  if x.isNil then
    s.raiseTop t
    let x ← indexFrom t v k o
    s.setReg t s.a x
  else s.setReg t s.a x

/-- Does `v[k] = x`. -/
def writeField (s : Site) (t : ThreadId) (v k x : Value) (o : Origin) : M Unit := do
  if (← plainIndex v k).isNil then
    s.raiseTop t
    assignFrom t v k x o
  else
    match v with
    | .table i => modifyTable i (·.set k x)
    | _ => return ()

/-- Creates the table of a constructor, with the sizes that the instruction gives. -/
def makeTable (s : Site) (t : ThreadId) : M Unit := do
  let nodes := if s.b > 0 then 1 <<< (s.b - 1) else 0
  let extra := if s.i.k then (s.p.instruction (s.pc + 1)).ax * 256 else 0
  skip t
  let i ← newTable (Table.withRoom (s.c + extra) nodes)
  s.setReg t s.a (.table i)
  setTop t (s.base + s.a + 1)
  collectIfDue t

/-- Stores the values above a table into its array part. -/
def fillTable (s : Site) (t : ThreadId) : M Unit := do
  let ra := s.base + s.a
  let n ← if s.b == 0 then do pure ((← top t) - ra - 1) else do
    s.raiseTop t
    pure s.b
  let extra := if s.i.k then (s.p.instruction (s.pc + 1)).ax * 256 else 0
  if s.i.k then skip t
  let first := s.c + extra
  let values := (← thread t).slots (ra + 1) n
  match ← slot t ra with
  | .table i =>
    modifyTable i fun tb =>
      (values.foldl (fun (acc : Table × Nat) v => (acc.1.setNat acc.2 v, acc.2 + 1))
        (tb.growArray (first + n), first + 1)).1
  | _ => return ()

/-! ## Arithmetic

An arithmetic instruction is followed by one that calls a handler; the first skips the second when
the operands are numbers.
-/

/-- An operation whose second operand is given; it may raise an error, but calls no handler. -/
def compute (s : Site) (t : ThreadId) (op : ArithOp) (x y : Value) : M Unit := do
  match rawArith op x y with
  | some (.ok v) =>
    s.setReg t s.a v
    skip t
  | some (.error f) =>
    s.raiseTop t
    runErrorText t f.message
  | none => return ()

/-- Calls the handler for the arithmetic instruction before this one. -/
def computeByHandler (s : Site) (t : ThreadId) (x y : Value) (ox oy : Origin) : M Unit := do
  s.raiseTop t
  let v ← arithByHandler t (Event.ofCode s.c) x y ox oy
  s.setReg t (s.p.instruction (s.pc - 1)).a v

def unary (s : Site) (t : ThreadId) (op : ArithOp) : M Unit := do
  let x ← s.reg t s.b
  match rawArith op x x with
  | some (.ok v) => s.setReg t s.a v
  | _ =>
    s.raiseTop t
    let o := Origin.slot (s.base + s.b)
    let v ← arithByHandler t op.event x x o o
    s.setReg t s.a v

/-! ## Comparison -/

def compareOrder (s : Site) (t : ThreadId) (strict : Bool) (x y : Value) : M Unit := do
  match rawLess strict x y with
  | some r => s.branch t r
  | none =>
    s.raiseTop t
    let r ← lessByHandler t (if strict then .lt else .le) x y
    s.branch t r

/-- The immediate operand of a comparison; `C` tells whether it was written as a double. -/
def immediate (s : Site) : Value :=
  if s.c != 0 then .float (Double.ofInt s.i.sb) else .int (Int64.ofInt s.i.sb)

/-! ## Variadic functions -/

/-- Moves the function and its parameters above the extra arguments. -/
def adjustVarargs (s : Site) (t : ThreadId) : M Unit := do
  let nfix := s.a
  let actual := (← top t) - s.base
  needStack t (s.p.maxStack + 1)
  modifyThread t fun th =>
    let func := s.base - 1
    let th := th.push (th.slot func)
    let th := (List.range nfix).foldl
      (fun th k => (th.push (th.slot (func + 1 + k))).setSlot (func + 1 + k) .nil) th
    th.modifyFrame fun f =>
      { f with
        extraArgs := actual - nfix
        func := f.func + actual + 1
        top := f.top + actual + 1 }

/-- Copies extra arguments into registers from `A` on. -/
def copyVarargs (s : Site) (t : ThreadId) : M Unit := do
  let extra := (← frame t).extraArgs
  let ra := s.base + s.a
  s.raiseTop t
  let wanted ← if s.c == 0 then do
      needStack t extra
      setTop t (ra + extra)
      pure extra
    else pure (s.c - 1)
  let n := min wanted extra
  modifyThread t fun th =>
    (th.moveSlots (s.base - 1 - extra) ra n).fillNil (ra + n) (wanted - n)

/-! ## Calls and returns -/

/-- Ends the running call with `n` results from a slot on. -/
def finish (host : Host) (t : ThreadId) (first n : Nat) : M Bool := do
  setTop t (first + n)
  let fresh := (← frame t).fresh
  finishCall host t n
  return !fresh

def returnMany (host : Host) (s : Site) (t : ThreadId) : M Bool := do
  let ra := s.base + s.a
  let n ← if s.b == 0 then do pure ((← top t) - ra) else pure (s.b - 1)
  if s.i.k then
    modifyThread t fun th =>
      { th.modifyFrame fun f => { f with resultCount := n } with top := max th.top s.limit }
    closeFrom t s.base none true
  if s.c != 0 then modifyFrame t fun f => { f with func := f.func - (f.extraArgs + s.c) }
  finish host t ra n

/-- Calls the function in register `A`. -/
def callRegister (host : Host) (s : Site) (t : ThreadId) : M Unit := do
  let ra := s.base + s.a
  if s.b != 0 then setTop t (ra + s.b)
  if ← beginCall host t ra ((s.c : Int) - 1) then enterScript host t

/-- Calls the function in register `A` in place of the running one. -/
def tailCallRegister (host : Host) (s : Site) (t : ThreadId) : M Bool := do
  let ra := s.base + s.a
  let delta ← if s.c != 0 then do pure ((← frame t).extraArgs + s.c) else pure 0
  if s.b != 0 then setTop t (ra + s.b)
  let narg := (← top t) - ra
  if s.i.k then closeUpvalues t s.base
  match ← beginTailCall host t ra narg delta with
  | none =>
    enterScript host t
    return true
  | some n =>
    modifyFrame t fun f => { f with func := f.func - delta }
    let fresh := (← frame t).fresh
    finishCall host t n
    return !fresh

/-- Goes on with a generic loop, when its iterator has answered something. -/
def repeatGeneric (s : Site) (t : ThreadId) (pc : Nat) (i : Instruction) : M Unit := do
  let ra := s.base + i.a
  let v ← slot t (ra + 4)
  if !v.isNil then
    setSlot t (ra + 2) v
    goto t ((pc : Int) + 1 - i.bx)

/-- Calls the iterator of a generic loop, and carries out the loop instruction behind the call. -/
def callIterator (s : Site) (t : ThreadId) (pc : Nat) (i : Instruction) : M Unit := do
  let ra := s.base + i.a
  modifyThread t fun th => (th.moveSlots ra (ra + 4) 3).withTop (ra + 7)
  (← read).call t (ra + 4) i.c true
  goto t (pc + 2)
  s.repeatGeneric t (pc + 1) (s.p.instruction (pc + 1))

/-- Creates a closure of a nested prototype. -/
def makeClosure (s : Site) (t : ThreadId) : M Unit := do
  let p := s.p.nested.getD s.i.bx default
  let ups ← captureUpvalues t s.base (← closureUpvalues s.self) #[] p.upvalues.toList
  let c ← newClosure (.script p ups)
  s.setReg t s.a (.closure c)
  setTop t (s.base + s.a + 1)
  collectIfDue t

/-- Carries out an instruction; `false` when the call that native code began has returned. -/
def perform (s : Site) (host : Host) (t : ThreadId) : M Bool := do
  let i := s.i
  let goOn (m : M Unit) : M Bool := do
    m
    return true
  match i.opcode with
  | .move => goOn do s.setReg t s.a (← s.reg t s.b)
  | .loadInt => goOn do s.setReg t s.a (.int (Int64.ofInt i.sbx))
  | .loadFloat => goOn do s.setReg t s.a (.float (Double.ofInt i.sbx))
  | .loadK => goOn do s.setReg t s.a (s.p.constant i.bx)
  | .loadKX => goOn do
    s.setReg t s.a (s.p.constant (s.p.instruction (s.pc + 1)).ax)
    skip t
  | .loadFalse => goOn do s.setReg t s.a (.bool false)
  | .loadFalseSkip => goOn do
    s.setReg t s.a (.bool false)
    skip t
  | .loadTrue => goOn do s.setReg t s.a (.bool true)
  | .loadNil => goOn do modifyThread t fun th => th.fillNil (s.base + s.a) (s.b + 1)
  | .getUpval => goOn do s.setReg t s.a (← readUpvalue (← upvalueOf s.self s.b))
  | .setUpval => goOn do writeUpvalue (← upvalueOf s.self s.b) (← s.reg t s.a)
  | .getTabUp => goOn do
    s.readField t (← readUpvalue (← upvalueOf s.self s.b)) (s.p.constant s.c) (.upvalue s.b)
  | .getTable => goOn do
    s.readField t (← s.reg t s.b) (← s.reg t s.c) (.slot (s.base + s.b))
  | .getI => goOn do s.readField t (← s.reg t s.b) (.ofNat s.c) (.slot (s.base + s.b))
  | .getField => goOn do
    s.readField t (← s.reg t s.b) (s.p.constant s.c) (.slot (s.base + s.b))
  | .setTabUp => goOn do
    s.writeField t (← readUpvalue (← upvalueOf s.self s.a)) (s.p.constant s.b)
      (← s.constantOrRegister t) (.upvalue s.a)
  | .setTable => goOn do
    s.writeField t (← s.reg t s.a) (← s.reg t s.b) (← s.constantOrRegister t)
      (.slot (s.base + s.a))
  | .setI => goOn do
    s.writeField t (← s.reg t s.a) (.ofNat s.b) (← s.constantOrRegister t) (.slot (s.base + s.a))
  | .setField => goOn do
    s.writeField t (← s.reg t s.a) (s.p.constant s.b) (← s.constantOrRegister t)
      (.slot (s.base + s.a))
  | .newTable => goOn do s.makeTable t
  | .self => goOn do
    let v ← s.reg t s.b
    let k ← s.constantOrRegister t
    s.setReg t (s.a + 1) v
    s.readField t v k (.slot (s.base + s.b))
  | .addI => goOn do s.compute t .add (← s.reg t s.b) (.int (Int64.ofInt i.sc))
  | .addK => goOn do s.compute t .add (← s.reg t s.b) (s.p.constant s.c)
  | .subK => goOn do s.compute t .sub (← s.reg t s.b) (s.p.constant s.c)
  | .mulK => goOn do s.compute t .mul (← s.reg t s.b) (s.p.constant s.c)
  | .modK => goOn do s.compute t .mod (← s.reg t s.b) (s.p.constant s.c)
  | .powK => goOn do s.compute t .pow (← s.reg t s.b) (s.p.constant s.c)
  | .divK => goOn do s.compute t .div (← s.reg t s.b) (s.p.constant s.c)
  | .idivK => goOn do s.compute t .idiv (← s.reg t s.b) (s.p.constant s.c)
  | .bandK => goOn do s.compute t .band (← s.reg t s.b) (s.p.constant s.c)
  | .borK => goOn do s.compute t .bor (← s.reg t s.b) (s.p.constant s.c)
  | .bxorK => goOn do s.compute t .bxor (← s.reg t s.b) (s.p.constant s.c)
  | .shrI => goOn do s.compute t .shr (← s.reg t s.b) (.int (Int64.ofInt i.sc))
  | .shlI => goOn do s.compute t .shl (.int (Int64.ofInt i.sc)) (← s.reg t s.b)
  | .add => goOn do s.compute t .add (← s.reg t s.b) (← s.reg t s.c)
  | .sub => goOn do s.compute t .sub (← s.reg t s.b) (← s.reg t s.c)
  | .mul => goOn do s.compute t .mul (← s.reg t s.b) (← s.reg t s.c)
  | .mod => goOn do s.compute t .mod (← s.reg t s.b) (← s.reg t s.c)
  | .pow => goOn do s.compute t .pow (← s.reg t s.b) (← s.reg t s.c)
  | .div => goOn do s.compute t .div (← s.reg t s.b) (← s.reg t s.c)
  | .idiv => goOn do s.compute t .idiv (← s.reg t s.b) (← s.reg t s.c)
  | .band => goOn do s.compute t .band (← s.reg t s.b) (← s.reg t s.c)
  | .bor => goOn do s.compute t .bor (← s.reg t s.b) (← s.reg t s.c)
  | .bxor => goOn do s.compute t .bxor (← s.reg t s.b) (← s.reg t s.c)
  | .shl => goOn do s.compute t .shl (← s.reg t s.b) (← s.reg t s.c)
  | .shr => goOn do s.compute t .shr (← s.reg t s.b) (← s.reg t s.c)
  | .mmBin => goOn do
    s.computeByHandler t (← s.reg t s.a) (← s.reg t s.b)
      (.slot (s.base + s.a)) (.slot (s.base + s.b))
  | .mmBinI => goOn do
    let x ← s.reg t s.a
    let y := Value.int (Int64.ofInt i.sb)
    let o := Origin.slot (s.base + s.a)
    if i.k then s.computeByHandler t y x .unknown o else s.computeByHandler t x y o .unknown
  | .mmBinK => goOn do
    let x ← s.reg t s.a
    let y := s.p.constant s.b
    let o := Origin.slot (s.base + s.a)
    if i.k then s.computeByHandler t y x .unknown o else s.computeByHandler t x y o .unknown
  | .unm => goOn do s.unary t .unm
  | .bnot => goOn do s.unary t .bnot
  | .not => goOn do s.setReg t s.a (.bool (← s.reg t s.b).isFalse)
  | .len => goOn do
    s.raiseTop t
    let v ← lengthOf t (← s.reg t s.b) (.slot (s.base + s.b))
    s.setReg t s.a v
  | .concat => goOn do
    setTop t (s.base + s.a + s.b)
    concatTop t s.b
    collectIfDue t
  | .close => goOn do
    s.raiseTop t
    closeFrom t (s.base + s.a) (some .ok) true
  | .tbc => goOn do markToClose t (s.base + s.a)
  | .jmp => goOn do goto t ((s.pc : Int) + 1 + i.sj)
  | .eq => goOn do
    let x ← s.reg t s.a
    let y ← s.reg t s.b
    if x.rawEq y then s.branch t true
    else
      s.raiseTop t
      let r ← equals t x y
      s.branch t r
  | .lt => goOn do s.compareOrder t true (← s.reg t s.a) (← s.reg t s.b)
  | .le => goOn do s.compareOrder t false (← s.reg t s.a) (← s.reg t s.b)
  | .eqK => goOn do s.branch t ((← s.reg t s.a).rawEq (s.p.constant s.b))
  | .eqI => goOn do s.branch t ((← s.reg t s.a).rawEq (.int (Int64.ofInt i.sb)))
  | .ltI => goOn do s.compareOrder t true (← s.reg t s.a) s.immediate
  | .leI => goOn do s.compareOrder t false (← s.reg t s.a) s.immediate
  | .gtI => goOn do s.compareOrder t true s.immediate (← s.reg t s.a)
  | .geI => goOn do s.compareOrder t false s.immediate (← s.reg t s.a)
  | .test => goOn do s.branch t (← s.reg t s.a).isTrue
  | .testSet => goOn do
    let v ← s.reg t s.b
    if v.isFalse == i.k then skip t
    else
      s.setReg t s.a v
      goto t ((s.pc : Int) + 2 + (s.p.instruction (s.pc + 1)).sj)
  | .call => goOn do callRegister host s t
  | .tailCall => tailCallRegister host s t
  | .ret => returnMany host s t
  | .ret0 => finish host t (s.base + s.a) 0
  | .ret1 => finish host t (s.base + s.a) 1
  | .forLoop => goOn do
    if ← advanceLoop t (s.base + s.a) then goto t ((s.pc : Int) + 1 - i.bx)
  | .forPrep => goOn do
    s.raiseTop t
    if ← prepareLoop t (s.base + s.a) then goto t (s.pc + 1 + i.bx + 1)
  | .tforPrep => goOn do
    markToClose t (s.base + s.a + 3)
    let pc := s.pc + 1 + i.bx
    goto t (pc + 1)
    s.callIterator t pc (s.p.instruction pc)
  | .tforCall => goOn do s.callIterator t s.pc i
  | .tforLoop => goOn do s.repeatGeneric t s.pc i
  | .setList => goOn do s.fillTable t
  | .closure => goOn do s.makeClosure t
  | .vararg => goOn do s.copyVarargs t
  | .varargPrep => goOn do
    s.adjustVarargs t
    if (← thread t).hook.active then
      callHook host t
      modifyThread t fun th => { th with lastPc := 1 }
  | .extraArg => return true

end Site

/-- Whether the next instruction is the one that arranges the arguments of a variadic function;
hooks begin behind it. -/
def atVarargPrep (t : ThreadId) : M Bool := do
  let f ← frame t
  match f.kind with
  | .script p _ => return f.pc == 0 && p.isVararg
  | .native => return false

/-- Carries out the next instruction, after the hooks for it. -/
def step (host : Host) (t : ThreadId) : M Bool := do
  if (← thread t).hook.active then
    if !(← atVarargPrep t) then traceInstruction host t
  match ← fetch t with
  | some s => s.perform host t
  | none => return false

/-- Repeats steps until the call that native code began has returned, within a budget. -/
def run (host : Host) (t : ThreadId) : Nat → M Unit
  | 0 => throw .exhausted
  | budget + 1 => do
    if ← step host t then run host t budget

/-! ## Interrupted instructions -/

/-- Finishes the instruction that was interrupted by a yield inside a handler; the handler's result
is on top of the stack. -/
def finishInstruction (t : ThreadId) : M Unit := do
  let f ← frame t
  match f.kind with
  | .native => return ()
  | .script p _ =>
    let base := f.func + 1
    let pc := f.currentPc
    let i := p.instruction pc
    match i.opcode with
    | .mmBin | .mmBinI | .mmBinK =>
      let v ← pop t
      setSlot t (base + (p.instruction (pc - 1)).a) v
    | .unm | .bnot | .len | .getTabUp | .getTable | .getI | .getField | .self =>
      let v ← pop t
      setSlot t (base + i.a) v
    | .lt | .le | .ltI | .leI | .gtI | .geI | .eq =>
      let v ← pop t
      let r := if f.negated then v.isFalse else v.isTrue
      modifyFrame t fun f => { f with negated := false }
      if r != i.k then modifyFrame t fun f => { f with pc := f.pc + 1 }
    | .concat =>
      let v ← pop t
      let newTop := (← top t)
      setSlot t (newTop - 2) v
      setTop t (newTop - 1)
      concatTop t (newTop - 1 - (base + i.a))
    | .close => modifyFrame t fun f => { f with pc }
    | .ret =>
      setTop t (base + i.a + f.resultCount)
      modifyFrame t fun f => { f with pc }
    | _ => return ()

end LuaHost.Machine
