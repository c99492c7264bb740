import LuaHost.Machine.Arithmetic

/-!
# Calls and returns

A call of a script function opens a frame for it; a call of a native function runs it at once.
Hooks are told of calls, returns, lines and counts.
-/

namespace LuaHost

/-- What a hook is told. -/
inductive HookEvent where
  | call | ret | line | count | tailCall
deriving DecidableEq, Inhabited

/-- The native code that a machine runs with: the bodies of native functions, which answer how many
results they left on top of the stack, their continuations, and the host's hook. -/
structure Host where
  native : Native → ThreadId → M Nat
  continue_ : Continuation → ThreadId → Status → Int → M Nat
  hook : HookFunction → ThreadId → HookEvent → Int → M Unit

namespace Machine

/-! ## Hooks -/

/-- Calls the hook for an event.  The hook cannot be interrupted by hooks, and finds the stack above
the running call. -/
def runHook (host : Host) (t : ThreadId) (event : HookEvent) (line : Int) (first count : Nat) :
    M Unit := do
  let th ← thread t
  match th.hook.function with
  | none => return ()
  | some fn =>
    if !th.hook.allowed then return ()
    let oldTop := th.top
    let frameTop := th.frame.top
    let isScript := th.frame.isScript
    let start := if isScript then max oldTop frameTop else oldTop
    setTop t start
    needStack t minStack
    modifyThread t fun th =>
      { th.modifyFrame fun f =>
          { f with
            top := max f.top (start + minStack)
            hooked := true
            transferFirst := first
            transferCount := count }
        with hook := { th.hook with allowed := false } }
    host.hook fn t event line
    modifyThread t fun th =>
      { th.modifyFrame fun f => { f with top := frameTop, hooked := false }
        with hook := { th.hook with allowed := true }, top := oldTop }

/-- The hook for the call of a script function. -/
def callHook (host : Host) (t : ThreadId) : M Unit := do
  modifyThread t fun th => { th with lastPc := 0 }
  let th ← thread t
  if th.hook.onCall then
    let f := th.frame
    let count := match f.kind with
      | .script p _ => p.parameters
      | .native => 0
    modifyFrame t fun f => { f with pc := f.pc + 1 }
    runHook host t (if f.tail then .tailCall else .call) (-1) 1 count
    modifyFrame t fun f => { f with pc := f.pc - 1 }

/-- The hook for a return with `n` results on top of the stack. -/
def returnHook (host : Host) (t : ThreadId) (n : Nat) : M Unit := do
  let th ← thread t
  if th.hook.onReturn then
    let f := th.frame
    let delta := match f.kind with
      | .script p _ => if p.isVararg then f.extraArgs + p.parameters + 1 else 0
      | .native => 0
    modifyFrame t fun f => { f with func := f.func + delta }
    runHook host t .ret (-1) (th.top - n - (f.func + delta)) n
    modifyFrame t fun f => { f with func := f.func - delta }
  let th ← thread t
  let f := th.previousFrame
  if f.isScript then modifyThread t fun th => { th with lastPc := f.pc - 1 }

/-- Whether an instruction uses the stack's top that the one before it left. -/
def usesTop (i : Instruction) : Bool :=
  match i.opcode with
  | .call | .tailCall | .ret | .setList | .varargPrep => i.b == 0
  | _ => false

/-- The hooks before an instruction: for its count, and for its line when it is a new one or when
the code went back. -/
def traceInstruction (host : Host) (t : ThreadId) : M Unit := do
  let th ← thread t
  let hook := th.hook
  if !hook.onLine && !hook.onCount then return ()
  let f := th.frame
  match f.kind with
  | .native => return ()
  | .script p _ =>
    let pc := f.pc
    modifyFrame t fun f => { f with pc := pc + 1 }
    let countdown := hook.countdown - 1
    let counted := hook.onCount && countdown == 0
    if hook.onCount then
      modifyThread t fun th =>
        { th with hook := { th.hook with countdown := if counted then hook.period else countdown } }
    if !counted && !hook.onLine then
      modifyFrame t fun f => { f with pc }
      return ()
    if f.hookYielded then
      modifyFrame t fun f => { f with pc, hookYielded := false }
      return ()
    if !usesTop (p.instruction pc) then setTop t f.top
    if counted then runHook host t .count (-1) 0 0
    if hook.onLine then
      let old := (← thread t).lastPc
      let old := if old < p.code.size then old else 0
      if pc ≤ old || (!p.lineSteps.isEmpty && p.lineOf old != p.lineOf pc) then
        runHook host t .line (p.lineOf pc) 0 0
      modifyThread t fun th => { th with lastPc := pc }
    if (← thread t).status == .yield then
      -- the frame keeps the instruction as begun; resuming takes that back
      if counted then
        modifyThread t fun th => { th with hook := { th.hook with countdown := 1 } }
      modifyFrame t fun f => { f with hookYielded := true }
      throw (.yield t)
    modifyFrame t fun f => { f with pc }

/-! ## Returns -/

/-- Moves `n` results from the top down to a slot, as many as are wanted. -/
def moveResults (t : ThreadId) (dst n : Nat) (wanted : Int) : M Unit :=
  modifyThread t fun th =>
    let src := th.top - n
    if wanted < 0 then (th.moveSlots src dst n).withTop (dst + n)
    else
      let k := wanted.toNat
      let m := min n k
      ((th.moveSlots src dst m).fillNil (dst + m) (k - m)).withTop (dst + k)

/-- Ends the running call: its `n` results take the place of the function. -/
def finishCall (host : Host) (t : ThreadId) (n : Nat) : M Unit := do
  if (← thread t).hook.active then returnHook host t n
  let f ← frame t
  let dst := f.func
  let wanted := f.wanted
  moveResults t dst n wanted
  modifyThread t (·.popFrame)

/-! ## Calls -/

/-- Puts the `__call` handler of a value under it, as the function to call. -/
def callByHandler (t : ThreadId) (func : Nat) : M Unit := do
  needStack t 1
  let v ← slot t func
  let h ← metaEvent v .call
  if h.isNil then callError t v (.slot func)
  modifyThread t fun th =>
    let vs := th.slots func (th.top - func)
    (th.putSlots func (h :: vs)).withTop (th.top + 1)

/-- Runs native code as the function in a slot, whose arguments are above it.  The code answers how
many results it left on top of the stack, beside an answer of its own. -/
def runNative {α : Type} (host : Host) (t : ThreadId) (func : Nat) (wanted : Int)
    (body : M (Nat × α)) : M (Nat × α) := do
  needStack t minStack
  modifyThread t fun th =>
    th.pushFrame { kind := .native, func, top := th.top + minStack, wanted }
  let th ← thread t
  if th.hook.onCall then runHook host t .call (-1) 1 (th.top - func - 1)
  let (n, a) ← body
  finishCall host t n
  return (n, a)

/-- Runs a native function whose arguments are above its slot: how many results it had. -/
def callNative (host : Host) (t : ThreadId) (func : Nat) (wanted : Int) (fn : Native) :
    M Nat := do
  let (n, ()) ← runNative host t func wanted (return (← host.native fn t, ()))
  return n

/-- Opens the frame of a script function whose arguments are above its slot. -/
def openScript (t : ThreadId) (func : Nat) (wanted : Int) (p : Prototype) (c : ClosureId) :
    M Unit := do
  needStack t p.maxStack
  modifyThread t fun th =>
    let narg := th.top - func - 1
    let missing := p.parameters - narg
    let th := (th.fillNil th.top missing).withTop (th.top + missing)
    th.pushFrame { kind := .script p c, func, top := func + 1 + p.maxStack, wanted }

/-- Begins the call of the function in a slot.  A native function is run to its end; for a script
function the answer is `true`, and its frame is left open.  `fuel` bounds the chain of `__call`
handlers. -/
def beginCallLoop (host : Host) (t : ThreadId) (func : Nat) (wanted : Int) : Nat → M Bool
  | 0 => runErrorText t "stack overflow"
  | fuel + 1 => do
    match ← slot t func with
    | .native fn =>
      let _ ← callNative host t func wanted fn
      return false
    | .closure c =>
      match ← closure c with
      | .native fn _ =>
        let _ ← callNative host t func wanted fn
        return false
      | .script p _ =>
        openScript t func wanted p c
        return true
    | _ =>
      callByHandler t func
      beginCallLoop host t func wanted fuel

def beginCall (host : Host) (t : ThreadId) (func : Nat) (wanted : Int) : M Bool :=
  beginCallLoop host t func wanted maxStack

/-- Tells hooks of the script function that is about to run; a variadic one does so later, when its
arguments are in place. -/
def enterScript (host : Host) (t : ThreadId) : M Unit := do
  if (← thread t).hook.active then
    match (← frame t).kind with
    | .script p _ => if !p.isVararg then callHook host t
    | .native => return ()

/-- Begins a call in place of the running script's own, with `narg` values from the function's slot
on; `delta` is how far the running function had been moved up.  The answer is `none` for a script
function, and otherwise the number of results of the native one. -/
def beginTailCallLoop (host : Host) (t : ThreadId) (func narg delta : Nat) :
    Nat → M (Option Nat)
  | 0 => runErrorText t "stack overflow"
  | fuel + 1 => do
    match ← slot t func with
    | .native fn => return some (← callNative host t func multipleResults fn)
    | .closure c =>
      match ← closure c with
      | .native fn _ => return some (← callNative host t func multipleResults fn)
      | .script p _ =>
        needStack t (p.maxStack - delta)
        modifyThread t fun th =>
          let dst := th.frame.func - delta
          let th := th.moveSlots func dst narg
          let missing := p.parameters + 1 - narg
          let th := th.fillNil (dst + narg) missing
          { th.modifyFrame fun f =>
              { f with
                kind := .script p c
                func := dst
                top := dst + 1 + p.maxStack
                pc := 0
                tail := true }
            with top := dst + narg + missing }
        return none
    | _ =>
      callByHandler t func
      beginTailCallLoop host t func (narg + 1) delta fuel

def beginTailCall (host : Host) (t : ThreadId) (func narg delta : Nat) : M (Option Nat) :=
  beginTailCallLoop host t func narg delta maxStack

/-! ## Nesting -/

/-- How deeply native calls may nest. -/
def maxNesting : Nat := 200

/-- Checks the nesting of native calls. -/
def checkNesting (t : ThreadId) : M Unit := do
  let n := (← thread t).nesting
  if n == maxNesting then runErrorText t "C stack overflow"
  else if n ≥ maxNesting / 10 * 11 then handlingError t

/-- Enters a native call. -/
def enterNesting (t : ThreadId) (yieldable : Bool) : M Unit := do
  modifyThread t fun th =>
    { th with
      nesting := th.nesting + 1
      unyieldable := if yieldable then th.unyieldable else th.unyieldable + 1 }
  if (← thread t).nesting ≥ maxNesting then
    needStack t 0
    checkNesting t

def leaveNesting (t : ThreadId) (yieldable : Bool) : M Unit :=
  modifyThread t fun th =>
    { th with
      nesting := th.nesting - 1
      unyieldable := if yieldable then th.unyieldable else th.unyieldable - 1 }

end Machine

end LuaHost
