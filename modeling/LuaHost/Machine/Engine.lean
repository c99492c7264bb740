import LuaHost.Machine.Execute
import LuaHost.Machine.Invoke

/-!
# The engine

Calls that native code begins, and resumptions of threads.  Both nest: a script may call native code
that calls a script.  The nesting is limited, and the engine is built by recursion on a bound above
that limit.
-/

namespace LuaHost.Machine

/-- How many instructions a call may execute: more than any run can. -/
def budget : Nat := 1 <<< 62

/-! ## Calls -/

/-- Calls the function in a slot, from native code. -/
def callFunction (host : Host) (t : ThreadId) (func : Nat) (wanted : Int) (yieldable : Bool) :
    M Unit := do
  enterNesting t yieldable
  if ← beginCall host t func wanted then
    modifyFrame t fun f => { f with fresh := true }
    enterScript host t
    run host t budget
  leaveNesting t yieldable

/-! ## Resuming -/

/-- Finishes an interruptible protected call: the status that its continuation is told. -/
def finishProtected (t : ThreadId) : M Status := do
  let f ← frame t
  let status ← match f.recovering with
    | .ok => pure Status.yield
    | s => do
      modifyThread t fun th => { th with hook := { th.hook with allowed := f.hooksAllowed } }
      closeFrom t f.protectedSlot (some s) true
      placeError t s f.protectedSlot
      shrinkStack t
      modifyFrame t fun f => { f with recovering := .ok }
      pure s
  modifyThread t fun th =>
    { th.modifyFrame fun f => { f with protectedCall := false } with handler := f.oldHandler }
  return status

/-- Finishes a native call that was interrupted, through its continuation. -/
def finishNative (host : Host) (t : ThreadId) : M Unit := do
  let f ← frame t
  let status ← if f.protectedCall then finishProtected t else pure .yield
  adjustResults t multipleResults
  let n ← match f.continuation with
    | some k => host.continue_ k t status f.context
    | none => pure 0
  finishCall host t n

/-- Goes on with the active calls of a thread until none is left; `fuel` bounds the native ones. -/
def unroll (host : Host) (t : ThreadId) : Nat → M Unit
  | 0 => throw .exhausted
  | fuel + 1 => do
    let th ← thread t
    if th.frames.size ≤ 1 then return ()
    if th.frame.isScript then
      finishInstruction t
      run host t budget
    else finishNative host t
    unroll host t fuel

/-- The work of a resumption. -/
def continueThread (host : Host) (t : ThreadId) (nargs : Nat) : M Unit := do
  let th ← thread t
  let first := th.top - nargs
  if th.status == .ok then
    if ← beginCall host t (first - 1) multipleResults then
      modifyFrame t fun f => { f with fresh := true }
      enterScript host t
      run host t budget
  else
    modifyThread t fun th => { th with status := .ok }
    let f ← frame t
    if f.isScript then
      modifyFrame t fun f => { f with pc := f.pc - 1 }
      setTop t first
      run host t budget
    else
      let n ← match f.continuation with
        | some k => host.continue_ k t .yield f.context
        | none => pure nargs
      finishCall host t n
    unroll host t budget

/-- Runs a section until it ends, fails or yields. -/
def untilYield (t : ThreadId) (body : M Unit) : M Status := do
  let th ← thread t
  let nesting := th.nesting
  let unyieldable := th.unyieldable
  let guards := th.guards
  tryCatch (protect t body) fun
    | .yield t' => do
      modifyThread t fun th => { th with nesting, unyieldable, guards }
      if t' = t then return .yield else throw (.yield t')
    | r => throw r

/-- The innermost active call that can recover from an error. -/
def findRecovery (fs : Array Frame) : Nat → Option Nat
  | 0 => none
  | n + 1 =>
    if (fs.getD n default).protectedCall then some n else findRecovery fs n

/-- After an error, goes on behind the innermost interruptible protected call; `fuel` bounds the
errors. -/
def recover (host : Host) (t : ThreadId) (status : Status) : Nat → M Status
  | 0 => return status
  | fuel + 1 => do
    if !status.isError then return status
    let frames := (← thread t).frames
    match findRecovery frames frames.size with
    | none => return status
    | some i =>
      modifyThread t fun th =>
        { th with frames := th.frames.take (i + 1) }
      modifyFrame t fun f => { f with recovering := status }
      let status ← untilYield t (unroll host t budget)
      recover host t status fuel

/-- Refuses a resumption: the message takes the place of the arguments. -/
def refuse (t : ThreadId) (msg : String) (nargs : Nat) : M (Status × Nat) := do
  drop t nargs
  pushText t msg
  return (.errRun, 0)

/-- Resumes a thread with the `nargs` topmost values of its stack.  A thread that has yet to begin
finds its function below them; one that has ended has none.  The answer is its status, and how many
values it has yielded or returned. -/
def resumeThread (host : Host) (t : ThreadId) (caller : Option ThreadId) (nargs : Nat) :
    M (Status × Nat) := do
  let th ← thread t
  if th.status == .ok && th.frames.size > 1 then
    refuse t "cannot resume non-suspended coroutine" nargs
  else if (th.status == .ok && th.height ≤ nargs) || (th.status != .ok && th.status != .yield) then
    refuse t "cannot resume dead coroutine" nargs
  else
    let nesting ← match caller with
      | some c => do pure (← thread c).nesting
      | none => pure 0
    modifyThread t fun th => { th with nesting, unyieldable := 0 }
    if nesting ≥ maxNesting then refuse t "C stack overflow" nargs
    else
      modifyThread t fun th => { th with nesting := nesting + 1 }
      let status ← untilYield t (continueThread host t nargs)
      let status ← recover host t status budget
      if status.isError then
        modifyThread t fun th => { th with status }
        placeError t status (← top t)
        modifyThread t fun th =>
          let n := th.top
          th.modifyFrame fun f => { f with top := n }
      let th ← thread t
      return (status, if status == .yield then th.frame.yieldCount else th.height)

/-! ## The knot -/

/-- The engine for a host, with a bound on the nesting of native calls. -/
def engine (host : Host) : Nat → Engine
  | 0 => { call := fun _ _ _ _ => throw .exhausted, resume := fun _ _ _ => throw .exhausted }
  | n + 1 =>
    let inner := engine host n
    { call := fun t func wanted yieldable => (callFunction host t func wanted yieldable).run inner
      resume := fun t caller nargs => (resumeThread host t caller nargs).run inner }

/-- More than native calls can nest. -/
def depth : Nat := 1000

/-- Runs a computation on a world, with a host. -/
def exec {α : Type} (host : Host) (x : M α) (w : World) : EStateM.Result Raise World α :=
  (x.run (engine host depth)).run w

end LuaHost.Machine
