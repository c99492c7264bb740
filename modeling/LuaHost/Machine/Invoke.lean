import LuaHost.Machine.Calling
import LuaHost.Machine.Protect

/-!
# Calls that native code makes

Native code calls the function under its arguments on top of the stack.  In a thread that may yield
it can name a continuation, which takes over if the call is interrupted.
-/

namespace LuaHost.Machine

/-- Whether the running call may yield. -/
def yieldable (t : ThreadId) : M Bool := return (← thread t).unyieldable == 0

/-- After a call for all results: the frame reaches up to the top. -/
def adjustResults (t : ThreadId) (wanted : Int) : M Unit := do
  if wanted < 0 then
    modifyThread t fun th =>
      let n := th.top
      th.modifyFrame fun f => if f.top < n then { f with top := n } else f

/-- The slot of the function under `nargs` arguments. -/
def functionSlot (t : ThreadId) (nargs : Nat) : M Nat := return (← top t) - (nargs + 1)

/-- Calls the function under `nargs` arguments. -/
def call (t : ThreadId) (nargs : Nat) (wanted : Int) : M Unit := do
  (← read).call t (← functionSlot t nargs) wanted false
  adjustResults t wanted

/-- Calls the function under `nargs` arguments; `k` goes on when the call is interrupted. -/
def callWith (t : ThreadId) (nargs : Nat) (wanted : Int) (k : Continuation) (context : Int) :
    M Unit := do
  let i ← functionSlot t nargs
  if ← yieldable t then
    modifyFrame t fun f => { f with continuation := some k, context }
    (← read).call t i wanted true
  else (← read).call t i wanted false
  adjustResults t wanted

/-- Calls the function under `nargs` arguments under protection.  `handler` is the index of the
message handler, or zero. -/
def protectedCall (t : ThreadId) (nargs : Nat) (wanted : Int) (handler : Int) : M Status := do
  let h ← if handler == 0 then pure 0 else
    match ← place t handler with
    | .slot i => pure i
    | _ => pure 0
  let i ← functionSlot t nargs
  let engine ← read
  let status ← runProtected t i h (engine.call t i wanted false)
  adjustResults t wanted
  return status

/-- Like `protectedCall`, but in a thread that may yield the section can be interrupted, and `k`
goes on afterwards. -/
def protectedCallWith (t : ThreadId) (nargs : Nat) (wanted : Int) (handler : Int)
    (k : Continuation) (context : Int) : M Status := do
  if !(← yieldable t) then protectedCall t nargs wanted handler
  else
    let h ← if handler == 0 then pure 0 else
      match ← place t handler with
      | .slot i => pure i
      | _ => pure 0
    let i ← functionSlot t nargs
    modifyThread t fun th =>
      let oldHandler := th.handler
      let hooksAllowed := th.hook.allowed
      { th.modifyFrame fun f =>
          { f with
            continuation := some k
            context
            protectedSlot := i
            oldHandler
            hooksAllowed
            protectedCall := true }
        with handler := h }
    (← read).call t i wanted true
    modifyThread t fun th =>
      let handler := th.frame.oldHandler
      { th.modifyFrame fun f => { f with protectedCall := false } with handler }
    adjustResults t wanted
    return .ok

/-- Yields the `n` topmost values.  In a hook the yield takes effect when the hook has returned. -/
def yieldValues (t : ThreadId) (n : Nat) (k : Option Continuation) (context : Int) : M Nat := do
  if !(← yieldable t) then
    if t == (← get).mainThread then
      runErrorText t "attempt to yield from outside a coroutine"
    else runErrorText t "attempt to yield across a C-call boundary"
  let inHook := (← frame t).isScript
  modifyThread t fun th =>
    { th.modifyFrame fun f => { f with yieldCount := n } with status := .yield }
  if inHook then return 0
  modifyFrame t fun f =>
    { f with continuation := k, context := if k.isSome then context else f.context }
  throw (.yield t)

/-! ## New threads -/

/-- Creates a thread with the hooks of another one, and the main thread's extra space; it is
pushed. -/
def pushNewThread (t : ThreadId) : M ThreadId := do
  let hook := (← thread t).hook
  let extraSpace := (← thread (← get).mainThread).extraSpace
  let id ← newThread
    { Thread.fresh with hook := { hook with countdown := hook.period, allowed := true }, extraSpace }
  push t (.thread id)
  return id

end LuaHost.Machine
