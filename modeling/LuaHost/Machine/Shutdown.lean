import LuaHost.Machine.Collect

/-!
# Closing a machine
-/

namespace LuaHost.Machine

/-- Ends a machine: the main thread's calls are given up, its open variables are closed, and all
finalizers run. -/
def shutDown : M Unit := do
  let t := (← get).mainThread
  modifyThread t fun th => { th with frames := th.frames.take 1, handler := 0 }
  let _ ← closeProtected t 1 .ok
  setTop t 1
  finalizeAll t

end LuaHost.Machine
