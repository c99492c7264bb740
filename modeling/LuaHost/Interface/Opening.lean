import LuaHost.Interface.Embedding
import LuaHost.Machine.Engine
import LuaHost.Machine.Shutdown

/-!
# Opening and closing machines

A machine that is opened for the host owns a flag, which says whether it is still open and which safe
handles share.  Closing clears the flag first, so that handles that are dropped while finalizers run,
or later, leave the machine alone.
-/

namespace LuaHost.Interface

open Machine

/-- A machine with an empty table of globals. -/
def freshWorld : World :=
  let registry := ((Table.withRoom 2 0).setInt mainThreadPlace (.thread ⟨0⟩)).setInt globalsPlace
    (.table ⟨1⟩)
  { heap :=
      { tables := { items := #[some registry, some {}] }
        threads := { items := #[some { Thread.fresh with unyieldable := 1 }] } } }

/-- Opens a machine for the host: it gets the flag of handles, in which the machine and the registry
have a share. -/
def openMachine (libraries : Bool) : M Unit := do
  let t := (← get).mainThread
  log .debug ("opened lua state " ++ Value.addressText (Value.thread t).address)
  modify fun w => { w with liveness := some { alive := true, owners := 2 } }
  pushLightUserData t flagAddress
  setField t registryIndex aliveField
  if libraries then Library.openAll

/-- Closes a machine that was opened for the host. -/
def closeMachine : M Unit := do
  let t := (← get).mainThread
  log .debug ("closing lua state " ++ Value.addressText (Value.thread t).address)
  modify fun w => { w with liveness := w.liveness.map fun l => { l with alive := false } }
  shutDown
  -- the share of the registry, then that of the machine
  dropShare
  dropShare

end LuaHost.Interface
