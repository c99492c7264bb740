import LuaHost.Machine.Protect
import LuaHost.Machine.Reach

/-!
# The collector

A cycle frees the objects that cannot be reached.  Those among them that were given a finalizer are
kept until it has run, in the reverse order of the marking.
-/

namespace LuaHost.Machine

/-! ## Marking objects for finalization -/

/-- Whether an object is noted: its finalizer has yet to be called. -/
def Collector.noted (c : Collector) (v : Value) : Bool :=
  c.finalizable.contains v || c.pending.contains v

/-- Notes that an object has a finalizer, if its new metatable has one; an object that is noted
already stays where it is, and while the machine closes nothing is noted. -/
def noteFinalizer (v : Value) (mt : TableId) : M Unit := do
  let w ← get
  if w.collector.closing || Collector.noted w.collector v then return ()
  let h := (← table mt).getStr Event.gc.field
  if !h.isNil then
    modifyCollector fun c => { c with finalizable := v :: c.finalizable }

/-! ## Finalizers -/

/-- Runs the finalizer of an object, in the running call; an error becomes a warning. -/
def finalize (t : ThreadId) (v : Value) : M Unit := do
  let h ← metaEvent v .gc
  if h.isNil then return ()
  let th ← thread t
  let hooksAllowed := th.hook.allowed
  let base := th.top
  let busy := (← get).collector.busy
  modifyCollector fun c => { c with busy := true }
  modifyThread t fun th =>
    { ((th.push h).push v).modifyFrame fun f => { f with finalizer := true }
      with hook := { th.hook with allowed := false } }
  let engine ← read
  let status ← runProtected t base 0 (engine.call t base 0 false)
  modifyThread t fun th =>
    { th.modifyFrame fun f => { f with finalizer := false }
      with hook := { th.hook with allowed := hooksAllowed } }
  modifyCollector fun c => { c with busy }
  if status != .ok then
    warnOfError t "__gc"
    drop t 1

/-- Runs the finalizers that are due; `fuel` bounds them by their number at the start, to which a
finalizer may add while the machine is not closing. -/
def finalizePending (t : ThreadId) : Nat → M Unit
  | 0 => return ()
  | fuel + 1 => do
    match (← get).collector.pending with
    | [] => return ()
    | v :: rest =>
      modifyCollector fun c => { c with pending := rest }
      finalize t v
      finalizePending t fuel

/-! ## Cycles -/

/-- The objects from which everything else is reached. -/
def roots (w : World) (running : ThreadId) : List ObjectId :=
  [.thread w.mainThread, .table w.registry, .thread running]
    ++ w.kindMetatables.map (.table ·.2)
    ++ w.collector.pending.filterMap Value.object?

/-- One whole cycle on a world: dead objects with finalizers become due, other dead ones go. -/
def cycle (w : World) (running : ThreadId) : World :=
  let h := w.heap
  let m := h.reach (.none h) (roots w running)
  let h := h.clearValues m
  let (kept, due) := w.collector.finalizable.partition m.keeps
  let m := h.reach m (due.filterMap Value.object?)
  let h := (h.clearKeys m).clearValues m
  let h := h.sweep m
  { w with
    heap := h
    collector := { w.collector with
      finalizable := kept
      pending := w.collector.pending ++ due
      allocated := 0
      survivors := h.population } }

/-- A whole cycle, and the finalizers that it made due. -/
def collect (t : ThreadId) : M Unit := do
  modify fun w => cycle w t
  finalizePending t ((← get).collector.pending.length)

/-- How many objects may be created between cycles that run by themselves. -/
def allowance (c : Collector) : Nat := 1000 + c.survivors * c.pause / 100

/-- Runs a cycle when enough objects were created since the last one. -/
def collectIfDue (t : ThreadId) : M Unit := do
  let c := (← get).collector
  if !c.stopped && !c.busy && !c.closing && c.allocated > allowance c then collect t

/-- Runs all finalizers, when the machine closes.  From here on no object gets a finalizer. -/
def finalizeAll (t : ThreadId) : M Unit := do
  modifyCollector fun c =>
    { c with closing := true, pending := c.pending ++ c.finalizable, finalizable := [] }
  finalizePending t ((← get).collector.pending.length)

end LuaHost.Machine
