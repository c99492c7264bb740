import LuaHost.Interface.Opening
import LuaHost.Session.CodeSteps
import LuaHost.Session.HandleSteps
import LuaHost.Session.ValueSteps
import LuaHost.Stock.Host

/-!
# Running a session

A session drives one machine by steps.  Each step runs in a native frame of its own on the main
thread, under protection: it finds the values of the main stack there, and what it leaves becomes the
main stack.  An error restores the main stack; after a panic the stack stays as the panic left it.
-/

namespace LuaHost

namespace Interface

open Machine

/-- Runs host code in a native frame of its own on the main thread, under protection. -/
def inFrame {α : Type} (host : Host) (body : M α) : M (Except (Status × Value) α) := do
  let t := (← get).mainThread
  let n ← height t
  let func ← Machine.top t
  let values := (← thread t).values
  push t (.native .frame)
  pushAll t values
  let answer ← attemptFrom t func 0 do
    enterNesting t false
    let (_, a) ← runNative host t func multipleResults do
      let a ← body
      return (← height t, a)
    leaveNesting t false
    return a
  match answer with
  | .ok a =>
    let results := (← thread t).values.drop n
    drop t (n + results.length)
    pushAll t results
    adjustResults t multipleResults
    return .ok a
  | .error s =>
    let v ← Machine.pop t
    return .error (s, v)

end Interface

namespace Session

open Interface

/-! ## Steps -/

inductive Step where
  | stack (s : StackStep)
  | push (s : PushStep)
  | query (s : QueryStep)
  | table (s : TableStep)
  | function (s : FunctionStep)
  | userData (s : UserDataStep)
  | execution (s : ExecutionStep)
  | inspection (s : InspectionStep)
  | collector (s : CollectorStep)
  | create (name : String) (s : CreateStep)
  | handle (name : String) (s : HandleStep)
  | close
  | unknown

def runOn (t : ThreadId) : Step → Act Answer
  | .stack s => runStack t s
  | .push s => runPush t s
  | .query s => runQuery t s
  | .table s => runTable t s
  | .function s => runFunctionStep t s
  | .userData s => runUserData t s
  | .execution s => runExecution t s
  | .inspection s => runInspection t s
  | .collector s => runCollector t s
  | .create name s => do Act.keepNew name (← createHandle t s)
  | .handle name s => runHandle t name s
  | .close => return .refused .notOpen
  | .unknown => return .refused .unknownStep

/-- A step with the thread that it is for, and the thread whose stack is to be shown. -/
structure Request where
  step : Step
  thread : Nat := 0
  shown : Nat := 0

/-! ## Sessions -/

end Session

structure Session where
  world : World
  book : Session.Book := {}
  /-- Whether the machine was opened for the host, and not bare. -/
  owned : Bool := true
  closed : Bool := false

namespace Session

open Interface

/-- What a step, or the end of a session, has brought about. -/
structure Report where
  answer : Answer
  /-- The height of the stack shown, and its topmost values. -/
  stack : Option (Nat × List Value) := none
  events : List String := []
  log : List LogRecord := []

/-- How many values of a stack are shown. -/
def shownValues : Nat := 8

/-- Runs code of the host outside of all steps; how it ends does not matter. -/
def execute (s : Session) (x : M Unit) : Session :=
  match Machine.exec Stock.host x s.world with
  | .ok _ w => { s with world := w }
  | .error _ w => { s with world := w }

/-- Begins a session. -/
def start (libraries bare collecting : Bool) : Session :=
  let s : Session := { world := freshWorld, owned := !bare }
  s.execute do
    if bare then
      if libraries then Library.openAll
    else openMachine libraries
    if !collecting then stopCollector

/-- Carries a step out on the machine, with the book as it is then. -/
def act (host : Host) (b : Book) (r : Request) : M (Answer × Book) := do
  let body : M (Answer × Book) := tryCatch ((runOn (b.thread r.thread) r.step).run b) fun
    | .panic p => return (.panicked (panicText p), b)
    | e => throw e
  match ← inFrame host body with
  | .ok a => return a
  | .error (s, v) => return (.raised s v, b)

/-- The stack of a thread as it is shown; of one that has failed it is not. -/
def stackShown (s : Session) (n : Nat) : Option (Nat × List Value) :=
  let th := s.world.heap.threads.get (s.book.thread n).index
  if s.closed || th.status.isError then none
  else
    let k := min th.height shownValues
    some (th.height, th.slots (th.top - k) k)

/-- Takes the events and the log out of the machine, for a report. -/
def report (s : Session) (a : Answer) (shown : Option Nat) : Report × Session :=
  ({ answer := a
     stack := shown.bind s.stackShown
     events := s.world.events.reverse
     log := s.world.log.reverse },
    { s with world := { s.world with events := [], log := [] } })

/-- Closes the machine. -/
def close (s : Session) : Session :=
  let s := s.execute (if s.owned then closeMachine else Machine.shutDown)
  { s with closed := true }

/-- What a closed session does: handles can still be dropped. -/
def runClosed (s : Session) (r : Request) : Answer × Session :=
  match r.step with
  | .close => (.refused .notOpen, s)
  | .handle name step =>
    match step, s.book.handle? name with
    | .drop, none | .leak, none => (.refused .noSuchHandle, s)
    | .drop, some h => (.nothing, { s with book := s.book.eraseHandle name }.execute h.drop)
    | .leak, some _ => (.nothing, { s with book := s.book.eraseHandle name })
    | _, _ => (.refused .closed, s)
  | _ => (.refused .closed, s)

/-- What an open session does. -/
def runOpen (s : Session) (r : Request) : Answer × Session :=
  match r.step with
  | .close => if s.owned then (.nothing, s.close) else (.refused .notOpen, s)
  | _ =>
    match Machine.exec Stock.host (act Stock.host s.book r) s.world with
    | .ok (a, b) w => (a, { s with world := w, book := b })
    | .error _ w => (.refused .closed, { s with world := w, closed := true })

def run (s : Session) (r : Request) : Report × Session :=
  let (a, s) := if s.closed then s.runClosed r else s.runOpen r
  s.report a (some r.shown)

/-- Ends a session: the handles that are left are dropped in the order of their names, and the
machine is closed. -/
def finish (s : Session) : Report :=
  let s := s.book.handles.foldl (fun s (_, h) => s.execute h.drop) s
  let s := if s.closed then s else s.close
  (s.report .nothing none).1

end Session

end LuaHost
