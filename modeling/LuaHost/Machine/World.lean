import LuaHost.Chunk.Prototype
import LuaHost.Machine.Table
import LuaHost.UserData.HostValue

/-!
# The state of a machine

Everything that a running machine consists of: the heap with its tables, closures, variables shared
by closures, userdata and threads; the registry; the collector's bookkeeping; and what the outside
can see (files, output, log, events).
-/

namespace LuaHost

/-! ## Closures -/

inductive Closure where
  | script (p : Prototype) (upvalues : Array UpvalueId)
  | native (f : Native) (upvalues : Array Value)
deriving Inhabited

/-- A variable that closures share: in a thread's stack while its block runs, by itself after. -/
inductive Upvalue where
  | opened (thread : ThreadId) (slot : Nat)
  | closed (v : Value)

instance : Inhabited Upvalue := ⟨.closed .nil⟩

/-! ## Userdata -/

inductive StreamTarget where
  | stdin | stdout | stderr
  | file (name : String)
deriving DecidableEq, Inhabited

/-- A file handle of the input and output library. -/
structure Stream where
  target : StreamTarget
  position : Nat := 0
  readable : Bool := true
  writable : Bool := true
  append : Bool := false
  closed : Bool := false
  /-- Standard streams cannot be closed by scripts. -/
  standard : Bool := false
deriving Inhabited

inductive Payload where
  | block (b : Block)
  | stream (s : Stream)
  | raw (size : Nat)

instance : Inhabited Payload := ⟨.raw 0⟩

structure UserData where
  payload : Payload
  metatable : Option TableId := none
  userValues : Array Value := #[]
deriving Inhabited

/-! ## Threads -/

inductive FrameKind where
  | script (p : Prototype) (c : ClosureId)
  | native

instance : Inhabited FrameKind := ⟨.native⟩

/-- An active call. -/
structure Frame where
  kind : FrameKind := .native
  /-- The stack slot of the called function. -/
  func : Nat
  /-- The slots up to here belong to the call. -/
  top : Nat
  /-- How many results the caller wants; −1 for all. -/
  wanted : Int := 0
  /-- The next instruction. -/
  pc : Nat := 0
  /-- Arguments beyond the parameters of a variadic function. -/
  extraArgs : Nat := 0
  /-- Whether the execution of this call was begun by native code. -/
  fresh : Bool := false
  /-- Whether the call is running a hook. -/
  hooked : Bool := false
  /-- Whether the call is a protected one that may be interrupted. -/
  protectedCall : Bool := false
  tail : Bool := false
  /-- Whether the last hook yielded. -/
  hookYielded : Bool := false
  /-- Whether the call is running a finalizer. -/
  finalizer : Bool := false
  /-- Whether the call is closing variables while it returns. -/
  closingReturn : Bool := false
  /-- Whether a comparison is asking for the opposite of what it needs. -/
  negated : Bool := false
  /-- Whether hooks were allowed when the protected call began. -/
  hooksAllowed : Bool := true
  /-- The status that a protected call is recovering from. -/
  recovering : Status := .ok
  continuation : Option Continuation := none
  context : Int := 0
  /-- The message handler to restore after a protected call. -/
  oldHandler : Nat := 0
  /-- The slot of the function that the protected call runs. -/
  protectedSlot : Nat := 0
  /-- The number of results while variables are closed on return. -/
  resultCount : Nat := 0
  /-- The number of values yielded. -/
  yieldCount : Nat := 0
  transferFirst : Nat := 0
  transferCount : Nat := 0
deriving Inhabited

inductive HookFunction where
  /-- The function that a script has set. -/
  | script
  /-- The host's own hook. -/
  | host
deriving DecidableEq, Inhabited

structure Hook where
  function : Option HookFunction := none
  onCall : Bool := false
  onReturn : Bool := false
  onLine : Bool := false
  onCount : Bool := false
  period : Nat := 0
  countdown : Nat := 0
  allowed : Bool := true
deriving Inhabited

def Hook.active (h : Hook) : Bool := h.onCall || h.onReturn || h.onLine || h.onCount

structure Thread where
  stack : Array Value := #[]
  /-- The first free slot. -/
  top : Nat := 0
  /-- How many slots the stack has been given. -/
  room : Nat := 40
  /-- The active calls, innermost last; the first one is the base level. -/
  frames : Array Frame := #[]
  status : Status := .ok
  /-- Shared variables that still live in the stack, highest slot first. -/
  openUpvalues : List UpvalueId := []
  /-- Slots of variables to be closed, highest first. -/
  toClose : List Nat := []
  /-- The nesting of native calls. -/
  nesting : Nat := 0
  /-- How many of them cannot be yielded across. -/
  unyieldable : Nat := 0
  /-- The slot of the message handler; zero for none. -/
  handler : Nat := 0
  /-- How many enclosing protected sections run on this thread. -/
  guards : Nat := 0
  hook : Hook := {}
  /-- The instruction that the last line event was for. -/
  lastPc : Nat := 0
  extraSpace : UInt64 := 0
deriving Inhabited

namespace Thread

/-- The innermost call. -/
def frame (t : Thread) : Frame := t.frames.back?.getD { func := 0, top := 0 }

end Thread

/-! ## The heap -/

/-- Objects of one sort, by number; a collected object leaves its number behind. -/
structure Store (α : Type) where
  items : Array (Option α) := #[]

namespace Store

variable {α : Type}

instance : Inhabited (Store α) := ⟨{}⟩

def find? (s : Store α) (i : Nat) : Option α := (s.items[i]?).join

def get [Inhabited α] (s : Store α) (i : Nat) : α := (s.find? i).getD default

def live (s : Store α) (i : Nat) : Bool := (s.find? i).isSome

/-- The number of the next object. -/
def next (s : Store α) : Nat := s.items.size

def push (s : Store α) (x : α) : Store α := { s with items := s.items.push (some x) }

@[inline] def modify (s : Store α) (i : Nat) (f : α → α) : Store α :=
  { s with items := s.items.modify i fun
    | some x => some (f x)
    | none => none }

def free (s : Store α) (i : Nat) : Store α := { s with items := s.items.set! i none }

end Store

structure Heap where
  tables : Store Table := {}
  closures : Store Closure := {}
  upvalues : Store Upvalue := {}
  userdata : Store UserData := {}
  threads : Store Thread := {}
deriving Inhabited

/-! ## The collector -/

structure Collector where
  /-- Stopped by a request. -/
  stopped : Bool := false
  /-- Whether a finalizer is running, which keeps the collector from starting again. -/
  busy : Bool := false
  /-- Whether the machine is closing. -/
  closing : Bool := false
  pause : Nat := 200
  stepMultiplier : Nat := 100
  generational : Bool := false
  /-- Objects with a finalizer, the most recently marked first. -/
  finalizable : List Value := []
  /-- Objects whose finalizer is due, in the order of the calls. -/
  pending : List Value := []
  /-- Objects created since the last cycle. -/
  allocated : Nat := 0
  /-- Objects left by the last cycle. -/
  survivors : Nat := 0
deriving Inhabited

/-! ## What the outside sees -/

inductive LogLevel where
  | trace | debug | warn
deriving DecidableEq, Inhabited

structure LogRecord where
  level : LogLevel
  message : String
deriving DecidableEq, Inhabited

inductive Warnings where
  | off | on | continuing
deriving DecidableEq, Inhabited

/-- When what scripts write to the standard output is handed on: at once, line by line, or block by
block. -/
inductive Buffering where
  | none | line | full
deriving DecidableEq, Inhabited

/-- Files and streams around the machine.  Scripts have buffers of their own between them and the
standard streams. -/
structure Outside where
  files : List (String × Bytes) := []
  environment : List (String × String) := []
  /-- What of the standard input nobody has taken yet. -/
  input : Bytes := ByteArray.empty
  /-- What has been taken for scripts, and they have not read yet. -/
  ahead : Bytes := ByteArray.empty
  output : Bytes := ByteArray.empty
  /-- What scripts have written to the standard output, and is not handed on yet. -/
  held : Bytes := ByteArray.empty
  buffering : Buffering := .full
  errors : Bytes := ByteArray.empty
deriving Inhabited

/-- The flag by which handles learn that their machine was closed: shared by the machine, by the
registry and by every safe handle. -/
structure Liveness where
  alive : Bool := true
  owners : Nat := 0
deriving DecidableEq, Inhabited

structure World where
  heap : Heap := {}
  registry : TableId := ⟨0⟩
  mainThread : ThreadId := ⟨0⟩
  /-- The metatables of the basic types. -/
  kindMetatables : List (Kind × TableId) := []
  collector : Collector := {}
  warnings : Warnings := .off
  outside : Outside := {}
  liveness : Option Liveness := none
  random : UInt64 × UInt64 × UInt64 × UInt64 := (0, 0, 0, 0)
  /-- Log records, the latest first. -/
  log : List LogRecord := []
  /-- Events recorded by host code, the latest first. -/
  events : List String := []
deriving Inhabited

/-! ## Leaving the normal course -/

/-- What a host panic carries. -/
inductive PanicPayload where
  | text (s : String)
  /-- Something that is not a text. -/
  | other
deriving DecidableEq, Inhabited

/-- The ways to leave the normal course of a computation. -/
inductive Raise where
  /-- An error, caught by the innermost protected section of a thread; the error object is on top of
  that thread's stack. -/
  | error (thread : ThreadId) (status : Status)
  /-- A thread yields. -/
  | yield (thread : ThreadId)
  | panic (payload : PanicPayload)
  /-- The program asks to end. -/
  | exit (code : Nat)
  /-- The step budget is used up. -/
  | exhausted
deriving DecidableEq, Inhabited

/-- Computations on the machine without access to its engine. -/
abbrev Raw := EStateM Raise World

/-- What native code needs of the engine that runs it: calls and resumptions. -/
structure Engine where
  /-- Calls the function in a stack slot of a thread, with the values above it, for a number of
  results; `yieldable` tells whether the callee may yield. -/
  call : (t : ThreadId) → (func : Nat) → (wanted : Int) → (yieldable : Bool) → Raw Unit
  /-- Resumes a thread with a number of arguments, on behalf of another one. -/
  resume : (t : ThreadId) → (from? : Option ThreadId) → (nargs : Nat) → Raw (Status × Nat)

/-- Computations on the machine. -/
abbrev M := ReaderT Engine Raw

namespace Machine

/-! ## Access -/

@[inline] def thread (t : ThreadId) : M Thread := return (← get).heap.threads.get t.index

@[inline] def modifyThread (t : ThreadId) (f : Thread → Thread) : M Unit :=
  modify fun w => { w with heap := { w.heap with threads := w.heap.threads.modify t.index f } }

@[inline] def table (t : TableId) : M Table := return (← get).heap.tables.get t.index

@[inline] def modifyTable (t : TableId) (f : Table → Table) : M Unit :=
  modify fun w => { w with heap := { w.heap with tables := w.heap.tables.modify t.index f } }

@[inline] def closure (c : ClosureId) : M Closure := return (← get).heap.closures.get c.index

@[inline] def modifyClosure (c : ClosureId) (f : Closure → Closure) : M Unit :=
  modify fun w => { w with heap := { w.heap with closures := w.heap.closures.modify c.index f } }

@[inline] def upvalue (u : UpvalueId) : M Upvalue := return (← get).heap.upvalues.get u.index

@[inline] def modifyUpvalue (u : UpvalueId) (f : Upvalue → Upvalue) : M Unit :=
  modify fun w => { w with heap := { w.heap with upvalues := w.heap.upvalues.modify u.index f } }

@[inline] def userdata (u : UserDataId) : M UserData := return (← get).heap.userdata.get u.index

@[inline] def modifyUserdata (u : UserDataId) (f : UserData → UserData) : M Unit :=
  modify fun w => { w with heap := { w.heap with userdata := w.heap.userdata.modify u.index f } }

@[inline] def modifyCollector (f : Collector → Collector) : M Unit :=
  modify fun w => { w with collector := f w.collector }

@[inline] def modifyOutside (f : Outside → Outside) : M Unit :=
  modify fun w => { w with outside := f w.outside }

/-! ## New objects -/

def countAllocation : M Unit :=
  modifyCollector fun c => { c with allocated := c.allocated + 1 }

def newTable (t : Table) : M TableId := do
  let i := (← get).heap.tables.next
  modify fun w => { w with heap := { w.heap with tables := w.heap.tables.push t } }
  countAllocation
  return ⟨i⟩

def newClosure (c : Closure) : M ClosureId := do
  let i := (← get).heap.closures.next
  modify fun w => { w with heap := { w.heap with closures := w.heap.closures.push c } }
  countAllocation
  return ⟨i⟩

def newUpvalue (u : Upvalue) : M UpvalueId := do
  let i := (← get).heap.upvalues.next
  modify fun w => { w with heap := { w.heap with upvalues := w.heap.upvalues.push u } }
  return ⟨i⟩

def newUserdata (u : UserData) : M UserDataId := do
  let i := (← get).heap.userdata.next
  modify fun w => { w with heap := { w.heap with userdata := w.heap.userdata.push u } }
  countAllocation
  return ⟨i⟩

def newThread (t : Thread) : M ThreadId := do
  let i := (← get).heap.threads.next
  modify fun w => { w with heap := { w.heap with threads := w.heap.threads.push t } }
  countAllocation
  return ⟨i⟩

/-! ## Log, events and panics -/

def log (level : LogLevel) (message : String) : M Unit :=
  modify fun w => { w with log := ⟨level, message⟩ :: w.log }

def recordEvent (s : String) : M Unit :=
  modify fun w => { w with events := s :: w.events }

/-- Ends the running host code with a panic. -/
def panic {α : Type} (s : String) : M α := throw (.panic (.text s))

end Machine

end LuaHost
