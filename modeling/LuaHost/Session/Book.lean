import LuaHost.Session.Answer

/-!
# The book of a session

A session names the handles that it holds, and numbers the threads in the order in which it meets
them; the main thread is the first.
-/

namespace LuaHost.Session

structure Book where
  threads : List ThreadId := [⟨0⟩]
  /-- Handles by name, in the order of the names. -/
  handles : List (String × Handle) := []
deriving Inhabited

namespace Book

def thread (b : Book) (n : Nat) : ThreadId := b.threads.getD n ⟨0⟩

/-- Puts a handle under a name, in place of an older one. -/
def insertHandle (name : String) (h : Handle) : List (String × Handle) → List (String × Handle)
  | [] => [(name, h)]
  | (name', h') :: rest =>
    match compare name name' with
    | .lt => (name, h) :: (name', h') :: rest
    | .eq => (name, h) :: rest
    | .gt => (name', h') :: insertHandle name h rest

def handle? (b : Book) (name : String) : Option Handle := b.handles.lookup name

def setHandle (b : Book) (name : String) (h : Handle) : Book :=
  { b with handles := insertHandle name h b.handles }

def eraseHandle (b : Book) (name : String) : Book :=
  { b with handles := b.handles.filter (·.1 != name) }

/-- The number of a thread, which is met now if it was not before. -/
def meet (b : Book) (t : ThreadId) : Nat × Book :=
  match b.threads.findIdx? (· == t) with
  | some i => (i, b)
  | none => (b.threads.length, { b with threads := b.threads ++ [t] })

end Book

/-- What a step does: it acts on the machine and writes to the book. -/
abbrev Act := StateT Book M

namespace Act

/-- The number of a thread. -/
def number (t : ThreadId) : Act Nat := modifyGet (·.meet t)

def answerThread (t : ThreadId) : Act Answer := return .number (← number t)

def answerThread? : Option ThreadId → Act Answer
  | some t => answerThread t
  | none => return .nothing

/-- Keeps a handle under a name; what the name stood for is dropped. -/
def keep (name : String) (h : Handle) : Act Unit := do
  let old := (← get).handle? name
  modify (·.setHandle name h)
  if let some o := old then o.drop

/-- Keeps a new handle, and answers it. -/
def keepNew (name : String) (h : Handle) : Act Answer := do
  keep name h
  return .handle h

/-- Forgets a name. -/
def forget (name : String) : Act Unit := modify (·.eraseHandle name)

end Act

end LuaHost.Session
