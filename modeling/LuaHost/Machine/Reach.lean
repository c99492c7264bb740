import LuaHost.Machine.World

/-!
# What is reachable

Objects keep others alive through what they hold.  Tables whose metatable says so hold their keys or
their values weakly; a table with weak keys keeps a value alive as long as its key is reachable in
another way.
-/

namespace LuaHost

/-- An object of the heap. -/
inductive ObjectId where
  | table (t : TableId)
  | closure (c : ClosureId)
  | upvalue (u : UpvalueId)
  | userdata (u : UserDataId)
  | thread (t : ThreadId)
deriving DecidableEq, Inhabited

/-- The object that a value denotes. -/
def Value.object? : Value → Option ObjectId
  | table t => some (.table t)
  | closure c => some (.closure c)
  | userdata u => some (.userdata u)
  | thread t => some (.thread t)
  | _ => none

/-! ## Marks -/

/-- A set of objects. -/
structure Marks where
  tables : Array Bool
  closures : Array Bool
  upvalues : Array Bool
  userdata : Array Bool
  threads : Array Bool
deriving Inhabited

namespace Marks

/-- No object of a heap. -/
def none (h : Heap) : Marks :=
  { tables := Array.replicate h.tables.next false
    closures := Array.replicate h.closures.next false
    upvalues := Array.replicate h.upvalues.next false
    userdata := Array.replicate h.userdata.next false
    threads := Array.replicate h.threads.next false }

def has (m : Marks) : ObjectId → Bool
  | .table t => m.tables.getD t.index false
  | .closure c => m.closures.getD c.index false
  | .upvalue u => m.upvalues.getD u.index false
  | .userdata u => m.userdata.getD u.index false
  | .thread t => m.threads.getD t.index false

def add (m : Marks) : ObjectId → Marks
  | .table t => { m with tables := m.tables.setIfInBounds t.index true }
  | .closure c => { m with closures := m.closures.setIfInBounds c.index true }
  | .upvalue u => { m with upvalues := m.upvalues.setIfInBounds u.index true }
  | .userdata u => { m with userdata := m.userdata.setIfInBounds u.index true }
  | .thread t => { m with threads := m.threads.setIfInBounds t.index true }

/-- Whether a value stays: it is no object, or a marked one. -/
def keeps (m : Marks) (v : Value) : Bool :=
  match v.object? with
  | some o => m.has o
  | Option.none => true

/-- Marks an object, and puts it on a worklist if it was not marked before. -/
def visit (acc : Marks × List ObjectId) (o : ObjectId) : Marks × List ObjectId :=
  if acc.1.has o then acc else (acc.1.add o, o :: acc.2)

end Marks

namespace Heap

def size (h : Heap) : Nat :=
  h.tables.next + h.closures.next + h.upvalues.next + h.userdata.next + h.threads.next

/-! ## Weak tables -/

inductive Weakness where
  | strong | weakValues | weakKeys | weakBoth
deriving DecidableEq, Inhabited

/-- What a table's metatable says about its references. -/
def weakness (h : Heap) (t : Table) : Weakness :=
  match t.metatable with
  | none => .strong
  | some mt =>
    match (h.tables.get mt.index).getStr "__mode".toUTF8 with
    | .str s =>
      let k := s.data.contains 107
      let v := s.data.contains 118
      if k && v then .weakBoth else if k then .weakKeys else if v then .weakValues else .strong
    | _ => .strong

/-! ## Successors -/

def tableSuccessors (h : Heap) (t : Table) : List Value :=
  let held := match h.weakness t with
    | .strong => t.entries.flatMap fun e => [e.1, e.2]
    | .weakValues => t.entries.map (·.1)
    | .weakKeys | .weakBoth => []
  match t.metatable with
  | some mt => .table mt :: held
  | none => held

def closureSuccessors : Closure → List ObjectId
  | .script _ ups => ups.toList.map .upvalue
  | .native _ ups => ups.toList.filterMap Value.object?

def upvalueSuccessors (h : Heap) : Upvalue → List ObjectId
  | .opened t i => (((h.threads.get t.index).stack.getD i .nil).object?).toList
  | .closed v => v.object?.toList

def userdataSuccessors (u : UserData) : List ObjectId :=
  let values := u.userValues.toList.filterMap Value.object?
  match u.metatable with
  | some mt => .table mt :: values
  | none => values

def threadSuccessors (t : Thread) : List ObjectId :=
  (t.stack.toList.take t.top).filterMap Value.object?

/-- The objects that an object keeps alive by itself. -/
def successors (h : Heap) : ObjectId → List ObjectId
  | .table t => (h.tableSuccessors (h.tables.get t.index)).filterMap Value.object?
  | .closure c => closureSuccessors (h.closures.get c.index)
  | .upvalue u => h.upvalueSuccessors (h.upvalues.get u.index)
  | .userdata u => userdataSuccessors (h.userdata.get u.index)
  | .thread t => threadSuccessors (h.threads.get t.index)

/-- Marks what the objects on a worklist lead to; each object enters the list at most once, so that
the size of the heap bounds the walk. -/
def walk (h : Heap) (m : Marks) : List ObjectId → Nat → Marks
  | [], _ => m
  | _, 0 => m
  | o :: rest, fuel + 1 =>
    let (m, work) := (h.successors o).foldl Marks.visit (m, rest)
    walk h m work fuel

/-- The values that tables with weak keys keep alive because their keys are marked. -/
def ephemeronValues (h : Heap) (m : Marks) : List ObjectId :=
  (List.range h.tables.next).flatMap fun i =>
    if m.has (.table ⟨i⟩) then
      let t := h.tables.get i
      match h.weakness t with
      | .weakKeys => t.entries.filterMap fun e => if m.keeps e.1 then e.2.object? else none
      | _ => []
    else []

/-- Follows tables with weak keys until nothing is added; `fuel` bounds the rounds. -/
def settle (h : Heap) (m : Marks) : Nat → Marks
  | 0 => m
  | fuel + 1 =>
    match (h.ephemeronValues m).foldl Marks.visit (m, []) with
    | (_, []) => m
    | (m, work) => settle h (h.walk m work h.size) fuel

/-- Marks everything that can be reached from the given objects. -/
def reach (h : Heap) (m : Marks) (roots : List ObjectId) : Marks :=
  let (m, work) := roots.foldl Marks.visit (m, [])
  h.settle (h.walk m work h.size) h.size

/-! ## Clearing and freeing -/

/-- Removes the entries of a table that a test refuses. -/
def clearTable (keep : Value × Value → Bool) (t : Table) : Table :=
  t.entries.foldl (fun t e => if keep e then t else t.put e.1 .nil) t

def mapTables (h : Heap) (f : Table → Table) : Heap :=
  { h with tables := { items := h.tables.items.map fun x => x.map f } }

/-- Clears the entries of weak tables whose values are not marked. -/
def clearValues (h : Heap) (m : Marks) : Heap :=
  h.mapTables fun t =>
    match h.weakness t with
    | .weakValues | .weakBoth => clearTable (fun e => m.keeps e.2) t
    | _ => t

/-- Clears the entries of weak tables whose keys are not marked. -/
def clearKeys (h : Heap) (m : Marks) : Heap :=
  h.mapTables fun t =>
    match h.weakness t with
    | .weakKeys | .weakBoth => clearTable (fun e => m.keeps e.1) t
    | _ => t

/-- Keeps the marked objects of a store. -/
def sweepStore {α : Type} (s : Store α) (marked : Array Bool) : Store α :=
  { items := s.items.mapIdx fun i x => if marked.getD i false then x else none }

/-- Frees what is not marked.  Variables in the stacks of freed threads move out of them. -/
def sweep (h : Heap) (m : Marks) : Heap :=
  let detach : Upvalue → Upvalue
    | .opened t i =>
      if m.has (.thread t) then .opened t i
      else .closed ((h.threads.get t.index).stack.getD i .nil)
    | u => u
  { tables := sweepStore h.tables m.tables
    closures := sweepStore h.closures m.closures
    upvalues := { items := (sweepStore h.upvalues m.upvalues).items.map (·.map detach) }
    userdata := sweepStore h.userdata m.userdata
    threads := sweepStore h.threads m.threads }

/-- How many objects there are. -/
def population (h : Heap) : Nat :=
  let count {α : Type} (s : Store α) : Nat := s.items.foldl (fun n x => if x.isSome then n + 1 else n) 0
  count h.tables + count h.closures + count h.userdata + count h.threads

end Heap

end LuaHost
