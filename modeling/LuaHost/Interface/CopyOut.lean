import LuaHost.Interface.Registry

/-!
# Copies of machine values for the host

A copy holds no reference into the machine.  Tables are copied as they are, without metamethods,
level by level.  A table that is met again inside itself is left out there, and so is every entry
whose key or value has no form on the host's side.  What was left out is told to the log.
-/

namespace LuaHost

/-! ## Single values -/

/-- The host's form of a key. -/
def Value.keyForm? : Value → Option Key
  | .bool b => some (.bool b)
  | .str s => some (.string (Bytes.toText s))
  | .int i => some (.integer i)
  | .float x => some (.float x)
  | _ => none

/-- The host's form of a value that is not a table. -/
def Value.scalarForm? : Value → Option Data.Value
  | .nil => some .nil
  | .bool b => some (.bool b)
  | .int i => some (.number (.int i))
  | .float x => some (.number (.float x))
  | .str s => some (.string (Bytes.toText s))
  | .light p => some (.light p)
  | _ => none

/-! ## Tables -/

/-- A copy of a table. -/
structure TableCopy where
  table : Data.Table := .empty
  /-- What the log is told, the latest first. -/
  log : List LogRecord := []
  /-- How many levels of tables the traversal went down. -/
  depth : Nat := 1

namespace TableCopy

def note (c : TableCopy) (level : LogLevel) (message : String) : TableCopy :=
  { c with log := ⟨level, message⟩ :: c.log }

def set (c : TableCopy) (k : Key) (v : Data.Value) : TableCopy :=
  { c with table := c.table.set k v }

def skipValue (c : TableCopy) (v : Value) : TableCopy :=
  c.note .trace ("skipping " ++ v.kind.name ++ " value during table copy")

def skipKey (c : TableCopy) (k : Value) : TableCopy :=
  c.note .warn ("skipping " ++ k.kind.name ++ " key during table copy")

/-- Notes a table that is being copied already. -/
def skipBack (c : TableCopy) (i : TableId) : TableCopy :=
  (c.note .debug ("cycle at table " ++ Value.addressText (Value.table i).address
    ++ ", skipping back-reference")).skipValue (.table i)

/-- Adds the copy of a table that lies one level deeper. -/
def setTable (c : TableCopy) (k : Key) (inner : TableCopy) : TableCopy :=
  { table := c.table.set k (.table inner.table)
    log := inner.log ++ c.log
    depth := max c.depth (inner.depth + 1) }

/-- Copies one entry.  `path` holds the tables that are being copied, and `copyInner` copies one that
is not among them. -/
def addEntry (path : List TableId) (copyInner : TableId → TableCopy) (c : TableCopy)
    (e : Value × Value) : TableCopy :=
  match e.1.keyForm? with
  | none => c.skipKey e.1
  | some k =>
    match e.2 with
    | .table i => if i ∈ path then c.skipBack i else c.setTable k (copyInner i)
    | v =>
      match v.scalarForm? with
      | some x => c.set k x
      | none => c.skipValue v

/-- Copies a table that lies below those on a path.  `entriesOf` lists the entries of a table as a
traversal meets them; `fuel` bounds the length of the path, on which no table is twice. -/
def traverse (entriesOf : TableId → List (Value × Value)) : Nat → List TableId → TableId → TableCopy
  | 0, _, _ => {}
  | fuel + 1, path, i =>
    (entriesOf i).foldl (addEntry (i :: path) (traverse entriesOf fuel (i :: path))) {}

end TableCopy

namespace Heap

/-- The entries of a table. -/
def entriesOf (h : Heap) (i : TableId) : List (Value × Value) := (h.tables.get i.index).entries

/-- Copies a table; every path is shorter than the number of tables. -/
def copyTable (h : Heap) (i : TableId) : TableCopy :=
  TableCopy.traverse h.entriesOf (h.tables.items.size + 1) [] i

end Heap

namespace Interface

open Machine

/-- Makes sure of room for `n` values, one at a time, as pushing them would. -/
def needRoom (t : ThreadId) (n : Nat) : M Unit := do
  (List.range n).forM fun _ => pushNil t
  drop t n

/-- Copies a table; the traversal needs two slots for each level. -/
def copyTableOut (t : ThreadId) (i : TableId) : M Data.Table := do
  let c := (← get).heap.copyTable i
  needRoom t (2 * c.depth)
  modify fun w => { w with log := c.log ++ w.log }
  return c.table

/-- The host's copy of a value; functions, userdata, threads and missing values have none. -/
def copyValueOut (t : ThreadId) : Option Value → M (Option Data.Value)
  | none => return none
  | some (.table i) => return some (.table (← copyTableOut t i))
  | some v => return v.scalarForm?

/-- The host's copy of the value at an index. -/
def toHost (t : ThreadId) (idx : Int) : M (Option Data.Value) := do
  checkIndex t idx
  copyValueOut t (← value? t idx)

/-- Complains that a value is not of the type that was expected. -/
def unequalKinds {α : Type} (message : String) (found expected : Kind) : M α :=
  abort ("assertion `left == right` failed: " ++ message ++ "\n  left: " ++ found.word
    ++ "\n right: " ++ expected.word)

/-- The host's copy of the table at an index. -/
def copyTable (t : ThreadId) (idx : Int) : M Data.Table := do
  let k ← typeOf t idx
  match ← value t idx with
  | .table i => copyTableOut t i
  | _ => unequalKinds ("copy_table on a " ++ (← typeName t idx) ++ " value") k .table

end Interface

end LuaHost
