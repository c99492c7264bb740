import LuaHost.Interface.CopyOut

/-!
# Host values in the machine

A host value becomes a value of the machine; a host table becomes a new table with the same entries.
-/

namespace LuaHost

/-- The machine's form of a stored key. -/
def TableKey.toMachine : TableKey → Value
  | .bool b => .bool b
  | .string s => .ofText s
  | .integer i => .int i
  | .number x => .float x.value

namespace Data

mutual

/-- How many stack slots it takes to push a value. -/
def Value.slots : Value → Nat
  | .table t => t.slots
  | _ => 1

def Table.slots : Table → Nat
  | .mk a m => 1 + max (arraySlots a) (entriesSlots m)

def arraySlots : Array Value → Nat
  | ⟨vs⟩ => valuesSlots vs

def valuesSlots : List Value → Nat
  | [] => 0
  | v :: vs => max v.slots (valuesSlots vs)

def entriesSlots : List (TableKey × Value) → Nat
  | [] => 0
  | e :: es => max (entrySlots e) (entriesSlots es)

/-- A value below its name, or above its key, or alone. -/
def entrySlots : TableKey × Value → Nat
  | (k, v) =>
    match k with
    | .string _ => max 2 v.slots
    | .integer _ => v.slots
    | .bool _ | .number _ => 1 + v.slots

end

end Data

namespace Machine

mutual

/-- Makes the machine's form of a host value. -/
def ofHost : Data.Value → M Value
  | .nil => return .nil
  | .bool b => return .bool b
  | .number (.int i) => return .int i
  | .number (.float x) => return .float x
  | .string s => return .ofText s
  | .light p => return .light p
  | .table t => return .table (← ofHostTable t)

def ofHostTable : Data.Table → M TableId
  | .mk a m => do
    let id ← newTable (Table.withRoom a.size m.length)
    fillArray id a
    fillEntries id m
    return id

def fillArray (id : TableId) : Array Data.Value → M Unit
  | ⟨vs⟩ => fillValues id 1 vs

/-- Writes values to a table from a position on. -/
def fillValues (id : TableId) (i : Nat) : List Data.Value → M Unit
  | [] => return ()
  | v :: vs => do
    let x ← ofHost v
    modifyTable id (·.setNat i x)
    fillValues id (i + 1) vs

def fillEntries (id : TableId) : List (TableKey × Data.Value) → M Unit
  | [] => return ()
  | e :: es => do
    fillEntry id e
    fillEntries id es

def fillEntry (id : TableId) : TableKey × Data.Value → M Unit
  | (k, v) => do
    let x ← ofHost v
    modifyTable id (·.set k.toMachine x)

end

end Machine

namespace Interface

open Machine

/-- Pushes a host value. -/
def pushHost (t : ThreadId) (v : Data.Value) : M Unit := do
  needRoom t v.slots
  push t (← ofHost v)

end Interface

end LuaHost
