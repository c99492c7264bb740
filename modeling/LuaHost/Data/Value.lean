import LuaHost.Data.Key

/-!
# Host values and tables

A host table has an array part without holes, for the keys `1, …, n`, and a map part for all other
keys, listed in key order.  Writing keeps the two apart: a `nil` inside the array moves everything
behind it into the map, and a value just past the end pulls the keys that follow back in.
-/

namespace LuaHost.Data

mutual

/-- A value on the host side. -/
inductive Value where
  | nil
  | bool (b : Bool)
  | number (n : Number)
  | string (s : String)
  | table (t : Table)
  | light (address : UInt64)

/-- A table on the host side. -/
inductive Table where
  | mk (array : Array Value) (map : List (TableKey × Value))

end

instance : Inhabited Value := ⟨.nil⟩

instance : Inhabited Table := ⟨.mk #[] []⟩

namespace Table

def array : Table → Array Value
  | .mk a _ => a

def map : Table → List (TableKey × Value)
  | .mk _ m => m

/-! ## The map part -/

/-- The entries of a map part. -/
abbrev Entries := List (TableKey × Value)

def Entries.find? (k : TableKey) : Entries → Option Value
  | [] => none
  | (k', v) :: r => if k' = k then some v else find? k r

/-- Puts an entry in its place, over an older one of the same key. -/
def Entries.insert (k : TableKey) (v : Value) : Entries → Entries
  | [] => [(k, v)]
  | (k', v') :: r =>
    match TableKey.cmp k k' with
    | .lt => (k, v) :: (k', v') :: r
    | .eq => (k, v) :: r
    | .gt => (k', v') :: insert k v r

def Entries.erase (k : TableKey) : Entries → Entries
  | [] => []
  | (k', v') :: r => if k' = k then r else (k', v') :: erase k r

/-! ## Places -/

/-- Where a key belongs. -/
inductive Slot where
  /-- Inside the array, at this offset. -/
  | array (i : Nat)
  /-- Just past the end of the array. -/
  | append
  | map (k : TableKey)

/-- The place of a key in a table whose array part has `n` elements; a `NaN` has none.  Integers
that are not positive are stored as doubles. -/
def slotOf (n : Nat) : Key → Option Slot
  | .integer k =>
    let i := k.toInt
    if 1 ≤ i then
      if i ≤ n then some (.array (i - 1).toNat)
      else if i = n + 1 then some .append
      else some (.map (.integer k))
    else (FloatKey.ofDouble (Double.ofInt64 k)).map (.map ∘ .number)
  | .float x => (FloatKey.ofDouble x).map (.map ∘ .number)
  | .bool b => some (.map (.bool b))
  | .string s => some (.map (.string s))

def empty : Table := .mk #[] []

/-- The length of the array part. -/
def narr (t : Table) : Nat := t.array.size

/-- The number of entries in the map part. -/
def nrec (t : Table) : Nat := t.map.length

def isEmpty (t : Table) : Bool := t.array.isEmpty && t.map.isEmpty

def get (t : Table) (k : Key) : Option Value :=
  match slotOf t.narr k with
  | none => none
  | some (.array i) => t.array[i]?
  | some .append => none
  | some (.map k) => Entries.find? k t.map

/-- The stored key of a position past the array. -/
def positionKey (i : Nat) : TableKey := .integer (Int64.ofNat i)

/-- Moves values to the map, under the keys that follow position `i`. -/
def detach (i : Nat) : List Value → Entries → Entries
  | [], m => m
  | v :: vs, m => detach (i + 1) vs (Entries.insert (positionKey (i + 1)) v m)

/-- Cuts the array to `i` elements; the element behind them is dropped, the others move to the
map. -/
def truncate (i : Nat) (t : Table) : Table :=
  .mk (t.array.take i) (detach (i + 1) (t.array.toList.drop (i + 1)) t.map)

/-- Pulls the keys that continue the array out of the map; `fuel` is the size of the map. -/
def absorbFrom (a : Array Value) (m : Entries) : Nat → Table
  | 0 => .mk a m
  | fuel + 1 =>
    let k := positionKey (a.size + 1)
    match Entries.find? k m with
    | some v => absorbFrom (a.push v) (Entries.erase k m) fuel
    | none => .mk a m

def absorb (t : Table) : Table := absorbFrom t.array t.map t.map.length

/-- Writes an entry; a `nil` removes it, and a `NaN` key changes nothing. -/
def set (t : Table) (k : Key) (v : Value) : Table :=
  match slotOf t.narr k, v with
  | none, _ => t
  | some (.array i), .nil => t.truncate i
  | some (.array i), v => .mk (t.array.set! i v) t.map
  | some .append, .nil => t
  | some .append, v => absorb (.mk (t.array.push v) t.map)
  | some (.map k), .nil => .mk t.array (Entries.erase k t.map)
  | some (.map k), v => .mk t.array (Entries.insert k v t.map)

/-- Writes a value just past the array. -/
def push (t : Table) (v : Value) : Table :=
  t.set (.integer (Int64.ofNat (t.narr + 1))) v

/-- Pushes values one after the other. -/
def ofValues (vs : List Value) : Table := vs.foldl push empty

/-- Writes entries one after the other. -/
def ofEntries (es : List (Key × Value)) : Table := es.foldl (fun t e => t.set e.1 e.2) empty

end Table

namespace Value

def typeName : Value → String
  | .nil => "nil"
  | .bool _ => "boolean"
  | .number _ => "number"
  | .string _ => "string"
  | .table _ => "table"
  | .light _ => "userdata"

def isNil : Value → Bool
  | .nil => true
  | _ => false

def asBool? : Value → Option Bool
  | .bool b => some b
  | _ => none

def asNumber? : Value → Option Number
  | .number n => some n
  | _ => none

def asInteger? (v : Value) : Option Int64 := v.asNumber?.bind Number.toInt64?

def asString? : Value → Option String
  | .string s => some s
  | _ => none

def asTable? : Value → Option Table
  | .table t => some t
  | _ => none

/-- Equality of values; a table equals nothing, not even itself. -/
def eq : Value → Value → Bool
  | .nil, .nil => true
  | .bool a, .bool b => a == b
  | .number a, .number b => a.eq b
  | .string a, .string b => a == b
  | .light a, .light b => a == b
  | _, _ => false

/-- The address that is shown for light userdata: the place of the value, not what it holds. -/
def placeText : String := "0x7ffc00001000"

def display : Value → String
  | .nil => "nil"
  | .bool b => if b then "true" else "false"
  | .number n => n.display
  | .string s => s
  | .table t => "table(" ++ toString t.narr ++ " array, " ++ toString t.nrec ++ " map)"
  | .light _ => "userdata: " ++ placeText

def ofInt (i : Int64) : Value := .number (.int i)

def ofDouble (x : Double) : Value := .number (.float x)

end Value

end LuaHost.Data

namespace LuaHost

/-- The value that a stored key stands for. -/
def TableKey.toValue : TableKey → Data.Value
  | .bool b => .bool b
  | .string s => .string s
  | .integer i => .number (.int i)
  | .number x => .number (.float x.value)

/-- The key that a value can be; tables, light userdata, `nil` and `NaN` are none. -/
def Key.ofValue : Data.Value → Option Key
  | .bool b => some (.bool b)
  | .string s => some (.string s)
  | .number (.int i) => some (.integer i)
  | .number (.float x) => if x.isNaN then none else some (.float x)
  | _ => none

end LuaHost
