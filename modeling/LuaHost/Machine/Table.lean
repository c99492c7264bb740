import LuaHost.Machine.Value
import Std.Data.TreeMap

/-!
# Tables of the machine

A table is a finite map from keys to values.  Beside the map it keeps the sizes of the two parts
that an implementation stores it in, an array for small positive integers and a node list for the
rest, because the border that the length operator answers depends on them when a table has holes.

A key outside the array part whose value was removed stays in the map with `nil` until the parts are
resized, so that a traversal may go on from it.
-/

namespace LuaHost

structure Table where
  contents : Std.TreeMap Value Value Value.keyCmp := {}
  /-- The size of the array part. -/
  arraySize : Nat := 0
  /-- Where the search for a border begins: the array size, or a border found earlier. -/
  hint : Nat := 0
  /-- The nodes in use outside the array part. -/
  nodes : Nat := 0
  /-- The nodes that there is room for. -/
  capacity : Nat := 0
  metatable : Option TableId := none

namespace Table

instance : Inhabited Table := ⟨{}⟩

/-! ## Reading -/

/-- The value at a key in stored form. -/
def find (t : Table) (k : Value) : Value := t.contents.getD k .nil

/-- The value at a key. -/
def get (t : Table) (k : Value) : Value := t.find k.asKey

def getInt (t : Table) (i : Int64) : Value := t.find (.int i)

def getNat (t : Table) (i : Nat) : Value := t.find (.int (Int64.ofNat i))

def getStr (t : Table) (s : Bytes) : Value := t.find (.str s)

/-- Whether a stored key lies in the array part. -/
def inArray (t : Table) : Value → Bool
  | .int i => 1 ≤ i && i.toInt ≤ t.arraySize
  | _ => false

/-! ## Sizes of the parts -/

/-- The least power of two that is not below `n`. -/
def powerAbove (n : Nat) : Nat :=
  if n ≤ 1 then n else 1 <<< ((n - 1).log2 + 1)

/-- For each `i` up to 31, how many of the keys lie in `(2 ^ (i - 1), 2 ^ i]`. -/
def sliceOf (k : Value) : Option Nat :=
  match k with
  | .int i =>
    let n := i.toInt
    if 1 ≤ n && n ≤ 0x80000000 then some (if n = 1 then 0 else (n - 1).toNat.log2 + 1) else none
  | _ => none

def countKey (slices : Array Nat) (k : Value) : Array Nat :=
  match sliceOf k with
  | some i => slices.modify i (· + 1)
  | none => slices

/-- Walks the candidate sizes `2 ^ i`: the array gets the largest that more than half of is used.
`total` is the number of candidate keys, `below` those seen so far, `best` the size and number of
keys chosen so far. -/
def chooseArray (slices : Array Nat) (total i size below : Nat) (best : Nat × Nat) :
    Nat → Nat × Nat
  | 0 => best
  | fuel + 1 =>
    if total ≤ size / 2 then best
    else
      let below := below + slices.getD i 0
      chooseArray slices total (i + 1) (size * 2) below
        (if below > size / 2 then (size, below) else best) fuel

/-- Gives the parts new sizes: removed keys are forgotten, and keys change sides as the array grows
or shrinks. -/
def resize (t : Table) (arraySize nodeCount : Nat) : Table :=
  let contents := t.contents.filter fun _ v => !v.isNil
  let t := { t with contents, arraySize, hint := arraySize }
  let outside := contents.foldl (fun n k _ => if t.inArray k then n else n + 1) 0
  { t with nodes := outside, capacity := powerAbove (max nodeCount outside) }

/-- Makes room for a new key by choosing new sizes for both parts. -/
def rehash (t : Table) (k : Value) : Table :=
  let (slices, live) := t.contents.foldl
    (fun (acc : Array Nat × Nat) k v =>
      if v.isNil then acc else (countKey acc.1 k, acc.2 + 1))
    (Array.replicate 32 0, 0)
  let slices := countKey slices k
  let candidates := slices.foldl (· + ·) 0
  let (size, used) := chooseArray slices candidates 0 1 0 (0, 0) 32
  t.resize size (live + 1 - used)

/-! ## Writing -/

/-- Writes under a key in stored form. -/
def put (t : Table) (k v : Value) : Table :=
  if t.inArray k then
    if v.isNil then { t with contents := t.contents.erase k }
    else { t with contents := t.contents.insert k v }
  else if t.contents.contains k then { t with contents := t.contents.insert k v }
  else if v.isNil then t
  else
    let t := if t.nodes < t.capacity then t else t.rehash k
    if t.inArray k then { t with contents := t.contents.insert k v }
    else { t with contents := t.contents.insert k v, nodes := t.nodes + 1 }

/-- Writes under a key, which is neither `nil` nor a `NaN`. -/
def set (t : Table) (k v : Value) : Table := t.put k.asKey v

def setInt (t : Table) (i : Int64) (v : Value) : Table := t.put (.int i) v

def setNat (t : Table) (i : Nat) (v : Value) : Table := t.put (.int (Int64.ofNat i)) v

def setStr (t : Table) (s : Bytes) (v : Value) : Table := t.put (.str s) v

/-- An empty table with room for the given numbers of entries. -/
def withRoom (narr nrec : Nat) : Table :=
  { arraySize := narr, hint := narr, capacity := powerAbove nrec }

/-- Makes the array part at least as large as asked. -/
def growArray (t : Table) (n : Nat) : Table :=
  if n ≤ t.arraySize then t else t.resize n t.nodes

/-! ## Borders -/

def present (t : Table) (i : Nat) : Bool := !(t.getNat i).isNil

/-- Halves the gap between a present (or zero) index and an absent one. -/
def searchBetween (t : Table) (i j : Nat) : Nat → Nat
  | 0 => i
  | fuel + 1 =>
    if j - i > 1 then
      let m := (i + j) / 2
      if t.present m then searchBetween t m j fuel else searchBetween t i m fuel
    else i

/-- The largest index that an integer key can have. -/
def lastIndex : Nat := 0x7fffffffffffffff

/-- Doubles the index until one is absent, then searches in between. -/
def searchUnbound (t : Table) (i j : Nat) : Nat → Nat
  | 0 => i
  | fuel + 1 =>
    if t.present j then
      if j ≤ lastIndex / 2 then searchUnbound t j (j * 2) fuel
      else if t.present lastIndex then lastIndex
      else searchBetween t j lastIndex 64
    else searchBetween t i j 64

/-- A border in the nodes, when the array part is full up to `n`. -/
def borderOutside (t : Table) (n : Nat) : Nat :=
  if t.capacity == 0 || !t.present (n + 1) then n
  else if n == 0 then searchUnbound t 1 2 64
  else searchUnbound t n (n * 2) 64

def isPowerOfTwo (n : Nat) : Bool := n &&& (n - 1) == 0

/-- A border of the table, and the hint for the next search. -/
def borderAndHint (t : Table) : Nat × Nat :=
  let limit := t.hint
  if limit > 0 && !t.present limit then
    let border :=
      if limit ≥ 2 && t.present (limit - 1) then limit - 1 else searchBetween t 0 limit 64
    (border, if isPowerOfTwo t.arraySize && border > t.arraySize / 2 then border else limit)
  else if limit < t.arraySize then
    if !t.present (limit + 1) then (limit, limit)
    else if !t.present t.arraySize then
      let border := searchBetween t limit t.arraySize 64
      (border, border)
    else (borderOutside t t.arraySize, limit)
  else (borderOutside t limit, limit)

/-- A border: a place after which the next one is empty. -/
def border (t : Table) : Nat := t.borderAndHint.1

/-! ## Traversal -/

/-- The first entry with a value after a stored key; `fuel` bounds the removed keys passed over. -/
def entryAfter (t : Table) (k : Value) : Nat → Option (Value × Value)
  | 0 => none
  | fuel + 1 =>
    match t.contents.getEntryGT? k with
    | none => none
    | some (k', v) => if v.isNil then entryAfter t k' fuel else some (k', v)

/-- The first entry with a value. -/
def firstEntry (t : Table) : Option (Value × Value) :=
  match t.contents.minEntry? with
  | none => none
  | some (k, v) => if v.isNil then t.entryAfter k t.contents.size else some (k, v)

/-- The entry after a key: `none` if the key is not one that the table has had, `some none` after
the last one. -/
def next (t : Table) (k : Value) : Option (Option (Value × Value)) :=
  match k with
  | .nil => some t.firstEntry
  | k =>
    let k := k.asKey
    if t.inArray k || t.contents.contains k then some (t.entryAfter k (t.contents.size + 1))
    else none

/-- All entries with a value, in traversal order. -/
def entries (t : Table) : List (Value × Value) :=
  t.contents.toList.filter fun e => !e.2.isNil

end Table

end LuaHost
