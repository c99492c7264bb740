import LuaHost.Library.Arguments

/-!
# Table functions

They work on anything that behaves like a table, through its handlers.
-/

namespace LuaHost.Library

open Machine

/-- Which handlers a value that is no table must have to stand for one. -/
structure TableUse where
  read : Bool := false
  write : Bool := false
  length : Bool := false

def checkTableLike (t : ThreadId) (i : Int) (use : TableUse) : M Unit := do
  if (← kindAt t i) == .table then return ()
  let v ← value t i
  let has (needed : Bool) (field : String) : M Bool := do
    if needed then return !(← metaField v field.toUTF8).isNil else return true
  if (← metatableOf v).isNone then kindError t i .table
  if !(← has use.read "__index") then kindError t i .table
  if !(← has use.write "__newindex") then kindError t i .table
  if !(← has use.length "__len") then kindError t i .table

/-- The checked length of an argument. -/
def checkedLength (t : ThreadId) (i : Int) (use : TableUse) : M Int64 := do
  checkTableLike t i { use with length := true }
  return Int64.ofInt (← lengthAt t i)

def elementAt (t : ThreadId) (arg : Int) (i : Int64) : M Value := do
  index t (← value t arg) (.int i)

def setElementAt (t : ThreadId) (arg : Int) (i : Int64) (v : Value) : M Unit := do
  assign t (← value t arg) (.int i) v

/-- Copies `n` elements from place `src` on to place `dst` on, in steps of `step`. -/
def copyElements (t : ThreadId) (dstArg : Int) (src dst step : Int64) : Nat → M Unit
  | 0 => return ()
  | n + 1 => do
    setElementAt t dstArg dst (← elementAt t 1 src)
    copyElements t dstArg (src + step) (dst + step) step n

def tableInsert (t : ThreadId) : M Nat := do
  let e := (← checkedLength t 1 { read := true, write := true }) + 1
  match ← count t with
  | 2 => setElementAt t 1 e (← value t 2)
  | 3 =>
    let pos ← checkInteger t 2
    argumentCheck t ((pos - 1).toUInt64 < e.toUInt64) 2 "position out of bounds"
    let v ← value t 3
    copyElements t 1 (e - 1) e (-1) (e.toInt - pos.toInt).toNat
    setElementAt t 1 pos v
  | _ => nativeErrorText t "wrong number of arguments to 'insert'"
  return 0

def tableRemove (t : ThreadId) : M Nat := do
  let size ← checkedLength t 1 { read := true, write := true }
  let pos ← optInteger t 2 size
  if pos != size then
    argumentCheck t ((pos - 1).toUInt64 ≤ size.toUInt64) 2 "position out of bounds"
  push t (← elementAt t 1 pos)
  copyElements t 1 (pos + 1) pos 1 (size.toInt - pos.toInt).toNat
  setElementAt t 1 (if pos < size then size else pos) .nil
  return 1

def tableMove (t : ThreadId) : M Nat := do
  let f ← checkInteger t 2
  let e ← checkInteger t 3
  let dst ← checkInteger t 4
  let arg : Int := if ← isNoneOrNil t 5 then 1 else 5
  checkTableLike t 1 { read := true }
  checkTableLike t arg { write := true }
  if e ≥ f then
    let largest : Int := 0x7fffffffffffffff
    argumentCheck t (f > 0 || e.toInt < largest + f.toInt) 3 "too many elements to move"
    let n := e.toInt - f.toInt + 1
    argumentCheck t (dst.toInt ≤ largest - n + 1) 4 "destination wrap around"
    let apart ← if dst > e || dst ≤ f then pure true
      else if arg == 1 then pure false
      else not <$> (do equals t (← value t 1) (← value t arg))
    if apart then copyElements t arg f dst 1 n.toNat
    else copyElements t arg e (Int64.ofInt (dst.toInt + n - 1)) (-1) n.toNat
  pushValue t arg
  return 1

/-- The elements from `i` on, as strings; there are `n` of them. -/
def concatElements (t : ThreadId) (sep : Bytes) (i : Int64) (acc : Bytes) : Nat → M Bytes
  | 0 => return acc
  | n + 1 => do
    match (← elementAt t 1 i).toBytes? with
    | none =>
      nativeErrorText t
        ("invalid value (at index " ++ toString i.toInt ++ ") in table for 'concat'")
    | some s =>
      let acc := acc ++ s
      concatElements t sep (i + 1) (if n == 0 then acc else acc ++ sep) n

def tableConcat (t : ThreadId) : M Nat := do
  let n ← checkedLength t 1 { read := true }
  let sep ← optString t 2 ByteArray.empty
  let i ← optInteger t 3 1
  let last ← optInteger t 4 n
  pushBytes t (← concatElements t sep i ByteArray.empty (last.toInt - i.toInt + 1).toNat)
  return 1

def tablePack (t : ThreadId) : M Nat := do
  let vs := (← thread t).values
  let id ← pushTable t vs.length 1
  let filled := (vs.zipIdx 1).foldl (fun tb (v, i) => tb.setNat i v) (← table id)
  modifyTable id fun _ => filled
  setField id "n" (.ofNat vs.length)
  return 1

def tableUnpack (t : ThreadId) : M Nat := do
  let i ← optInteger t 2 1
  let e ← if ← isNoneOrNil t 3 then Int64.ofInt <$> lengthAt t 1 else checkInteger t 3
  if i > e then return 0
  let n := (e.toInt - i.toInt + 1).toNat
  if n ≥ maxStack || !(← checkStack t n) then nativeErrorText t "too many results to unpack"
  (List.range n).forM fun k => do push t (← elementAt t 1 (i + Int64.ofNat k))
  return n

/-! ## Sorting

The middle element of a range, put in order with the two at its ends, is the pivot; the smaller part
is sorted first.  The order of the comparisons shows in calls of the order function.
-/

/-- Whether one value comes before another, by the order function if there is one. -/
def comesBefore (t : ThreadId) (a b : Value) : M Bool := do
  if (← value t 2).isNil then lessThan t a b
  else
    pushValue t 2
    push t a
    push t b
    Machine.call t 2 1
    return (← pop t).isTrue

def sortElement (t : ThreadId) (i : Nat) : M Value := elementAt t 1 (Int64.ofNat i)

def setSorted (t : ThreadId) (i : Nat) (v : Value) : M Unit := setElementAt t 1 (Int64.ofNat i) v

def invalidOrder {α : Type} (t : ThreadId) : M α :=
  nativeErrorText t "invalid order function for sorting"

/-- The first place after `i` whose element is not before the pivot, and the element. -/
def scanUp (t : ThreadId) (pivot : Value) (up i : Nat) : Nat → M (Nat × Value)
  | 0 => invalidOrder t
  | fuel + 1 => do
    let i := i + 1
    let v ← sortElement t i
    if ← comesBefore t v pivot then
      if i == up - 1 then invalidOrder t
      scanUp t pivot up i fuel
    else return (i, v)

/-- The last place before `j` whose element the pivot is not before, and the element. -/
def scanDown (t : ThreadId) (pivot : Value) (i j : Nat) : Nat → M (Nat × Value)
  | 0 => invalidOrder t
  | fuel + 1 => do
    let j := j - 1
    let v ← sortElement t j
    if ← comesBefore t pivot v then
      if j < i then invalidOrder t
      scanDown t pivot i j fuel
    else return (j, v)

/-- Exchanges elements until the range is divided at the pivot, which stands at `up - 1`; answers its
final place. -/
def partition (t : ThreadId) (pivot : Value) (up i j : Nat) : Nat → M Nat
  | 0 => invalidOrder t
  | fuel + 1 => do
    let (i, a) ← scanUp t pivot up i (up + 1)
    let (j, b) ← scanDown t pivot i j (up + 1)
    if j < i then
      setSorted t (up - 1) a
      setSorted t i pivot
      return i
    setSorted t i b
    setSorted t j a
    partition t pivot up i j fuel

/-- Puts the elements at two places in order. -/
def orderPair (t : ThreadId) (i j : Nat) : M Bool := do
  let a ← sortElement t i
  let b ← sortElement t j
  if ← comesBefore t b a then
    setSorted t i b
    setSorted t j a
    return true
  return false

/-- Sorts the places from `lo` to `up`; `fuel` bounds their number. -/
def sortRange (t : ThreadId) (lo up : Nat) : Nat → M Unit
  | 0 => return ()
  | fuel + 1 => do
    if lo ≥ up then return ()
    let _ ← orderPair t lo up
    if up - lo == 1 then return ()
    let p := (lo + up) / 2
    if !(← orderPair t lo p) then
      let _ ← orderPair t p up
    if up - lo == 2 then return ()
    let pivot ← sortElement t p
    let b ← sortElement t (up - 1)
    setSorted t p b
    setSorted t (up - 1) pivot
    let p ← partition t pivot up lo (up - 1) (up + 1)
    if p - lo < up - p then
      sortRange t lo (p - 1) fuel
      sortRange t (p + 1) up fuel
    else
      sortRange t (p + 1) up fuel
      sortRange t lo (p - 1) fuel

def tableSort (t : ThreadId) : M Nat := do
  let n := (← checkedLength t 1 { read := true, write := true }).toInt
  if n > 1 then
    argumentCheck t (n < 2147483647) 1 "array too big"
    if !(← isNoneOrNil t 2) then checkKind t 2 .function
    setHeight t 2
    sortRange t 1 n.toNat n.toNat
  return 0

def tableFunction : TableFn → ThreadId → M Nat
  | .concat => tableConcat
  | .insert => tableInsert
  | .move => tableMove
  | .pack => tablePack
  | .remove => tableRemove
  | .sort => tableSort
  | .unpack => tableUnpack

end LuaHost.Library
