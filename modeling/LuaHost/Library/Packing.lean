import LuaHost.Library.Arguments
import LuaHost.Numeric.Single

/-!
# Binary layouts

A format describes a sequence of binary items: integers and doubles of given sizes and byte order,
strings with a given length, a counted length or a terminator, padding and alignment.
-/

namespace LuaHost.Library

open Machine

namespace Packing

/-- How a format lays out what follows. -/
structure Layout where
  little : Bool := true
  maxAlign : Nat := 1
deriving Inhabited

inductive Item where
  | int | uint | single | double | fixed | counted | terminated | padding | alignment | nothing
deriving DecidableEq, Inhabited

/-- What can be wrong with a format. -/
inductive Fault where
  | sizeLimits (n : Int)
  | missingSize
  | invalidOption (c : UInt8)
  | invalidNext
  | badAlignment
deriving DecidableEq, Inhabited

/-- The largest size of an integer. -/
def maxIntSize : Nat := 16

/-- The largest size of anything. -/
def maxSize : Nat := 2147483647

/-- A decimal number, read while it stays within the limit. -/
def readNumber (acc : Nat) : List UInt8 → Nat × List UInt8
  | c :: r =>
    if Ascii.isDigit c && acc ≤ (maxSize - 9) / 10 then readNumber (acc * 10 + (c.toNat - 48)) r
    else (acc, c :: r)
  | [] => (acc, [])

def optionalNumber (f : List UInt8) : Option Nat × List UInt8 :=
  match f with
  | c :: _ =>
    if Ascii.isDigit c then
      let (n, r) := readNumber 0 f
      (some n, r)
    else (none, f)
  | [] => (none, f)

/-- A size between 1 and the limit for integers. -/
def readSize (default : Nat) (f : List UInt8) : Except Fault (Nat × List UInt8) :=
  let (n?, r) := optionalNumber f
  let n := n?.getD default
  if n == 0 || n > maxIntSize then .error (.sizeLimits n) else .ok (n, r)

/-- An item that a format begins with, its size, the layout from here on, and the rest. -/
def readItem (l : Layout) : List UInt8 → Except Fault (Item × Nat × Layout × List UInt8)
  | [] => .ok (.nothing, 0, l, [])
  | c :: r =>
    let sized (i : Item) (default : Nat) : Except Fault (Item × Nat × Layout × List UInt8) :=
      (readSize default r).map fun (n, r) => (i, n, l, r)
    match Char.ofNat c.toNat with
    | 'b' => .ok (.int, 1, l, r)
    | 'B' => .ok (.uint, 1, l, r)
    | 'h' => .ok (.int, 2, l, r)
    | 'H' => .ok (.uint, 2, l, r)
    | 'l' | 'j' => .ok (.int, 8, l, r)
    | 'L' | 'J' | 'T' => .ok (.uint, 8, l, r)
    | 'f' => .ok (.single, 4, l, r)
    | 'n' | 'd' => .ok (.double, 8, l, r)
    | 'i' => sized .int 4
    | 'I' => sized .uint 4
    | 's' => sized .counted 8
    | 'c' =>
      match optionalNumber r with
      | (some n, r) => .ok (.fixed, n, l, r)
      | (none, _) => .error .missingSize
    | 'z' => .ok (.terminated, 0, l, r)
    | 'x' => .ok (.padding, 1, l, r)
    | 'X' => .ok (.alignment, 0, l, r)
    | ' ' => .ok (.nothing, 0, l, r)
    | '<' | '=' => .ok (.nothing, 0, { l with little := true }, r)
    | '>' => .ok (.nothing, 0, { l with little := false }, r)
    | '!' => (readSize 8 r).map fun (n, r) => (.nothing, 0, { l with maxAlign := n }, r)
    | _ => .error (.invalidOption c)

/-- An item with the padding that aligns it at a position. -/
structure Placed where
  item : Item
  size : Nat
  padding : Nat
  layout : Layout
  rest : List UInt8

def placeItem (l : Layout) (position : Nat) (f : List UInt8) : Except Fault Placed := do
  let (item, size, l, r) ← readItem l f
  let (align, r) ←
    if item == .alignment then
      match r with
      | [] => throw .invalidNext
      | _ => do
        let (next, n, _, r) ← readItem l r
        if next == .fixed || n == 0 then throw .invalidNext else pure (n, r)
    else pure (size, r)
  if align ≤ 1 || item == .fixed then return ⟨item, size, 0, l, r⟩
  let align := min align l.maxAlign
  if align &&& (align - 1) != 0 then throw .badAlignment
  return ⟨item, size, (align - position % align) % align, l, r⟩

/-! ## Integers as bytes -/

/-- The `size` low bytes of an integer; more than eight are filled with its sign. -/
def intBytes (little : Bool) (size : Nat) (n : Int64) (signed : Bool) : Bytes :=
  let whole : Int := if signed then n.toInt else n.toUInt64.toNat
  let v := (whole % Nat.pow 256 size).toNat
  let low := (List.range size).map fun i => (v / Nat.pow 256 i).toUInt8
  Bytes.ofList (if little then low else low.reverse)

/-- The bytes of an integer, the low one first. -/
def lowFirst (little : Bool) (b : Bytes) : List UInt8 :=
  if little then b.data.toList else b.data.toList.reverse

/-- The integer that bytes denote; `none` if it does not fit in 64 bits. -/
def ofIntBytes (little : Bool) (b : Bytes) (signed : Bool) : Option Int64 :=
  let low := lowFirst little b
  let n : Nat := low.foldr (fun c n => n * 256 + c.toNat) 0
  if b.size ≤ 8 then
    some (Int64.ofInt
      (if signed && n ≥ Nat.pow 256 b.size / 2 then (n : Int) - Nat.pow 256 b.size else n))
  else
    let head : Nat := n % 0x10000000000000000
    let fill := if signed && head ≥ 0x8000000000000000 then 0xff else 0
    if (low.drop 8).all (·.toNat == fill) then some (Int64.ofInt head) else none

def natOfBytes (little : Bool) (b : Bytes) : Nat :=
  (lowFirst little b).foldr (fun c n => n * 256 + c.toNat) 0

end Packing

open Packing

/-- Raises the error of a bad format. -/
def raiseFormatFault {α : Type} (t : ThreadId) : Packing.Fault → M α
  | .sizeLimits n => nativeErrorText t
      ("integral size (" ++ toString n ++ ") out of limits [1," ++ toString maxIntSize ++ "]")
  | .missingSize => nativeErrorText t "missing size for format option 'c'"
  | .invalidOption c => nativeError t
      ("invalid format option '".toUTF8 ++ Bytes.singleton c ++ "'".toUTF8)
  | .invalidNext => argumentErrorText t 1 "invalid next option for option 'X'"
  | .badAlignment => argumentErrorText t 1 "format asks for alignment not power of 2"

def placed (t : ThreadId) (l : Layout) (position : Nat) (f : List UInt8) : M Placed := do
  match placeItem l position f with
  | .ok p => return p
  | .error e => raiseFormatFault t e

/-- The bytes of an argument under an item. -/
def packArgument (t : ThreadId) (p : Placed) (arg : Int) : M Bytes := do
  let little := p.layout.little
  match p.item with
  | .int =>
    let n ← checkInteger t arg
    if p.size < 8 then
      let limit : Nat := 1 <<< (p.size * 8 - 1)
      argumentCheck t (-limit ≤ n.toInt && n.toInt < limit) arg "integer overflow"
    return intBytes little p.size n true
  | .uint =>
    let n ← checkInteger t arg
    if p.size < 8 then
      argumentCheck t (n.toUInt64.toNat < 1 <<< (p.size * 8)) arg "unsigned overflow"
    return intBytes little p.size n false
  | .single =>
    let x ← checkDouble t arg
    return intBytes little 4 (Int64.ofInt x.toSingleBits.toNat) false
  | .double =>
    let x ← checkDouble t arg
    return intBytes little 8 x.bits.toInt64 false
  | .fixed =>
    let s ← checkString t arg
    argumentCheck t (s.size ≤ p.size) arg "string longer than given size"
    return s ++ Bytes.replicate (Bytes.singleton 0) (p.size - s.size)
  | .counted =>
    let s ← checkString t arg
    argumentCheck t (p.size ≥ 8 || s.size < 1 <<< (p.size * 8)) arg
      "string length does not fit in given size"
    return intBytes little p.size (Int64.ofNat s.size) false ++ s
  | .terminated =>
    let s ← checkString t arg
    argumentCheck t (s.untilNul.size == s.size) arg "string contains zeros"
    return s.push 0
  | .padding => return Bytes.singleton 0
  | .alignment | .nothing => return ByteArray.empty

def takesArgument : Item → Bool
  | .padding | .alignment | .nothing => false
  | _ => true

/-- Packs arguments from `arg` on; `fuel` bounds the items by the length of the format. -/
def packFrom (t : ThreadId) (l : Layout) (acc : Bytes) (f : List UInt8) (arg : Int) :
    Nat → M Bytes
  | 0 => return acc
  | fuel + 1 => do
    if f.isEmpty then return acc
    let p ← placed t l acc.size f
    let takes := takesArgument p.item
    let arg' := if takes then arg + 1 else arg
    let b ← packArgument t p arg'
    packFrom t p.layout (acc ++ Bytes.replicate (Bytes.singleton 0) p.padding ++ b) p.rest arg' fuel

def pack (t : ThreadId) : M Nat := do
  let f := (← checkString t 1).untilNul.data.toList
  let b ← packFrom t {} ByteArray.empty f 1 f.length
  pushBytes t b
  return 1

def packedSize (t : ThreadId) (l : Layout) (total : Nat) (f : List UInt8) : Nat → M Nat
  | 0 => return total
  | fuel + 1 => do
    if f.isEmpty then return total
    let p ← placed t l total f
    argumentCheck t (p.item != .counted && p.item != .terminated) 1 "variable-length format"
    let size := p.size + p.padding
    argumentCheck t (total + size ≤ maxSize) 1 "format result too large"
    packedSize t p.layout (total + size) p.rest fuel

def packsize (t : ThreadId) : M Nat := do
  let f := (← checkString t 1).untilNul.data.toList
  let n ← packedSize t {} 0 f f.length
  pushInt t n
  return 1

/-- Reads an item at a position, pushes what it denotes, and answers the position behind it. -/
def unpackItem (t : ThreadId) (data : Bytes) (p : Placed) (position : Nat) : M Nat := do
  let little := p.layout.little
  let field : Bytes := data.extract position (position + p.size)
  let behind := position + p.size
  match p.item with
  | .int | .uint =>
    match ofIntBytes little field (p.item == .int) with
    | some n => push t (.int n)
    | none =>
      nativeErrorText t (toString p.size ++ "-byte integer does not fit into Lua Integer")
    return behind
  | .single =>
    pushFloat t (Double.ofSingleBits (natOfBytes little field).toUInt32)
    return behind
  | .double =>
    pushFloat t ⟨(natOfBytes little field).toUInt64⟩
    return behind
  | .fixed =>
    pushBytes t field
    return behind
  | .counted =>
    let n := natOfBytes little field
    argumentCheck t (n ≤ data.size - behind) 2 "data string too short"
    pushBytes t (data.extract behind (behind + n))
    return behind + n
  | .terminated =>
    match data.findByte? (· == 0) position with
    | some e =>
      pushBytes t (data.extract position e)
      return e + 1
    | none => argumentErrorText t 2 "unfinished string for format 'z'"
  | .padding | .alignment | .nothing => return behind

def unpackFrom (t : ThreadId) (data : Bytes) (l : Layout) (position : Nat) (f : List UInt8)
    (results : Nat) : Nat → M (Nat × Nat)
  | 0 => return (position, results)
  | fuel + 1 => do
    if f.isEmpty then return (position, results)
    let p ← placed t l position f
    argumentCheck t (p.padding + p.size ≤ data.size - position) 2 "data string too short"
    needRoom t 2 "too many results"
    let next ← unpackItem t data p (position + p.padding)
    unpackFrom t data p.layout next p.rest (if takesArgument p.item then results + 1 else results)
      fuel

/-- A position in a string of `n` bytes, counted from its end if negative; never before the first
byte. -/
def startPosition (i : Int) (n : Nat) : Nat :=
  if i > 0 then i.toNat
  else if i == 0 then 1
  else if i < -(n : Int) then 1
  else (n + i + 1).toNat

def unpack (t : ThreadId) : M Nat := do
  let f := (← checkString t 1).untilNul.data.toList
  let data ← checkString t 2
  let position := startPosition (← optInt t 3 1) data.size - 1
  argumentCheck t (position ≤ data.size) 3 "initial position out of string"
  let (position, n) ← unpackFrom t data {} position f 0 f.length
  pushInt t (position + 1 : Nat)
  return n + 1

end LuaHost.Library
