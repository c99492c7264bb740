import LuaHost.Chunk.Binary
import LuaHost.Library.Formatting
import LuaHost.Library.Packing
import LuaHost.Text.Pattern

/-!
# String functions

Positions in strings count bytes from one; negative ones count from the end.
-/

namespace LuaHost.Library

open Machine

/-- The end of a range in a string of `n` bytes; never behind the last byte. -/
def endPosition (i : Int) (n : Nat) : Nat :=
  if i > n then n
  else if i ≥ 0 then i.toNat
  else if i < -(n : Int) then 0
  else (n + i + 1).toNat

/-! ## Parts and pieces -/

def len (t : ThreadId) : M Nat := do
  pushInt t (← checkString t 1).size
  return 1

def sub (t : ThreadId) : M Nat := do
  let s ← checkString t 1
  let i := startPosition (← checkInt t 2) s.size
  let j := endPosition (← optInt t 3 (-1)) s.size
  pushBytes t (s.extract (i - 1) j)
  return 1

def mapped (f : Bytes → Bytes) (t : ThreadId) : M Nat := do
  pushBytes t (f (← checkString t 1))
  return 1

/-- The longest string that repetition makes. -/
def maxRepetition : Nat := 2147483647

def rep (t : ThreadId) : M Nat := do
  let s ← checkString t 1
  let n ← checkInt t 2
  let sep ← optString t 3 ByteArray.empty
  if n ≤ 0 then pushBytes t ByteArray.empty
  else if s.size + sep.size > 0 && (s.size + sep.size : Int) > maxRepetition / n then
    nativeErrorText t "resulting string too large"
  else if s.size + sep.size == 0 then pushBytes t ByteArray.empty
  else pushBytes t (Bytes.replicate (s ++ sep) (n.toNat - 1) ++ s)
  return 1

def byte (t : ThreadId) : M Nat := do
  let s ← checkString t 1
  let first ← optInt t 2 1
  let i := startPosition first s.size
  let j := endPosition (← optInt t 3 first) s.size
  if i > j then return 0
  let n := j - i + 1
  needRoom t n "string slice too long"
  pushAll t ((List.range n).map fun k => .ofNat (s.byteAt (i - 1 + k)).toNat)
  return n

def char (t : ThreadId) : M Nat := do
  let n ← count t
  let bytes ← (List.range n).mapM fun k => do
    let c ← checkInteger t (k + 1 : Nat)
    argumentCheck t (c.toUInt64 ≤ 255) (k + 1 : Nat) "value out of range"
    return c.toUInt64.toUInt8
  pushBytes t (Bytes.ofList bytes)
  return 1

def dump (t : ThreadId) : M Nat := do
  let strip ← isTrueAt t 2
  checkKind t 1 .function
  setHeight t 1
  match ← functionShape (← value t 1) with
  | .script p =>
    pushBytes t (Binary.write strip p)
    return 1
  | .native _ => nativeErrorText t "unable to dump given function"

/-! ## Patterns -/

/-- The answer of a match, or its fault as an error. -/
def matched {α : Type} (t : ThreadId) (r : Except PatternFault α) : M α :=
  match r with
  | .ok a => return a
  | .error f => nativeErrorText t f.message

/-- A capture of a match from `s` to `e`; without captures the whole match is the first one. -/
def captureAt (t : ThreadId) (src : Bytes) (s e : Nat) (caps : Pattern.Captures) (i : Nat) :
    M Value := do
  match caps[i]? with
  | none =>
    if i != 0 then nativeErrorText t (PatternFault.captureIndex (i + 1 : Nat)).message
    return .str (src.extract s e)
  | some c =>
    match c.extent with
    | .unfinished => nativeErrorText t PatternFault.unfinishedCapture.message
    | .position => return .ofNat (c.start + 1)
    | .length n => return .str (src.extract c.start (c.start + n))

/-- Pushes the captures of a match; `whole` says that a match without captures counts as one. -/
def pushCaptures (t : ThreadId) (src : Bytes) (s e : Nat) (caps : Pattern.Captures)
    (whole : Bool) : M Nat := do
  let n := if caps.size == 0 && whole then 1 else caps.size
  needRoom t n "too many captures"
  (List.range n).forM fun i => do push t (← captureAt t src s e caps i)
  return n

/-- Searches for a pattern or, if `find` is set, perhaps for a plain string. -/
def findOrMatch (find : Bool) (t : ThreadId) : M Nat := do
  let s ← checkString t 1
  let p ← checkString t 2
  let start := startPosition (← optInt t 3 1) s.size - 1
  if start > s.size then
    pushFailure t
    return 1
  let plain ← if find then isTrueAt t 4 else pure false
  if find && (plain || Pattern.isPlain p) then
    match Bytes.find? s p start with
    | some i =>
      pushInt t (i + 1 : Nat)
      pushInt t (i + p.size : Nat)
      return 2
    | none =>
      pushFailure t
      return 1
  else
    match ← matched t ((Pattern.read p).search s start) with
    | some (b, e, caps) =>
      if find then
        pushInt t (b + 1 : Nat)
        pushInt t e
        return (← pushCaptures t s b e caps false) + 2
      else pushCaptures t s b e caps true
    | none =>
      pushFailure t
      return 1

/-! ## Repeated matches -/

/-- Where a repeated match stands: the next position and, if a match ended there, that it did. -/
def encodeProgress (position : Nat) (afterMatch : Bool) : Int64 :=
  if afterMatch then Int64.ofInt (-(position : Int) - 1) else Int64.ofNat position

def decodeProgress (i : Int64) : Nat × Bool :=
  if i < 0 then ((-(i.toInt) - 1).toNat, true) else (i.toInt.toNat, false)

def gmatch (t : ThreadId) : M Nat := do
  let s ← checkString t 1
  let p ← checkString t 2
  let start := min (startPosition (← optInt t 3 1) s.size - 1) (s.size + 1)
  setHeight t 2
  let state := Value.int (encodeProgress start false)
  push t (.closure (← newClosure (.native (.string .gmatchStep) #[.str s, .str p, state])))
  return 1

/-- The next match that does not end where the last one did; `fuel` is the number of further
positions. -/
def nextMatch (p : Pattern) (src : Bytes) (s : Nat) (last : Option Nat) :
    Nat → Except PatternFault (Option (Nat × Nat × Pattern.Captures))
  | 0 => .ok none
  | fuel + 1 => do
    match ← p.matchAt src s with
    | some (e, caps) =>
      if last == some e then nextMatch p src (s + 1) last fuel else return some (s, e, caps)
    | none => nextMatch p src (s + 1) last fuel

def gmatchStep (t : ThreadId) : M Nat := do
  match ← value t (upvalueIndex 1), ← value t (upvalueIndex 2), ← value t (upvalueIndex 3) with
  | .str s, .str p, .int state =>
    let (position, afterMatch) := decodeProgress state
    let last := if afterMatch then some position else none
    let r := nextMatch (Pattern.readUnanchored p) s position last (s.size + 1 - position)
    match ← matched t r with
    | some (b, e, caps) =>
      store t (.int (encodeProgress e true)) (← place t (upvalueIndex 3))
      pushCaptures t s b e caps true
    | none => return 0
  | _, _, _ => return 0

/-! ## Substitution -/

/-- The replacement string for a match; `%` and a digit stand for a capture. -/
def expandReplacement (t : ThreadId) (src : Bytes) (s e : Nat) (caps : Pattern.Captures)
    (acc : Bytes) : List UInt8 → M Bytes
  | [] => return acc
  | 37 :: c :: r => do
    if c == 37 then expandReplacement t src s e caps (acc.push 37) r
    else if c == 48 then expandReplacement t src s e caps (acc ++ src.extract s e) r
    else if Ascii.isDigit c then
      let v ← captureAt t src s e caps (c.toNat - 49)
      expandReplacement t src s e caps (acc ++ v.toBytes?.getD ByteArray.empty) r
    else nativeErrorText t "invalid use of '%' in replacement string"
  | [37] => nativeErrorText t "invalid use of '%' in replacement string"
  | c :: r => expandReplacement t src s e caps (acc.push c) r

/-- What takes the place of a match; `none` leaves it as it is. -/
def replacement (t : ThreadId) (src : Bytes) (s e : Nat) (caps : Pattern.Captures) :
    M (Option Bytes) := do
  let r ← value t 3
  let v ← match r with
    | .table _ => do
      push t (← index t r (← captureAt t src s e caps 0))
      pop t
    | .native _ | .closure _ => do
      push t r
      let n ← pushCaptures t src s e caps true
      Machine.call t n 1
      pop t
    | r => do
      let news := r.toBytes?.getD ByteArray.empty
      pure (.str (← expandReplacement t src s e caps ByteArray.empty news.data.toList))
  if v.isFalse then return none
  match v.toBytes? with
  | some b => return some b
  | none => nativeErrorText t ("invalid replacement value (a " ++ v.kind.name ++ ")")

/-- How far a substitution has come. -/
structure Substitution where
  position : Nat := 0
  last : Option Nat := none
  done : Nat := 0
  changed : Bool := false
  text : Bytes := ByteArray.empty

/-- Replaces matches, at most `limit` of them; `fuel` is a bound on matches and bytes. -/
def substitute (t : ThreadId) (p : Pattern) (src : Bytes) (limit : Int) (g : Substitution) :
    Nat → M Substitution
  | 0 => return g
  | fuel + 1 => do
    if (g.done : Int) ≥ limit then return g
    let skip : M Substitution := do
      if g.position < src.size then
        let g := { g with
          text := g.text.push (src.byteAt g.position), position := g.position + 1 }
        if p.anchored then return g else substitute t p src limit g fuel
      else return g
    match ← matched t (p.matchAt src g.position) with
    | some (e, caps) =>
      if g.last == some e then skip
      else
        let r ← replacement t src g.position e caps
        let g := { g with
          done := g.done + 1
          changed := g.changed || r.isSome
          text := g.text ++ r.getD (src.extract g.position e)
          position := e
          last := some e }
        if p.anchored then return g else substitute t p src limit g fuel
    | none => skip

def gsub (t : ThreadId) : M Nat := do
  let src ← checkString t 1
  let p ← checkString t 2
  let k ← kindAt t 3
  let limit ← optInt t 4 (src.size + 1 : Nat)
  if k != .number && k != .string && k != .function && k != .table then
    argumentTypeError t 3 "string/function/table".toUTF8
  let g ← substitute t (Pattern.read p) src limit {} (2 * src.size + 2)
  if g.changed then pushBytes t (g.text ++ src.extract g.position src.size)
  else pushValue t 1
  pushInt t g.done
  return 2

/-! ## Arithmetic on strings -/

def arithOp : MetaMethod → ArithOp
  | .sub => .sub
  | .mul => .mul
  | .mod => .mod
  | .pow => .pow
  | .div => .div
  | .idiv => .idiv
  | .unm => .unm
  | _ => .add

/-- Arithmetic on operands of which one is a string: strings that denote numbers stand for them, and
otherwise the second operand's handler is asked. -/
def stringArith (m : MetaMethod) (t : ThreadId) : M Nat := do
  let a ← value t 1
  let b ← value t 2
  match a.toNumber?, b.toNumber? with
  | some x, some y =>
    push t (← arith t (arithOp m) (.ofNumber x) (.ofNumber y) .unknown .unknown)
    return 1
  | _, _ =>
    setHeight t 2
    let h ← if b.kind == .string then pure .nil else metaField b m.field.toUTF8
    if h.isNil then
      nativeErrorText t ("attempt to " ++ m.word ++ " a '" ++ a.kind.name ++ "' with a '"
        ++ b.kind.name ++ "'")
    push t h
    insert t (-3)
    Machine.call t 2 1
    return 1

def string : StringFn → ThreadId → M Nat
  | .byte => byte
  | .char => char
  | .dump => dump
  | .find => findOrMatch true
  | .format => format
  | .gmatch => gmatch
  | .gmatchStep => gmatchStep
  | .gsub => gsub
  | .len => len
  | .lower => mapped (Bytes.map Ascii.toLower)
  | .match => findOrMatch false
  | .pack => pack
  | .packsize => packsize
  | .rep => rep
  | .reverse => mapped Bytes.reverse
  | .sub => sub
  | .unpack => unpack
  | .upper => mapped (Bytes.map Ascii.toUpper)
  | .arith m => stringArith m

end LuaHost.Library
