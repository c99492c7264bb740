import LuaHost.Library.Packing
import LuaHost.Text.CodePoint

/-!
# Functions on strings in UTF-8
-/

namespace LuaHost.Library

open Machine

/-- A position counted from the end if negative; zero if that lies before the first byte. -/
def relativePosition (i : Int) (n : Nat) : Int :=
  if i ≥ 0 then i else if -i > n then 0 else n + i + 1

def invalidCode {α : Type} (t : ThreadId) : M α := nativeErrorText t "invalid UTF-8 code"

/-- Counts code points that begin at positions up to `last`; an invalid one stops the count with its
position.  `fuel` bounds the bytes. -/
def countCodes (s : Bytes) (strict : Bool) (last : Int) (i n : Nat) : Nat → Except Nat Nat
  | 0 => .ok n
  | fuel + 1 =>
    if (i : Int) ≤ last then
      match CodePoint.decode s i strict with
      | none => .error i
      | some (_, i) => countCodes s strict last i (n + 1) fuel
    else .ok n

def codeCount (t : ThreadId) : M Nat := do
  let s ← checkString t 1
  let i := relativePosition (← optInt t 2 1) s.size
  let j := relativePosition (← optInt t 3 (-1)) s.size
  let lax ← isTrueAt t 4
  argumentCheck t (1 ≤ i && i - 1 ≤ s.size) 2 "initial position out of bounds"
  argumentCheck t (j - 1 < s.size) 3 "final position out of bounds"
  match countCodes s (!lax) (j - 1) (i - 1).toNat 0 (s.size + 1) with
  | .ok n =>
    pushInt t n
    return 1
  | .error p =>
    pushFailure t
    pushInt t (p + 1 : Nat)
    return 2

/-- Pushes code points that begin before `last`. -/
def pushCodes (t : ThreadId) (s : Bytes) (strict : Bool) (last i n : Nat) : Nat → M Nat
  | 0 => return n
  | fuel + 1 => do
    if i < last then
      match CodePoint.decode s i strict with
      | none => invalidCode t
      | some (x, i) =>
        pushInt t x
        pushCodes t s strict last i (n + 1) fuel
    else return n

def codePoints (t : ThreadId) : M Nat := do
  let s ← checkString t 1
  let i := relativePosition (← optInt t 2 1) s.size
  let j := relativePosition (← optInt t 3 i) s.size
  let lax ← isTrueAt t 4
  argumentCheck t (i ≥ 1) 2 "out of bounds"
  argumentCheck t (j ≤ s.size) 3 "out of bounds"
  if i > j then return 0
  needRoom t (j - i + 1).toNat "string slice too long"
  pushCodes t s (!lax) j.toNat (i - 1).toNat 0 (s.size + 1)

def codesToString (t : ThreadId) : M Nat := do
  let n ← count t
  let pieces ← (List.range n).mapM fun k => do
    let c := (← checkInteger t (k + 1 : Nat)).toUInt64.toNat
    argumentCheck t (c ≤ CodePoint.largest) (k + 1 : Nat) "value out of range"
    return CodePoint.encode c
  pushBytes t (Bytes.ofList pieces.flatten)
  return 1

def isContinuationAt (s : Bytes) (i : Nat) : Bool := CodePoint.isContinuation (s.byteAt i)

/-- Goes back over continuation bytes. -/
def backToStart (s : Bytes) : Nat → Nat
  | 0 => 0
  | i + 1 => if isContinuationAt s (i + 1) then backToStart s i else i + 1

/-- Goes on over continuation bytes. -/
def skipContinuation (s : Bytes) (i : Nat) : Nat → Nat
  | 0 => i
  | fuel + 1 => if isContinuationAt s i then skipContinuation s (i + 1) fuel else i

/-- Goes back `n` code points: where it ends, and how many are missing. -/
def moveBack (s : Bytes) (i : Nat) : Nat → Nat × Nat
  | 0 => (i, 0)
  | n + 1 => if i > 0 then moveBack s (backToStart s (i - 1)) n else (i, n + 1)

/-- Goes on `n` code points; `fuel` bounds them by the bytes. -/
def moveOn (s : Bytes) (i n : Nat) : Nat → Nat × Nat
  | 0 => (i, n)
  | fuel + 1 =>
    if n > 0 && i < s.size then moveOn s (skipContinuation s (i + 1) s.size) (n - 1) fuel
    else (i, n)

def codeOffset (t : ThreadId) : M Nat := do
  let s ← checkString t 1
  let n ← checkInt t 2
  let first : Int := if n > 0 then 1 else s.size + 1
  let i := relativePosition (← optInt t 3 first) s.size
  argumentCheck t (1 ≤ i && i - 1 ≤ s.size) 3 "position out of bounds"
  let i := (i - 1).toNat
  if n == 0 then pushInt t (backToStart s i + 1 : Nat)
  else
    if isContinuationAt s i then nativeErrorText t "initial position is a continuation byte"
    let (i, missing) :=
      if n < 0 then moveBack s i (min n.natAbs (s.size + 1))
      else moveOn s i (n.toNat - 1) (s.size + 1)
    if missing == 0 then pushInt t (i + 1 : Nat) else pushFailure t
  return 1

/-- The next code point of an iteration. -/
def nextCode (strict : Bool) (t : ThreadId) : M Nat := do
  let s ← checkString t 1
  let n := ((← value t 2).toInt64?.getD 0).toUInt64.toNat
  let n := if n < s.size then skipContinuation s n s.size else n
  if n ≥ s.size then return 0
  match CodePoint.decode s n strict with
  | some (x, next) =>
    if isContinuationAt s next then invalidCode t
    pushInt t (n + 1 : Nat)
    pushInt t x
    return 2
  | none => invalidCode t

def iterateCodes (t : ThreadId) : M Nat := do
  let lax ← isTrueAt t 2
  let s ← checkString t 1
  argumentCheck t (!isContinuationAt s 0) 1 "invalid UTF-8 code"
  push t (.native (.utf8 (if lax then .codesStepLax else .codesStep)))
  pushValue t 1
  pushInt t 0
  return 3

def utf8 : Utf8Fn → ThreadId → M Nat
  | .char => codesToString
  | .codepoint => codePoints
  | .codes => iterateCodes
  | .codesStep => nextCode true
  | .codesStepLax => nextCode false
  | .len => codeCount
  | .offset => codeOffset

end LuaHost.Library
