import LuaHost.Text.Bytes

/-!
# Code points in extended UTF-8

Code points of up to 31 bits take one to six bytes: the first byte tells how many follow, and each
of those carries six bits.
-/

namespace LuaHost.CodePoint

/-- The largest code point that can be written. -/
def largest : Nat := 0x7FFFFFFF

/-! ## Writing -/

/-- Splits off groups of six bits until the rest fits in the first byte, which has `room`. -/
def tail (x room : Nat) (acc : List UInt8) : Nat → Nat × Nat × List UInt8
  | 0 => (x, room, acc)
  | fuel + 1 =>
    if x > room then tail (x / 64) (room / 2) ((0x80 + x % 64).toUInt8 :: acc) fuel
    else (x, room, acc)

/-- The bytes of a code point. -/
def encode (x : Nat) : List UInt8 :=
  if x < 0x80 then [x.toUInt8]
  else
    let (lead, room, rest) := tail (x / 64) 0x1f [(0x80 + x % 64).toUInt8] 6
    ((254 - 2 * room + lead) % 256).toUInt8 :: rest

/-! ## Reading -/

def isContinuation (c : UInt8) : Bool := c &&& 0xC0 == 0x80

/-- The least code point that needs each number of further bytes. -/
def least : List Nat := [0, 0x80, 0x800, 0x10000, 0x200000, 0x4000000]

/-- How many further bytes a first byte announces. -/
def further (c : UInt8) : Option Nat :=
  if c < 0x80 then some 0
  else if c < 0xC0 then none
  else if c < 0xE0 then some 1
  else if c < 0xF0 then some 2
  else if c < 0xF8 then some 3
  else if c < 0xFC then some 4
  else if c < 0xFE then some 5
  else none

/-- The code point at a position, and the position behind it.  Overlong forms are refused, and with
`strict` also surrogates and what lies beyond Unicode. -/
def decode (b : Bytes) (i : Nat) (strict : Bool) : Option (Nat × Nat) :=
  match further (b.byteAt i) with
  | none => none
  | some n =>
    let rest := (List.range n).map fun k => b.byteAt (i + 1 + k)
    if !rest.all isContinuation then none
    else
      let first := (b.byteAt i).toNat
      let lead := if n == 0 then first else first % (1 <<< (6 - n))
      let x := rest.foldl (fun x c => x * 64 + c.toNat % 64) lead
      if x < least.getD n 0 || x > largest then none
      else if strict && (x > 0x10FFFF || (0xD800 ≤ x && x ≤ 0xDFFF)) then none
      else some (x, i + n + 1)

end LuaHost.CodePoint
