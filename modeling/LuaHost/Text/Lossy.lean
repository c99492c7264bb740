import LuaHost.Text.Bytes

/-!
# Reading bytes as text

A byte string is read as UTF-8.  Where it is not valid, every maximal piece that begins like a
character and then breaks off becomes one replacement character U+FFFD, and so does every byte that
cannot begin a character.
-/

namespace LuaHost.Bytes

/-- How many bytes a character that begins with this byte has; zero if none begins so. -/
def leadWidth (c : UInt8) : Nat :=
  if c < 0x80 then 1
  else if 0xC2 ≤ c && c ≤ 0xDF then 2
  else if 0xE0 ≤ c && c ≤ 0xEF then 3
  else if 0xF0 ≤ c && c ≤ 0xF4 then 4
  else 0

def isContinuation (c : UInt8) : Bool := 0x80 ≤ c && c ≤ 0xBF

/-- Which second bytes may follow a lead byte: overlong forms, surrogates and numbers above
U+10FFFF are shut out here. -/
def secondAllowed (lead c : UInt8) : Bool :=
  if lead == 0xE0 then 0xA0 ≤ c && c ≤ 0xBF
  else if lead == 0xED then 0x80 ≤ c && c ≤ 0x9F
  else if lead == 0xF0 then 0x90 ≤ c && c ≤ 0xBF
  else if lead == 0xF4 then 0x80 ≤ c && c ≤ 0x8F
  else isContinuation c

/-- One piece of a byte string: a whole character, or a broken piece. -/
inductive Piece where
  | char (c : Char) (width : Nat)
  | broken (width : Nat)

def Piece.width : Piece → Nat
  | .char _ w => w
  | .broken w => w

/-- The piece that begins at position `i`. -/
def pieceAt (b : Bytes) (i : Nat) : Piece :=
  let c := b.byteAt i
  let c1 := b.byteAt (i + 1)
  let c2 := b.byteAt (i + 2)
  let c3 := b.byteAt (i + 3)
  match leadWidth c with
  | 1 => .char (Char.ofNat c.toNat) 1
  | 2 =>
    if !isContinuation c1 then .broken 1
    else .char (Char.ofNat ((c.toNat - 0xC0) * 64 + (c1.toNat - 0x80))) 2
  | 3 =>
    if !secondAllowed c c1 then .broken 1
    else if !isContinuation c2 then .broken 2
    else .char (Char.ofNat ((c.toNat - 0xE0) * 4096 + (c1.toNat - 0x80) * 64 + (c2.toNat - 0x80))) 3
  | 4 =>
    if !secondAllowed c c1 then .broken 1
    else if !isContinuation c2 then .broken 2
    else if !isContinuation c3 then .broken 3
    else .char (Char.ofNat ((c.toNat - 0xF0) * 262144 + (c1.toNat - 0x80) * 4096
      + (c2.toNat - 0x80) * 64 + (c3.toNat - 0x80))) 4
  | _ => .broken 1

/-- Decodes from position `i`; `fuel` bounds the pieces by the bytes left. -/
def decodeFrom (b : Bytes) (i : Nat) (acc : String) : Nat → String
  | 0 => acc
  | fuel + 1 =>
    if i < b.size then
      match b.pieceAt i with
      | .char c w => decodeFrom b (i + w) (acc.push c) fuel
      | .broken w => decodeFrom b (i + w) (acc.push '\uFFFD') fuel
    else acc

/-- The text of a byte string, with replacement characters for what is not UTF-8. -/
def toText (b : Bytes) : String :=
  match String.fromUTF8? b with
  | some s => s
  | none => decodeFrom b 0 "" b.size

end LuaHost.Bytes
