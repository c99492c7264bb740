/-!
# Byte strings

Strings of the virtual machine are sequences of bytes without an encoding.  This module holds the
operations that the rest of the library needs on them: reading a byte, the byte order, searching,
and case maps of the ASCII letters.
-/

namespace LuaHost

/-- A string of the virtual machine. -/
abbrev Bytes := ByteArray

namespace Bytes

/-- The bytes of a text in UTF-8. -/
def ofString (s : String) : Bytes := s.toUTF8

instance : Coe String Bytes := ⟨ofString⟩

instance : DecidableEq Bytes := ByteArray.instDecidableEq

/-- The byte at a position; past the end it is zero, which is what a terminated buffer holds. -/
def byteAt (b : Bytes) (i : Nat) : UInt8 :=
  if h : i < b.size then b[i] else 0

/-- The byte at a position, when there is one. -/
def byte? (b : Bytes) (i : Nat) : Option UInt8 :=
  if h : i < b.size then some b[i] else none

def ofList (l : List UInt8) : Bytes := ⟨l.toArray⟩

/-- The string of one byte. -/
def singleton (c : UInt8) : Bytes := ByteArray.empty.push c

/-- The code of an ASCII character. -/
def code (c : Char) : UInt8 := c.toNat.toUInt8

/-- Compares from position `i` on; `fuel` is the number of positions left in the shorter string. -/
def compareFrom (a b : Bytes) (i : Nat) : Nat → Ordering
  | 0 => compare a.size b.size
  | fuel + 1 =>
    match compare (a.byteAt i) (b.byteAt i) with
    | .eq => compareFrom a b (i + 1) fuel
    | o => o

/-- The lexicographic order of bytes, read as unsigned numbers. -/
def cmp (a b : Bytes) : Ordering :=
  compareFrom a b 0 (min a.size b.size)

/-- Whether `pat` stands in `b` at position `i`. -/
def matchesAt (b pat : Bytes) (i : Nat) : Bool :=
  i + pat.size ≤ b.size && b.extract i (i + pat.size) == pat

/-- The first position at or after `i` where `pat` stands in `b`, among `fuel` candidates. -/
def findFrom (b pat : Bytes) (i : Nat) : Nat → Option Nat
  | 0 => none
  | fuel + 1 => if b.matchesAt pat i then some i else findFrom b pat (i + 1) fuel

/-- The first position at or after `i` where `pat` stands in `b`. -/
def find? (b pat : Bytes) (i : Nat) : Option Nat :=
  if i + pat.size ≤ b.size then findFrom b pat i (b.size - pat.size - i + 1) else none

/-- The first position at or after `i` of a byte with the given property. -/
def findByte? (b : Bytes) (p : UInt8 → Bool) (i : Nat) : Option Nat :=
  go i (b.size - i)
where
  go (i : Nat) : Nat → Option Nat
    | 0 => none
    | fuel + 1 => if p (b.byteAt i) then some i else go (i + 1) fuel

/-- The part before the first NUL byte. -/
def untilNul (b : Bytes) : Bytes :=
  match b.findByte? (· == 0) 0 with
  | some i => b.extract 0 i
  | none => b

def startsWith (b pat : Bytes) : Bool := b.matchesAt pat 0

def endsWith (b pat : Bytes) : Bool :=
  pat.size ≤ b.size && b.extract (b.size - pat.size) b.size == pat

/-- `n` copies of a string, by doubling. -/
def replicate (b : Bytes) (n : Nat) : Bytes :=
  n.repeat (· ++ b) ByteArray.empty

def map (f : UInt8 → UInt8) (b : Bytes) : Bytes := ⟨b.data.map f⟩

def reverse (b : Bytes) : Bytes := ⟨b.data.reverse⟩

/-- Joins strings with a separator. -/
def join (sep : Bytes) : List Bytes → Bytes
  | [] => ByteArray.empty
  | x :: xs => xs.foldl (fun acc y => acc ++ sep ++ y) x

end Bytes

/-! ## Character classes of the "C" locale -/

namespace Ascii

def isDigit (c : UInt8) : Bool := 48 ≤ c && c ≤ 57
def isUpper (c : UInt8) : Bool := 65 ≤ c && c ≤ 90
def isLower (c : UInt8) : Bool := 97 ≤ c && c ≤ 122
def isAlpha (c : UInt8) : Bool := isUpper c || isLower c
def isAlnum (c : UInt8) : Bool := isAlpha c || isDigit c
def isSpace (c : UInt8) : Bool := c == 32 || (9 ≤ c && c ≤ 13)
def isControl (c : UInt8) : Bool := c < 32 || c == 127
def isGraph (c : UInt8) : Bool := 33 ≤ c && c ≤ 126
def isPrint (c : UInt8) : Bool := 32 ≤ c && c ≤ 126
def isPunct (c : UInt8) : Bool := isGraph c && !isAlnum c
def isHexDigit (c : UInt8) : Bool := isDigit c || (65 ≤ c && c ≤ 70) || (97 ≤ c && c ≤ 102)

def toLower (c : UInt8) : UInt8 := if isUpper c then c + 32 else c
def toUpper (c : UInt8) : UInt8 := if isLower c then c - 32 else c

/-- The value of a hexadecimal digit. -/
def hexValue (c : UInt8) : Nat :=
  if isDigit c then c.toNat - 48 else (toLower c).toNat - 87

end Ascii

end LuaHost
