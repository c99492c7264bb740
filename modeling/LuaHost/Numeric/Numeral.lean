import LuaHost.Numeric.Double

/-!
# Reading numerals

A text denotes an integer (decimal, or hexadecimal with wrap-around) or a double (decimal with an
optional exponent, or hexadecimal with an optional binary exponent), between optional blanks.  A
decimal integer that does not fit in 64 bits is read as a double.
-/

namespace LuaHost

/-- A number of the virtual machine: a 64-bit integer or a double. -/
inductive Number where
  | int (i : Int64)
  | float (x : Double)
deriving DecidableEq, Inhabited

namespace Numeral

/-- A reading position: what is left of the text. -/
abbrev Rest := List UInt8

def skipSpace (s : Rest) : Rest := s.dropWhile Ascii.isSpace

/-- An optional sign, and whether it is a minus. -/
def readSign : Rest → Bool × Rest
  | 45 :: r => (true, r)
  | 43 :: r => (false, r)
  | r => (false, r)

/-- Whether a hexadecimal mark stands here. -/
def hexMark : Rest → Option Rest
  | 48 :: 120 :: r => some r
  | 48 :: 88 :: r => some r
  | _ => none

/-- Digits in a radix, appended to a number. -/
def foldDigits (base : Nat) (value : UInt8 → Nat) (acc : Nat) (ds : List UInt8) : Nat :=
  ds.foldl (fun n c => n * base + value c) acc

/-- Only blanks may follow a numeral. -/
def atEnd (s : Rest) : Bool := (skipSpace s).isEmpty

/-- An integer numeral: decimal ones must fit in 64 bits, hexadecimal ones wrap around. -/
def readInt (s : Rest) : Option Int64 :=
  let (neg, s) := readSign (skipSpace s)
  match hexMark s with
  | some r =>
    let ds := r.takeWhile Ascii.isHexDigit
    if ds.isEmpty || !atEnd (r.drop ds.length) then none
    else
      let n := Int64.ofInt (foldDigits 16 Ascii.hexValue 0 ds : Nat)
      some (if neg then 0 - n else n)
  | none =>
    let ds := s.takeWhile Ascii.isDigit
    if ds.isEmpty || !atEnd (s.drop ds.length) then none
    else
      let n := foldDigits 10 Ascii.hexValue 0 ds
      if n < 0x8000000000000000 || (neg && n == 0x8000000000000000) then
        some (Int64.ofInt (if neg then -(n : Int) else n))
      else none

/-- An exponent after its mark: an optional sign and at least one digit. -/
def readExponent (s : Rest) : Option (Int × Rest) :=
  let (neg, s) := readSign s
  let ds := s.takeWhile Ascii.isDigit
  if ds.isEmpty then none
  else
    let e := foldDigits 10 Ascii.hexValue 0 ds
    some (if neg then -(e : Int) else e, s.drop ds.length)

/-- Digits around an optional point: all digits together, how many stand after the point, and the
rest. -/
def readDigits (isDigit : UInt8 → Bool) (s : Rest) : List UInt8 × Nat × Rest :=
  let whole := s.takeWhile isDigit
  match s.drop whole.length with
  | 46 :: r =>
    let part := r.takeWhile isDigit
    (whole ++ part, part.length, r.drop part.length)
  | r => (whole, 0, r)

/-- The exponent that follows, if its mark and digits are there; a mark without digits is left. -/
def optionalExponent (lower upper : UInt8) : Rest → Int × Rest
  | c :: r =>
    if c == lower || c == upper then
      match readExponent r with
      | some (e, r') => (e, r')
      | none => (0, c :: r)
    else (0, c :: r)
  | [] => (0, [])

/-- `digits * base ^ e` as a double; exponents far out of range are cut off first. -/
def scaled (neg : Bool) (digits : Nat) (base : Nat) (e : Int) : Double :=
  if digits == 0 then Double.ofQuotient neg 0 1
  else
    match e with
    | .ofNat k => if k > 5000 then ⟨if neg then 0xfff0000000000000 else 0x7ff0000000000000⟩
      else Double.ofQuotient neg (digits * base.pow k) 1
    | .negSucc k =>
      if k > 5000 + 4 * digits.log2 then Double.ofQuotient neg 0 1
      else Double.ofQuotient neg digits (base.pow (k + 1))

/-- A double at the beginning of a text, and what is left. -/
def readDoubleAt (s : Rest) : Option (Double × Rest) :=
  let (neg, s) := readSign s
  match hexMark s with
  | some r =>
    let (ds, places, r) := readDigits Ascii.isHexDigit r
    if ds.isEmpty then none
    else
      let (e, r) := optionalExponent 112 80 r
      some (scaled neg (foldDigits 16 Ascii.hexValue 0 ds) 2 (e - 4 * places), r)
  | none =>
    let (ds, places, r) := readDigits Ascii.isDigit s
    if ds.isEmpty then none
    else
      let (e, r) := optionalExponent 101 69 r
      some (scaled neg (foldDigits 10 Ascii.hexValue 0 ds) 10 (e - places), r)

/-- A double numeral with optional blanks around it; names of infinities and `NaN`s are none. -/
def readDouble (s : Rest) : Option Double :=
  match readDoubleAt (skipSpace s) with
  | some (x, r) => if atEnd r then some x else none
  | none => none

end Numeral

/-- The number that a text denotes. -/
def Number.read (b : Bytes) : Option Number :=
  let s := b.data.toList
  match Numeral.readInt s with
  | some i => some (.int i)
  | none => (Numeral.readDouble s).map .float

end LuaHost
