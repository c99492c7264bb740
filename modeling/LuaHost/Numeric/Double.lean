import LuaHost.Text.Bytes

/-!
# Doubles

A double is its 64 bits.  Classification, order and the passage to and from integers work on the
bits in exact arithmetic; only the four operations and the elementary functions are left to the
processor.  A `NaN` keeps its sign: an operation on a `NaN` hands the first one on, and an invalid
operation on numbers gives the negative one.
-/

namespace LuaHost

/-- A 64-bit binary floating-point number, given by its bits. -/
structure Double where
  bits : UInt64
deriving DecidableEq, Hashable, Inhabited

namespace Double

/-! ## Parts and classes -/

def negative (x : Double) : Bool := x.bits >>> 63 == 1

/-- The bits without the sign. -/
def magnitude (x : Double) : UInt64 := x.bits &&& 0x7fffffffffffffff

def infinityBits : UInt64 := 0x7ff0000000000000

def isNaN (x : Double) : Bool := infinityBits < x.magnitude
def isInfinite (x : Double) : Bool := x.magnitude == infinityBits
def isFinite (x : Double) : Bool := x.magnitude < infinityBits
def isZero (x : Double) : Bool := x.magnitude == 0

def zero : Double := ⟨0⟩
def infinity : Double := ⟨infinityBits⟩
def negInfinity : Double := ⟨0xfff0000000000000⟩

/-- The `NaN` that an invalid operation gives. -/
def invalid : Double := ⟨0xfff8000000000000⟩

/-- A positive `NaN`. -/
def nan : Double := ⟨0x7ff8000000000000⟩

/-- The significand of a finite double, as an integer. -/
def significand (x : Double) : Nat :=
  let e := x.magnitude >>> 52
  let f := x.magnitude &&& 0xfffffffffffff
  if e == 0 then f.toNat else f.toNat + 0x10000000000000

/-- The exponent of a finite double: it denotes `significand * 2 ^ exponent`, with its sign. -/
def exponent (x : Double) : Int :=
  let e := (x.magnitude >>> 52).toNat
  if e == 0 then -1074 else (e : Int) - 1075

/-! ## Rounding a quotient -/

/-- The integer nearest to `num / den`; a half goes to the even neighbour. -/
def roundQuotient (num den : Nat) : Nat :=
  let q := num / den
  let r := num % den
  if 2 * r > den || (2 * r == den && q % 2 == 1) then q + 1 else q

/-- `num * 2 ^ -q` as a quotient of naturals. -/
def scaledQuotient (num den : Nat) (q : Int) : Nat × Nat :=
  match q with
  | .ofNat k => (num, den <<< k)
  | .negSucc k => (num <<< (k + 1), den)

/-- The exponent at which `num / den` is rounded to at most 53 bits. -/
def roundingExponent (num den : Nat) : Int :=
  let q := max ((num.log2 : Int) - den.log2 - 53) (-1074)
  let (n, d) := scaledQuotient num den q
  if n / d ≥ 0x20000000000000 then q + 1 else q

/-- The double nearest to `num / den`, with the given sign. -/
def ofQuotient (neg : Bool) (num den : Nat) : Double :=
  let sign : UInt64 := if neg then 0x8000000000000000 else 0
  if num == 0 then ⟨sign⟩
  else
    let q := roundingExponent num den
    if q > 971 then ⟨sign ||| infinityBits⟩
    else
      let (n, d) := scaledQuotient num den q
      let m := roundQuotient n d
      let mag := ((q + 1074).toNat <<< 52) + m
      ⟨sign ||| (if mag < infinityBits.toNat then mag.toUInt64 else infinityBits)⟩

/-- The double nearest to an integer. -/
def ofInt (i : Int) : Double := ofQuotient (i < 0) i.natAbs 1

def ofInt64 (i : Int64) : Double := ofInt i.toInt

/-! ## Integers among the doubles -/

/-- The integer that a double denotes, when it denotes one. -/
def toInt? (x : Double) : Option Int :=
  if !x.isFinite then none
  else
    let m := x.significand
    let magnitude : Option Nat :=
      match x.exponent with
      | .ofNat k => some (m <<< k)
      | .negSucc k => if m % (1 <<< (k + 1)) == 0 then some (m >>> (k + 1)) else none
    magnitude.map fun n => if x.negative then -(n : Int) else n

/-- The 64-bit integer that a double denotes, when it denotes one. -/
def toInt64? (x : Double) : Option Int64 :=
  if 0x43f0000000000000 ≤ x.magnitude then none
  else
    match x.toInt? with
    | some i =>
      if -0x8000000000000000 ≤ i && i < 0x8000000000000000 then some (Int64.ofInt i) else none
    | none => none

/-- The absolute value of a double without what stands after the point. -/
def wholePart (x : Double) : Nat :=
  match x.exponent with
  | .ofNat k => x.significand <<< k
  | .negSucc k => x.significand >>> (k + 1)

/-- What a double has after the point, exactly, with the sign of `x`; no rest is a positive zero. -/
def fraction (x : Double) : Double :=
  if x.isNaN then x
  else if x.isInfinite then invalid
  else
    match x.exponent with
    | .ofNat _ => zero
    | .negSucc k =>
      let rest := x.significand % (1 <<< (k + 1))
      if rest == 0 then zero else ofQuotient x.negative rest (1 <<< (k + 1))

/-- The 64-bit integer that a double is cut to; one that is out of range goes to the last integer on
its side, and a `NaN` to zero. -/
def truncate (x : Double) : Int64 :=
  if x.isNaN then 0
  else
    let n : Int := if x.negative then -(x.wholePart : Int) else x.wholePart
    Int64.ofInt (max (-0x8000000000000000) (min n 0x7fffffffffffffff))

/-! ## Order -/

/-- The place of a double among the doubles: equal for the two zeros, and otherwise ordered as the
numbers are. -/
def rank (x : Double) : Int64 :=
  if x.negative then -(x.magnitude.toInt64) else x.magnitude.toInt64

/-- Equality of numbers: a `NaN` equals nothing, and the two zeros are equal. -/
def eq (x y : Double) : Bool := !x.isNaN && !y.isNaN && x.rank == y.rank

def lt (x y : Double) : Bool := !x.isNaN && !y.isNaN && x.rank < y.rank

def le (x y : Double) : Bool := !x.isNaN && !y.isNaN && x.rank ≤ y.rank

/-! ## Arithmetic -/

def toFloat (x : Double) : Float := Float.ofBits x.bits

/-- The result of an operation on numbers; an invalid one has the negative `NaN`. -/
def ofFloat (x : Float) : Double := if x.isNaN then invalid else ⟨x.toBits⟩

/-- Applies an operation, handing on a `NaN` among the operands. -/
@[inline] def lift₂ (f : Float → Float → Float) (x y : Double) : Double :=
  if x.isNaN then x else if y.isNaN then y else ofFloat (f x.toFloat y.toFloat)

@[inline] def lift (f : Float → Float) (x : Double) : Double :=
  if x.isNaN then x else ofFloat (f x.toFloat)

def add (x y : Double) : Double := lift₂ (· + ·) x y
def sub (x y : Double) : Double := lift₂ (· - ·) x y
def mul (x y : Double) : Double := lift₂ (· * ·) x y
def div (x y : Double) : Double := lift₂ (· / ·) x y
def neg (x : Double) : Double := ⟨x.bits ^^^ 0x8000000000000000⟩
def abs (x : Double) : Double := ⟨x.magnitude⟩
def floor (x : Double) : Double := lift Float.floor x
def ceil (x : Double) : Double := lift Float.ceil x

/-- Powers.  One to any power and any number to the power zero are one, even with a `NaN`. -/
def pow (x y : Double) : Double :=
  if y.isZero then ofInt 1
  else if x == ofInt 1 then x
  else lift₂ Float.pow x y

/-- The remainder of the division truncated toward zero, exactly; it has the sign of `x`. -/
def remainder (x y : Double) : Double :=
  if x.isNaN then x
  else if y.isNaN then y
  else if x.isInfinite || y.isZero then invalid
  else if y.isInfinite || x.isZero then x
  else
    let q := min x.exponent y.exponent
    let a := x.significand <<< (x.exponent - q).toNat
    let b := y.significand <<< (y.exponent - q).toNat
    let (n, d) := scaledQuotient (a % b) 1 (-q)
    ofQuotient x.negative n d

/-- The remainder of the floored division: it has the sign of the divisor. -/
def modulo (x y : Double) : Double :=
  let r := remainder x y
  if r.isNaN || r.isZero then r
  else if r.negative != y.negative then r.add y else r

/-- The floored quotient. -/
def floorDiv (x y : Double) : Double := (x.div y).floor

end Double

end LuaHost
