import LuaHost.Numeric.Numeral
import LuaHost.Numeric.Shortest

/-!
# Numbers on the host side

Integers and doubles are kept apart: `1` and `1.0` are different numbers here.
-/

namespace LuaHost.Number

def isInteger : Number → Bool
  | .int _ => true
  | .float _ => false

def toDouble : Number → Double
  | .int i => Double.ofInt64 i
  | .float x => x

/-- The least 64-bit integer: -2 ^ 63. -/
def leastInt64 : Double := ⟨0xc3e0000000000000⟩

/-- Where 64-bit integers end: 2 ^ 63. -/
def int64Limit : Double := ⟨0x43e0000000000000⟩

/-- The 64-bit integer that a number is equal to, if there is one: a double must have nothing after
the point and lie within the bounds. -/
def toInt64? : Number → Option Int64
  | .int i => some i
  | .float x =>
    if x.fraction.isZero && leastInt64.le x && x.lt int64Limit then some x.truncate else none

/-- Equality within one subtype. -/
def eq : Number → Number → Bool
  | .int i, .int j => i == j
  | .float x, .float y => x.eq y
  | _, _ => false

/-- Where integral doubles stop being written with a point: 10 ^ 16. -/
def pointLimit : Double := ⟨0x4341c37937e08000⟩

/-- A number as text.  Integral doubles below 10 ^ 16 keep a `.0`, so that they read back as
doubles; larger ones are plain digits. -/
def display : Number → String
  | .int i => toString i.toInt
  | .float x =>
    if x.isNaN then (if x.negative then "-nan" else "nan")
    else if x.isInfinite then (if x.negative then "-inf" else "inf")
    else if x.fraction.isZero && x.abs.lt pointLimit then x.display ++ ".0"
    else x.display

end LuaHost.Number
