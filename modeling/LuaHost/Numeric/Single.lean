import LuaHost.Numeric.Double

/-!
# Single precision

Numbers of 32 bits, as the doubles that denote them.
-/

namespace LuaHost.Double

/-- The number of single precision nearest to `num / den`, a half to the even neighbour, as 32
bits. -/
def singleBitsOfQuotient (neg : Bool) (num den : Nat) : UInt32 :=
  let sign : UInt32 := if neg then 0x80000000 else 0
  if num == 0 then sign
  else
    let q := max ((num.log2 : Int) - den.log2 - 24) (-149)
    let (n, d) := scaledQuotient num den q
    let q := if n / d ≥ 0x1000000 then q + 1 else q
    if q > 104 then sign ||| 0x7f800000
    else
      let (n, d) := scaledQuotient num den q
      let mag := ((q + 149).toNat <<< 23) + roundQuotient n d
      sign ||| (if mag < 0x7f800000 then mag.toUInt32 else 0x7f800000)

/-- The bits of the single-precision number nearest to a double. -/
def toSingleBits (x : Double) : UInt32 :=
  let sign : UInt32 := if x.negative then 0x80000000 else 0
  if x.isNaN then sign ||| 0x7fc00000
  else if x.isInfinite then sign ||| 0x7f800000
  else
    match x.exponent with
    | .ofNat k => singleBitsOfQuotient x.negative (x.significand <<< k) 1
    | .negSucc k => singleBitsOfQuotient x.negative x.significand (1 <<< (k + 1))

/-- The double that denotes the same number as 32 bits do. -/
def ofSingleBits (b : UInt32) : Double :=
  let neg := b >>> 31 == 1
  let e := ((b >>> 23) &&& 0xff).toNat
  let f := b &&& 0x7fffff
  let sign : UInt64 := if neg then 0x8000000000000000 else 0
  if e == 255 then
    let quiet : UInt64 := if f == 0 then 0 else 0x8000000000000
    let payload : UInt64 := f.toUInt64 <<< 29
    ⟨sign ||| infinityBits ||| quiet ||| payload⟩
  else if e == 0 then ofQuotient neg f.toNat (1 <<< 149)
  else
    let m := f.toNat + 0x800000
    if e ≥ 150 then ofQuotient neg (m <<< (e - 150)) 1 else ofQuotient neg m (1 <<< (150 - e))

/-- `num / den` rounded to single precision. -/
def singleOfQuotient (neg : Bool) (num den : Nat) : Double :=
  ofSingleBits (singleBitsOfQuotient neg num den)

end LuaHost.Double
