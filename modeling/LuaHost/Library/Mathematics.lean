import LuaHost.Library.Arguments

/-!
# Mathematical functions

Functions on numbers, and a generator of pseudo-random numbers.
-/

namespace LuaHost.Library

open Machine

/-! ## Elementary functions -/

/-- Pushes a function of a number. -/
def pushMapped (f : Double → Double) (t : ThreadId) : M Nat := do
  pushFloat t (f (← checkDouble t 1))
  return 1

def elementary (f : Float → Float) (t : ThreadId) : M Nat := pushMapped (Double.lift f) t

/-- A double as an integer if it denotes one. -/
def asInteger (x : Double) : Value :=
  match x.toInt64? with
  | some i => .int i
  | none => .float x

/-- Rounds with `f`; integers stay. -/
def rounded (f : Double → Double) (t : ThreadId) : M Nat := do
  match ← value t 1 with
  | .int _ => setHeight t 1
  | _ => push t (asInteger (f (← checkDouble t 1)))
  return 1

def absolute (t : ThreadId) : M Nat := do
  match ← value t 1 with
  | .int i => push t (.int (if i < 0 then 0 - i else i))
  | _ => pushFloat t (← checkDouble t 1).abs
  return 1

def arcTangent (t : ThreadId) : M Nat := do
  let y ← checkDouble t 1
  let x ← optDouble t 2 (Double.ofInt 1)
  pushFloat t (Double.lift₂ Float.atan2 y x)
  return 1

def logarithm (t : ThreadId) : M Nat := do
  let x ← checkDouble t 1
  if ← isNoneOrNil t 2 then pushFloat t (Double.lift Float.log x)
  else
    let base ← checkDouble t 2
    pushFloat t
      (if base == Double.ofInt 2 then Double.lift Float.log2 x
      else if base == Double.ofInt 10 then Double.lift Float.log10 x
      else (Double.lift Float.log x).div (Double.lift Float.log base))
  return 1

def power (t : ThreadId) : M Nat := do
  pushFloat t ((← checkDouble t 1).pow (← checkDouble t 2))
  return 1

/-- The remainder of the division truncated toward zero. -/
def truncatedRemainder (t : ThreadId) : M Nat := do
  match ← value t 1, ← value t 2 with
  | .int a, .int b =>
    argumentCheck t (b != 0) 2 "zero"
    push t (.int (if b == -1 then 0 else Int64.ofInt (a.toInt.tmod b.toInt)))
  | _, _ => pushFloat t ((← checkDouble t 1).remainder (← checkDouble t 2))
  return 1

/-- The integral part, toward zero, and the rest. -/
def parts (t : ThreadId) : M Nat := do
  match ← value t 1 with
  | .int _ =>
    setHeight t 1
    pushFloat t Double.zero
  | _ =>
    let x ← checkDouble t 1
    let whole := if x.lt Double.zero then x.ceil else x.floor
    pushFloat t whole
    pushFloat t (if whole.eq x then Double.zero else x.sub whole)
  return 2

/-- The significand in `[1/2, 1)` and the exponent. -/
def splitExponent (t : ThreadId) : M Nat := do
  let x ← checkDouble t 1
  if x.isFinite then
    let (m, e) := x.toFloat.frExp
    pushFloat t (Double.ofFloat m)
    pushInt t e
  else
    pushFloat t x
    pushInt t 0
  return 2

def scaleByPower (t : ThreadId) : M Nat := do
  let x ← checkDouble t 1
  let e ← checkInt t 2
  pushFloat t (Double.lift (·.scaleB e) x)
  return 1

/-- The double nearest to π. -/
def pi : Double := ⟨0x400921fb54442d18⟩

/-! ## Integers and order -/

def toInteger (t : ThreadId) : M Nat := do
  match (← value t 1).toInt64? with
  | some i => push t (.int i)
  | none =>
    checkAny t 1
    pushFailure t
  return 1

def unsignedLess (t : ThreadId) : M Nat := do
  let a ← checkInteger t 1
  let b ← checkInteger t 2
  pushBool t (a.toUInt64 < b.toUInt64)
  return 1

def numberType (t : ThreadId) : M Nat := do
  match ← value t 1 with
  | .int _ => pushText t "integer"
  | .float _ => pushText t "float"
  | _ =>
    checkAny t 1
    pushFailure t
  return 1

/-- The argument that no other one is better than; the first of equals. -/
def extremum (better : ThreadId → Value → Value → M Bool) (t : ThreadId) : M Nat := do
  let n ← count t
  argumentCheck t (n ≥ 1) 1 "value expected"
  let best ← (List.range (n - 1)).foldlM
    (fun best k => do
      let v ← value t (k + 2 : Nat)
      return if ← better t v best then v else best)
    (← value t 1)
  push t best
  return 1

/-! ## Pseudo-random numbers -/

def rotateLeft (x : UInt64) (n : UInt64) : UInt64 := (x <<< n) ||| (x >>> (64 - n))

abbrev RandomState := UInt64 × UInt64 × UInt64 × UInt64

/-- The next value of the generator, and its next state. -/
def nextRandom : RandomState → UInt64 × RandomState
  | (a, b, c, d) =>
    let r := rotateLeft (b * 5) 7 * 9
    let c' := c ^^^ a
    let d' := d ^^^ b
    (r, (a ^^^ d', b ^^^ c', c' ^^^ (b <<< 17), rotateLeft d' 45))

def drawRandom : M UInt64 := do
  let (r, s) := nextRandom (← get).random
  modify fun w => { w with random := s }
  return r

/-- The state that two seeds give. -/
def seeded (a b : UInt64) : RandomState :=
  (List.range 16).foldl (fun s _ => (nextRandom s).2) (a, 0xff, b, 0)

/-- A value in `[0, n]`: bits beyond those of `n` are cut off, and values above `n` are drawn again.
`fuel` bounds the draws. -/
def project (mask n ran : UInt64) : Nat → M UInt64
  | 0 => return n
  | fuel + 1 => do
    let r := ran &&& mask
    if r ≤ n then return r else project mask n (← drawRandom) fuel

def random (t : ThreadId) : M Nat := do
  let r ← drawRandom
  let between (low up : Int64) : M Nat := do
    argumentCheck t (low ≤ up) 2 "interval is empty"
    let n := up.toUInt64 - low.toUInt64
    let mask := (1 <<< (n.toNat.log2 + 1) - 1).toUInt64
    let p ← project mask n r 10000
    push t (.int (p + low.toUInt64).toInt64)
    return 1
  match ← count t with
  | 0 =>
    pushFloat t (Double.ofQuotient false (r >>> 11).toNat 0x20000000000000)
    return 1
  | 1 =>
    let up ← checkInteger t 1
    if up == 0 then
      push t (.int r.toInt64)
      return 1
    between 1 up
  | 2 => between (← checkInteger t 1) (← checkInteger t 2)
  | _ => nativeErrorText t "wrong number of arguments"

def randomSeed (t : ThreadId) : M Nat := do
  let (a, b) ← if ← isNone t 1 then do pure (← drawRandom, ← drawRandom)
    else do
      let x ← checkDouble t 1
      let a := match (← value t 1).toInt64? with
        | some i => i.toUInt64
        | none => x.bits
      pure (a, (← optInteger t 2 0).toUInt64)
  modify fun w => { w with random := seeded a b }
  push t (.int a.toInt64)
  push t (.int b.toInt64)
  return 2

def math : MathFn → ThreadId → M Nat
  | .abs => absolute
  | .acos => elementary Float.acos
  | .asin => elementary Float.asin
  | .atan => arcTangent
  | .ceil => rounded Double.ceil
  | .cos => elementary Float.cos
  | .cosh => elementary Float.cosh
  | .deg => pushMapped fun x => x.mul ((Double.ofInt 180).div pi)
  | .exp => elementary Float.exp
  | .floor => rounded Double.floor
  | .fmod => truncatedRemainder
  | .frexp => splitExponent
  | .ldexp => scaleByPower
  | .log => logarithm
  | .log10 => elementary Float.log10
  | .max => extremum fun t v best => lessThan t best v
  | .min => extremum fun t v best => lessThan t v best
  | .modf => parts
  | .pow => power
  | .rad => pushMapped fun x => x.mul (pi.div (Double.ofInt 180))
  | .random => random
  | .randomseed => randomSeed
  | .sin => elementary Float.sin
  | .sinh => elementary Float.sinh
  | .sqrt => elementary Float.sqrt
  | .tan => elementary Float.tan
  | .tanh => elementary Float.tanh
  | .tointeger => toInteger
  | .type => numberType
  | .ult => unsignedLess

end LuaHost.Library
