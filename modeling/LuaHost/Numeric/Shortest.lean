import LuaHost.Numeric.Double

/-!
# Shortest decimal forms

The shortest form of a finite double is the decimal with the fewest digits that lies in the interval
of reals that round to it, and of those the nearest.  On each decimal grid only the two neighbours
of the value are candidates, so the first grid with a hit decides.
-/

namespace LuaHost

/-- The number `digits * 10 ^ scale`. -/
structure Decimal where
  digits : Nat
  scale : Int
deriving DecidableEq, Inhabited

namespace Decimal

/-- `base ^ e` as a quotient of naturals. -/
def powerQuotient (base : Nat) : Int → Nat × Nat
  | .ofNat k => (base.pow k, 1)
  | .negSucc k => (1, base.pow (k + 1))

/-- Whether `num / den < 10 ^ k`. -/
def belowPower (num den : Nat) (k : Int) : Bool :=
  let (a, b) := powerQuotient 10 k
  num * b < den * a

/-- The least `k` with `num / den < 10 ^ k`, for a positive quotient: a guess from the binary
logarithm, which is at most two too small, then corrected. -/
def magnitudeOf (num den : Nat) : Int :=
  let k := (((num.log2 : Int) - den.log2 - 1) * 30103).fdiv 100000
  if belowPower num den k then k
  else if belowPower num den (k + 1) then k + 1
  else if belowPower num den (k + 2) then k + 2
  else k + 3

end Decimal

namespace Double

/-- The absolute value of a finite double as a quotient of naturals. -/
def toQuotient (x : Double) : Nat × Nat :=
  let (a, b) := Decimal.powerQuotient 2 x.exponent
  (x.significand * a, b)

/-- The interval of reals that round to a positive finite double, as two numerators over a common
denominator, with the value itself between them. -/
structure RoundingInterval where
  low : Nat
  value : Nat
  high : Nat
  den : Nat
  closed : Bool

def roundingInterval (x : Double) : RoundingInterval :=
  let m := x.significand
  let (a, b) := Decimal.powerQuotient 2 (x.exponent - 2)
  let narrow := m == 0x10000000000000 && x.exponent > -1074
  { low := (4 * m - if narrow then 1 else 2) * a
    value := 4 * m * a
    high := (4 * m + 2) * a
    den := b
    closed := m % 2 == 0 }

/-- Whether the decimal lies in the interval. -/
def RoundingInterval.holds (r : RoundingInterval) (d : Decimal) : Bool :=
  let (a, b) := Decimal.powerQuotient 10 d.scale
  let n := d.digits * a * r.den
  if r.closed then r.low * b ≤ n && n ≤ r.high * b else r.low * b < n && n < r.high * b

/-- Of the two neighbours of the value on the grid `10 ^ scale`, the one in the interval that is
nearer; an exact tie goes to the even one. -/
def RoundingInterval.onGrid (r : RoundingInterval) (scale : Int) : Option Decimal :=
  let (a, b) := Decimal.powerQuotient 10 scale
  let num := r.value * b
  let den := r.den * a
  let down : Decimal := ⟨num / den, scale⟩
  let up : Decimal := ⟨num / den + 1, scale⟩
  match r.holds down, r.holds up with
  | true, true =>
    let rest := num % den
    if 2 * rest < den || (2 * rest == den && down.digits % 2 == 0) then some down else some up
  | true, false => some down
  | false, true => some up
  | false, false => none

/-- Tries the grids with `n`, `n + 1`, … digits; seventeen digits always hit.  On the grid without
digits the only candidate is the power of ten above the value. -/
def shortestFrom (r : RoundingInterval) (magnitude : Int) (n : Nat) : Nat → Decimal
  | 0 => ⟨0, 0⟩
  | fuel + 1 =>
    match r.onGrid (magnitude - n) with
    | some d => d
    | none => shortestFrom r magnitude (n + 1) fuel

/-- The shortest decimal that reads back as the absolute value of a finite double. -/
def shortest (x : Double) : Decimal :=
  if x.isZero then ⟨0, 0⟩
  else
    let r := x.roundingInterval
    shortestFrom r (Decimal.magnitudeOf r.value r.den) 0 19

end Double

namespace Decimal

def zeros (n : Nat) : String := "".pushn '0' n

/-- A decimal written positionally, without an exponent. -/
def positional (d : Decimal) : String :=
  let s := toString d.digits
  match d.scale with
  | .ofNat k => if d.digits == 0 then "0" else s ++ zeros k
  | .negSucc k =>
    let places := k + 1
    if places < s.length then
      String.ofList (s.toList.take (s.length - places)) ++ "."
        ++ String.ofList (s.toList.drop (s.length - places))
    else "0." ++ zeros (places - s.length) ++ s

end Decimal

/-- A double as its shortest decimal, always positionally: an integral one has no point. -/
def Double.display (x : Double) : String :=
  if x.isNaN then "NaN"
  else
    let sign := if x.negative then "-" else ""
    sign ++ (if x.isInfinite then "inf" else x.shortest.positional)

end LuaHost
