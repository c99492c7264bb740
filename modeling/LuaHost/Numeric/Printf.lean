import LuaHost.Numeric.Shortest

/-!
# Number formats of a format directive

A directive gives flags, a minimal width and a precision; a conversion turns a number into text
under them.  Doubles are rounded on their exact value, a half to the even neighbour.
-/

namespace LuaHost

/-- What stands between the percent sign and the conversion letter. -/
structure Directive where
  left : Bool := false
  plus : Bool := false
  space : Bool := false
  alternate : Bool := false
  zero : Bool := false
  width : Nat := 0
  precision : Option Nat := none
deriving DecidableEq, Inhabited

namespace Directive

/-- The sign that is written before a number. -/
def sign (d : Directive) (negative : Bool) : String :=
  if negative then "-" else if d.plus then "+" else if d.space then " " else ""

/-- Pads to the width: blanks on the left or right, or zeros between the lead (sign, `0x`) and the
body. -/
def pad (d : Directive) (zeroFill : Bool) (lead body : String) : String :=
  let n := d.width - (lead.length + body.length)
  if d.left then (lead ++ body).pushn ' ' n
  else if zeroFill then lead ++ "".pushn '0' n ++ body
  else "".pushn ' ' n ++ lead ++ body

/-- Digits filled up with zeros on the left to a least number. -/
def fillDigits (least : Nat) (s : String) : String :=
  "".pushn '0' (least - s.length) ++ s

/-- An integer in some radix, given by its digits; a precision is a least number of digits and
switches zero filling off. -/
def integer (d : Directive) (lead digits : String) : String :=
  let body := match d.precision with
    | some p => if p == 0 && digits == "0" then "" else fillDigits p digits
    | none => digits
  d.pad (d.zero && d.precision.isNone) lead body

def radixDigits (base : Nat) (upper : Bool) (n : Nat) : String :=
  let s := String.ofList (Nat.toDigits base n)
  if upper then s.map Char.toUpper else s

/-- A signed decimal integer. -/
def signedInt (d : Directive) (i : Int64) : String :=
  let n := i.toInt
  d.integer (d.sign (n < 0)) (toString n.natAbs)

/-- An integer read as unsigned, in base 8, 10 or 16. -/
def unsignedInt (d : Directive) (base : Nat) (upper : Bool) (i : Int64) : String :=
  let n := i.toUInt64.toNat
  let digits := radixDigits base upper n
  if base == 16 then
    d.integer (if d.alternate && n != 0 then (if upper then "0X" else "0x") else "") digits
  else if base == 8 && d.alternate && n != 0 then
    -- the alternate octal form begins with a zero, which counts as a digit
    { d with precision := some (max (d.precision.getD 1) (digits.length + 1)) }.integer "" digits
  else d.integer "" digits

/-! ## Doubles -/

/-- `places` decimals of a quotient, rounded. -/
def fixedText (num den places : Nat) (alternate : Bool) : String :=
  let n := Double.roundQuotient (num * Nat.pow 10 places) den
  let s := fillDigits (places + 1) (toString n)
  let whole := String.ofList (s.toList.take (s.length - places))
  let part := String.ofList (s.toList.drop (s.length - places))
  if places == 0 then (if alternate then whole ++ "." else whole) else whole ++ "." ++ part

/-- A positive quotient rounded to `count` significant digits: the digits, and the decimal exponent
of the first one. -/
def significantDigits (num den count : Nat) : Nat × Int :=
  if num == 0 then (0, 0)
  else
    let k := Decimal.magnitudeOf num den
    let (a, b) := Decimal.powerQuotient 10 (k - count)
    let n := Double.roundQuotient (num * b) (den * a)
    if n == Nat.pow 10 count then (n / 10, k) else (n, k - 1)

def exponentText (mark : String) (e : Int) : String :=
  let s := toString e.natAbs
  mark ++ (if e < 0 then "-" else "+") ++ fillDigits 2 s

/-- Digits with a point after the first one, and an exponent. -/
def scientificText (digits : String) (e : Int) (mark : String) (alternate : Bool) : String :=
  let whole := String.ofList (digits.toList.take 1)
  let part := String.ofList (digits.toList.drop 1)
  (if part.isEmpty && !alternate then whole else whole ++ "." ++ part) ++ exponentText mark e

/-- Drops zeros at the end, and then a point at the end. -/
def dropTrailingZeros (s : String) : String :=
  if s.contains '.' then
    String.ofList (((s.toList.reverse.dropWhile (· == '0')).dropWhile (· == '.')).reverse)
  else s

/-- The general format: `precision` significant digits, positional unless the exponent is below −4
or not below the precision; zeros at the end are dropped. -/
def generalText (num den precision : Nat) (mark : String) (alternate : Bool) : String :=
  let p := if precision == 0 then 1 else precision
  let (n, e) := significantDigits num den p
  if -4 ≤ e && e < p then
    let s := fixedText num den ((p : Int) - 1 - e).toNat alternate
    if alternate then s else dropTrailingZeros s
  else
    let digits := fillDigits p (toString n)
    let digits := if alternate then digits
      else String.ofList (digits.toList.take 1)
        ++ String.ofList ((digits.toList.drop 1).reverse.dropWhile (· == '0')).reverse
    scientificText digits e mark alternate

/-- The hexadecimal significand and exponent of a double, without the leading `0x`. -/
def hexText (x : Double) (precision : Option Nat) (alternate : Bool) : String :=
  let m := x.significand
  let subnormal := m < 0x10000000000000
  let e : Int := if m == 0 then 0 else if subnormal then -1022 else x.exponent + 52
  let (whole, part) :=
    match precision with
    | none =>
      let part := fillDigits 13 (radixDigits 16 false (m % 0x10000000000000))
      (m / 0x10000000000000, String.ofList (part.toList.reverse.dropWhile (· == '0')).reverse)
    | some p =>
      if p ≥ 13 then
        (m / 0x10000000000000,
          (fillDigits 13 (radixDigits 16 false (m % 0x10000000000000))).pushn '0' (p - 13))
      else
        let n := Double.roundQuotient m (Nat.pow 16 (13 - p))
        let low := radixDigits 16 false (n % Nat.pow 16 p)
        (n / Nat.pow 16 p, if p == 0 then "" else fillDigits p low)
  let body := if part.isEmpty && !alternate then toString whole else toString whole ++ "." ++ part
  body ++ "p" ++ (if e < 0 then "-" else "+") ++ toString e.natAbs

/-- A double under a conversion letter `a`, `e`, `f` or `g`, in upper case when asked for. -/
def double (d : Directive) (conversion : Char) (upper : Bool) (x : Double) : String :=
  let up (s : String) : String := if upper then s.map Char.toUpper else s
  let lead := d.sign x.negative
  if x.isNaN then d.pad false lead (up "nan")
  else if x.isInfinite then d.pad false lead (up "inf")
  else
    let (num, den) := x.toQuotient
    let p := d.precision.getD 6
    match conversion with
    | 'f' => d.pad d.zero lead (fixedText num den p d.alternate)
    | 'e' =>
      let (n, e) := significantDigits num den (p + 1)
      d.pad d.zero lead
        (up (scientificText (fillDigits (p + 1) (toString n)) e "e" d.alternate))
    | 'a' => d.pad d.zero (lead ++ up "0x") (up (hexText x d.precision d.alternate))
    | _ => d.pad d.zero lead (up (generalText num den p "e" d.alternate))

end Directive

end LuaHost
