import LuaHost.Machine.Inspect
import LuaHost.Numeric.Printf

/-!
# Conversions between values

Numbers to strings and back, numbers to integers, and the text that stands for any value.
-/

namespace LuaHost

namespace Number

/-- How a number is written in scripts' output: an integer in decimal, a double with fourteen
significant digits and a point if it would look like an integer. -/
def text : Number → String
  | .int i => toString i.toInt
  | .float x =>
    let s := Directive.double { precision := some 14 } 'g' false x
    if s.all fun c => c.isDigit || c == '-' then s ++ ".0" else s

end Number

namespace Value

/-- The number that a value is or that its string denotes. -/
def toNumber? : Value → Option Number
  | int i => some (.int i)
  | float x => some (.float x)
  | str s => Number.read s
  | _ => none

def toDouble? (v : Value) : Option Double := v.toNumber?.map Number.toDouble

/-- The integer that a value equals, through strings too. -/
def toInt64? (v : Value) : Option Int64 := v.toNumber?.bind fun
  | .int i => some i
  | .float x => x.toInt64?

/-- A string, or a number as a string. -/
def toBytes? : Value → Option Bytes
  | str s => some s
  | int i => some (Number.text (.int i)).toUTF8
  | float x => some (Number.text (.float x)).toUTF8
  | _ => none

/-- The address that stands for an object; distinct objects have distinct ones. -/
def address : Value → Option UInt64
  | light p => some p
  | native f =>
    let (a, b) := nativeCode f
    some (0x555555400000 + (a * 4096 + b * 16).toUInt64)
  | closure c => some (0x555556000000 + (c.index * 0x200).toUInt64)
  | table t => some (0x555556000080 + (t.index * 0x200).toUInt64)
  | userdata u => some (0x555556000100 + (u.index * 0x200).toUInt64)
  | thread t => some (0x555556000180 + (t.index * 0x200).toUInt64)
  | str s => some (0x7f0000000000 + (hash s &&& 0xfffffff0))
  | _ => none

/-- A pointer as text. -/
def addressText : Option UInt64 → String
  | none | some 0 => "(nil)"
  | some p => "0x" ++ String.ofList (Nat.toDigits 16 p.toNat)

end Value

namespace Machine

/-- Turns a number at an index into a string in place; the string at the index, if it is one now. -/
def toBytesAt (t : ThreadId) (idx : Int) : M (Option Bytes) := do
  let p ← place t idx
  match ← valueAt t p with
  | .str s => return some s
  | v =>
    match v.toBytes? with
    | some s =>
      store t (.str s) p
      return some s
    | none => return none

/-- The text of a value that has no handler for it. -/
def plainText (v? : Option Value) : M Bytes := do
  match v? with
  | none => return ("no value: " ++ Value.addressText none).toUTF8
  | some v =>
    match v with
    | .nil => return "nil".toUTF8
    | .bool b => return (if b then "true" else "false").toUTF8
    | .str s => return s
    | .int i => return (Number.text (.int i)).toUTF8
    | .float x => return (Number.text (.float x)).toUTF8
    | v =>
      let word ← match ← metaField v "__name".toUTF8 with
        | .str s => pure s
        | _ => pure v.kind.name.toUTF8
      return word ++ (": " ++ Value.addressText v.address).toUTF8

/-- The text of a value: what its `__tostring` handler answers, or its plain text. -/
def displayValue (t : ThreadId) (v? : Option Value) : M Value := do
  match v? with
  | none => return .str (← plainText none)
  | some v =>
    let h ← metaField v "__tostring".toUTF8
    if h.isNil then return .str (← plainText (some v))
    let r ← callHandler t h [v]
    if !isStringOrNumber r then nativeErrorText t "'__tostring' must return a string"
    return r

/-- The text of the value at an index, pushed. -/
def pushDisplay (t : ThreadId) (idx : Int) : M Bytes := do
  let r ← displayValue t (← value? t idx)
  push t r
  return (← toBytesAt t (-1)).getD ByteArray.empty

end Machine

end LuaHost
