import LuaHost.Library.Arguments

/-!
# Formatted text

Format directives: `%` with flags, a width and a precision, and a conversion letter.
-/

namespace LuaHost.Library

open Machine

namespace Formatting

/-- A directive as it is written: what stands between `%` and the conversion letter, and the
letter. -/
structure Written where
  modifiers : List UInt8
  conversion : UInt8
deriving Inhabited

/-- The text of a directive, up to a NUL. -/
def Written.text (w : Written) : Bytes :=
  (Bytes.ofList ((37 :: w.modifiers) ++ [w.conversion])).untilNul

/-- The longest sequence of modifiers. -/
def maxModifiers : Nat := 20

def isModifier (c : UInt8) : Bool := Ascii.isDigit c || "-+ #.".toUTF8.data.contains c

/-- The modifiers and the conversion letter after a `%`, and the rest; at the end of the format the
letter is NUL. -/
def readDirective (f : List UInt8) : Written × List UInt8 :=
  let ms := f.takeWhile isModifier
  match f.drop ms.length with
  | c :: r => (⟨ms, c⟩, r)
  | [] => (⟨ms, 0⟩, [])

/-- At most two digits, as a number. -/
def twoDigits : List UInt8 → Nat × List UInt8
  | a :: b :: r =>
    if Ascii.isDigit a then
      if Ascii.isDigit b then ((a.toNat - 48) * 10 + (b.toNat - 48), r) else (a.toNat - 48, b :: r)
    else (0, a :: b :: r)
  | [a] => if Ascii.isDigit a then (a.toNat - 48, []) else (0, [a])
  | [] => (0, [])

/-- The directive that modifiers denote, if they are of the given flags, a width and (where allowed)
a precision. -/
def directive? (flags : String) (precision : Bool) (w : Written) : Option Directive :=
  let fs := w.modifiers.takeWhile fun c => flags.toUTF8.data.contains c
  let rest := w.modifiers.drop fs.length
  let d : Directive :=
    { left := fs.contains 45, plus := fs.contains 43, space := fs.contains 32
      alternate := fs.contains 35, zero := fs.contains 48 }
  if rest.head? == some 48 then none
  else
    let (width, rest) := twoDigits rest
    match rest with
    | [] => if Ascii.isAlpha w.conversion then some { d with width } else none
    | 46 :: r =>
      if precision then
        let (p, r) := twoDigits r
        if r.isEmpty && Ascii.isAlpha w.conversion then
          some { d with width, precision := some p }
        else none
      else none
    | _ => none

/-- Pads a string of bytes to a width with blanks. -/
def padBytes (d : Directive) (s : Bytes) : Bytes :=
  let blanks := Bytes.replicate (Bytes.singleton 32) (d.width - s.size)
  if d.left then s ++ blanks else blanks ++ s

/-- A string as a literal that reads back as it; `next` bytes decide how long a decimal escape must
be. -/
def quotedBytes : List UInt8 → List UInt8
  | [] => []
  | c :: r =>
    if c == 34 || c == 92 || c == 10 then 92 :: c :: quotedBytes r
    else if Ascii.isControl c then
      let digits := toString c.toNat
      let digits := match r with
        | d :: _ => if Ascii.isDigit d then Directive.fillDigits 3 digits else digits
        | [] => digits
      92 :: (digits.toUTF8.data.toList ++ quotedBytes r)
    else c :: quotedBytes r

/-- A double as a literal that reads back as it. -/
def doubleLiteral (x : Double) : String :=
  if x.isNaN then "(0/0)"
  else if x.isInfinite then (if x.negative then "-1e9999" else "1e9999")
  else Directive.double {} 'a' false x

def intLiteral (i : Int64) : String :=
  if i == Int64.minValue then "0x8000000000000000" else toString i.toInt

end Formatting

open Formatting

/-- The directive, or an error for bad modifiers. -/
def checkDirective (t : ThreadId) (w : Written) (flags : String) (precision : Bool) :
    M Directive := do
  match directive? flags precision w with
  | some d => return d
  | none => nativeError t ("invalid conversion '".toUTF8 ++ w.text ++ "' to 'format'".toUTF8)

/-- A value as a literal of the language. -/
def literal (t : ThreadId) (arg : Int) : M Bytes := do
  match ← value? t arg with
  | some (.str s) => return Bytes.ofList (34 :: (quotedBytes s.data.toList ++ [34]))
  | some (.int i) => return (intLiteral i).toUTF8
  | some (.float x) => return (doubleLiteral x).toUTF8
  | some .nil => return "nil".toUTF8
  | some (.bool b) => return (if b then "true" else "false").toUTF8
  | _ => argumentErrorText t arg "value has no literal form"

/-- Strings of this length are not padded. -/
def longString : Nat := 100

/-- An argument under a directive. -/
def formatArgument (t : ThreadId) (w : Written) (arg : Int) : M Bytes := do
  let upper := Ascii.isUpper w.conversion
  match Char.ofNat w.conversion.toNat with
  | 'c' =>
    let d ← checkDirective t w "-" false
    let n ← checkInteger t arg
    return padBytes d (Bytes.singleton n.toUInt64.toUInt8)
  | 'd' | 'i' =>
    let n ← checkInteger t arg
    let d ← checkDirective t w "-+0 " true
    return (d.signedInt n).toUTF8
  | 'u' =>
    let n ← checkInteger t arg
    let d ← checkDirective t w "-0" true
    return (d.unsignedInt 10 false n).toUTF8
  | 'o' | 'x' | 'X' =>
    let n ← checkInteger t arg
    let d ← checkDirective t w "-#0" true
    return (d.unsignedInt (if w.conversion == 111 then 8 else 16) upper n).toUTF8
  | 'a' | 'A' =>
    let d ← checkDirective t w "-+#0 " true
    let x ← checkDouble t arg
    return (d.double 'a' upper x).toUTF8
  | 'f' | 'e' | 'E' | 'g' | 'G' =>
    let x ← checkDouble t arg
    let d ← checkDirective t w "-+#0 " true
    return (d.double (Char.ofNat (Ascii.toLower w.conversion).toNat) upper x).toUTF8
  | 'p' =>
    let v ← value t arg
    let d ← checkDirective t w "-" false
    match v.address with
    | some p => return padBytes d (Value.addressText (some p)).toUTF8
    | none => return padBytes d "(null)".toUTF8
  | 'q' =>
    if !w.modifiers.isEmpty then nativeErrorText t "specifier '%q' cannot have modifiers"
    literal t arg
  | 's' =>
    let s ← pushDisplay t arg
    drop t 1
    if w.modifiers.isEmpty then return s
    argumentCheck t (s.untilNul.size == s.size) arg "string contains zeros"
    let d ← checkDirective t w "-" true
    match d.precision with
    | none => return if s.size ≥ longString then s else padBytes d s
    | some p => return padBytes d (s.extract 0 p)
  | _ => nativeError t ("invalid conversion '".toUTF8 ++ w.text ++ "' to 'format'".toUTF8)

/-- Formats with arguments after `arg`; `fuel` is the length of the format. -/
def formatFrom (t : ThreadId) (top : Nat) (f : List UInt8) (arg : Nat) (acc : Bytes) :
    Nat → M Bytes
  | 0 => return acc
  | fuel + 1 => do
    match f with
    | [] => return acc
    | 37 :: 37 :: r => formatFrom t top r arg (acc.push 37) fuel
    | 37 :: r =>
      let arg := arg + 1
      if arg > top then argumentErrorText t arg "no value"
      let (w, r) := readDirective r
      if w.modifiers.length > maxModifiers then
        nativeErrorText t "invalid format string to 'format'"
      let s ← formatArgument t w arg
      formatFrom t top r arg (acc ++ s) fuel
    | c :: r => formatFrom t top r arg (acc.push c) fuel

def format (t : ThreadId) : M Nat := do
  let top ← count t
  let f := (← checkString t 1).data.toList
  let s ← formatFrom t top f 1 ByteArray.empty (f.length + 1)
  pushBytes t s
  return 1

end LuaHost.Library
