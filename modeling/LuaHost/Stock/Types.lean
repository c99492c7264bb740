import LuaHost.Interface.Execution
import LuaHost.Numeric.Single
import LuaHost.UserData.Record

/-!
# Bound types at hand

The host's own types whose values scripts can hold: one that counts its finalization, one without any
operations, one that remembers what it was asked for, a measure with arithmetic, one that reports
every operation, one whose operations all fail, and four record types.
-/

namespace LuaHost.Stock

open Interface
open Machine (height recordEvent)

/-- The bound types at hand. -/
inductive StockType where
  | counter | plain | echo | meters | ops | bad | point | fields | pair | marker
deriving DecidableEq, Inhabited

namespace StockType

def all : List StockType :=
  [.counter, .plain, .echo, .meters, .ops, .bad, .point, .fields, .pair, .marker]

def name : StockType → String
  | .counter => "Counter"
  | .plain => "Plain"
  | .echo => "Echo"
  | .meters => "Meters"
  | .ops => "Ops"
  | .bad => "Bad"
  | .point => "Point"
  | .fields => "Fields"
  | .pair => "Pair"
  | .marker => "Marker"

/-- The place of the host's types in the names by which the log calls them. -/
def home : String := "driver::host::"

def fullName (s : StockType) : String := home ++ s.name

/-- The number of a type. -/
def type (s : StockType) : HostType := ⟨s.ctorIdx⟩

def ofName? (name : String) : Option StockType := all.find? (·.name == name)

def ofType (t : HostType) : StockType := all.getD t.index .marker

end StockType

/-! ## Operations -/

/-- Records the dropping of a value. -/
def recordDrop (s : StockType) (v : HostValue) : M Unit :=
  match v with
  | .counter n | .plain n => recordEvent ("drop " ++ s.name ++ " " ++ toString n.toInt)
  | .bad => recordEvent ("drop " ++ s.name)
  | _ => return ()

def performCounter (m : MetaMethod) (u : UserDataId) : M Nat := do
  match m, ← hostValue u with
  | .gc, .counter n =>
    recordEvent ("gc Counter " ++ toString n.toInt)
    return 0
  | _, _ => return 0

/-- Answers with what it was asked for, which it remembers, and counts what is written to it. -/
def performEcho (m : MetaMethod) (u : UserDataId) (t : ThreadId) : M Nat := do
  match m with
  | .index =>
    let key := (← toText t 2).getD ""
    if let .echo _ n ← hostValue u then setHostValue u (.echo (some key) n)
    pushString t ("you asked for " ++ key)
    return 1
  | .newindex =>
    if let .echo k n ← hostValue u then setHostValue u (.echo k (n + 1))
    return 0
  | .len =>
    pushInteger t 42
    return 1
  | .call =>
    pushInteger t (Int64.ofInt ((← getTop t) - 1))
    return 1
  | _ => return 0

/-- Adds to the other operand, and writes itself behind its number. -/
def performMeters (m : MetaMethod) (u : UserDataId) (t : ThreadId) : M Nat := do
  match m, ← hostValue u with
  | .add, .meters x =>
    let other := if (← toUserData t StockType.meters.type 1).isSome then 2 else 1
    let y := (← toNumber t other).getD .zero
    pushNumber t (x.add y)
    return 1
  | .concat, .meters x =>
    pushString t (x.display ++ "m")
    return 1
  | _, _ => return 0

/-- The types of all values on the stack, by name. -/
def stackTypes (t : ThreadId) : M String := do
  let names ← (List.range (← height t)).mapM fun (i : Nat) => typeName t ((i : Int) + 1)
  return ",".intercalate names

/-- Reports every operation, as an event and, unless its number is zero, as the result. -/
def performOps (m : MetaMethod) (u : UserDataId) (t : ThreadId) : M Nat := do
  match ← hostValue u with
  | .ops n =>
    let text := m.word ++ "#" ++ toString n.toInt ++ "(" ++ (← stackTypes t) ++ ")"
    recordEvent text
    if n == 0 then return 0
    pushString t text
    return 1
  | _ => return 0

/-- Fails in every way. -/
def performBad (m : MetaMethod) (t : ThreadId) : M Nat := do
  match m with
  | .index => abort "index hook exploded"
  | .len => raise t "no length"
  | .call => argumentError t 2 "bad call"
  | .tostring =>
    pushInteger t 5
    return 1
  | .gc =>
    recordEvent "gc Bad"
    abort "gc hook exploded"
  | _ => return 0

/-! ## Record types -/

def displayPoint : List Field → String
  | { value := .double x, .. } :: { value := .double y, .. } :: _ =>
    "Point(" ++ x.display ++ ", " ++ y.display ++ ")"
  | _ => ""

def pointType : RecordType :=
  { name := StockType.point.name, fullName := StockType.point.fullName
    display := some displayPoint, hasEquality := true, hasOrder := true }

def fieldsType : RecordType :=
  { name := StockType.fields.name, fullName := StockType.fields.fullName }

def pairType : RecordType :=
  { name := StockType.pair.name, fullName := StockType.pair.fullName, hasEquality := true }

def markerType : RecordType :=
  { name := StockType.marker.name, fullName := StockType.marker.fullName }

/-- A point with a label that scripts see under another name, beside fields that they do not see. -/
def pointFields (x y : Double) (tag : String) : List Field :=
  [{ ident := "x", value := .double x },
    { ident := "y", value := .double y },
    { ident := "tag", rename := some "label", value := .text tag },
    { ident := "secret", skipped := true, value := .integer .i64 0 },
    { ident := "_id", isPublic := false, value := .integer .u32 0 }]

/-- A third of an integer in single precision. -/
def singleThird (n : Int64) : Double :=
  let x := Double.singleOfQuotient (n < 0) n.toInt.natAbs 1
  Double.ofSingleBits ((x.div (Double.ofInt 3)).toSingleBits)

/-- One field of each kind, all made from one integer. -/
def fieldsOfEachKind (n : Int64) : List Field :=
  let i := n.toInt
  let integers := [IntType.i8, .i16, .i32, .i64, .isize, .u8, .u16, .u32, .u64, .usize].map
    fun type => { ident := type.name, value := .integer type (type.wrap i) : Field }
  integers ++
    [{ ident := "f32", value := .double (singleThird n) },
      { ident := "f64", value := .double ((Double.ofInt64 n).div (Double.ofInt 3)) },
      { ident := "bool", value := .bool (i % 2 != 0) },
      { ident := "string", value := .text (toString i) },
      { ident := "number", value := .value (.ofInt n) },
      { ident := "value", value := .value (if i < 0 then .nil else .ofDouble (Double.ofInt64 n)) },
      { ident := "table", value := .value (.table (.ofValues [.ofInt n, .ofInt (n + 1)])) }]

def pairFields (a b : Int64) : List Field :=
  [{ ident := "0", isPublic := false, value := .integer .i64 a.toInt },
    { ident := "1", isPublic := false, value := .integer .i64 b.toInt }]

/-! ## The list of types -/

def StockType.bound (s : StockType) : BoundType :=
  match s with
  | .counter =>
    { name := s.name, fullName := s.fullName
      perform := fun m u _ => performCounter m u, drop := fun _ => recordDrop s }
  | .plain => { name := s.fullName, fullName := s.fullName, drop := fun _ => recordDrop s }
  | .echo => { name := s.name, fullName := s.fullName, perform := performEcho }
  | .meters => { name := s.name, fullName := s.fullName, perform := performMeters }
  | .ops => { name := s.name, fullName := s.fullName, perform := performOps }
  | .bad =>
    { name := s.name, fullName := s.fullName
      perform := fun m _ t => performBad m t, drop := fun _ => recordDrop s }
  | .point => pointType.toBound s.type
  | .fields => fieldsType.toBound s.type
  | .pair => pairType.toBound s.type
  | .marker => markerType.toBound s.type

def types : BoundTypes := fun t => (StockType.ofType t).bound

/-! ## Making values -/

def integerArg (args : List Data.Value) (i : Nat) : Int64 :=
  ((args.getD i .nil).asInteger?).getD 0

def doubleArg (args : List Data.Value) (i : Nat) : Double :=
  (((args.getD i .nil).asNumber?).map Number.toDouble).getD .zero

/-- A new value of a type, from host values. -/
def StockType.make (args : List Data.Value) : StockType → HostValue
  | .counter => .counter (integerArg args 0)
  | .plain => .plain (integerArg args 0)
  | .echo => .echo none 0
  | .meters => .meters (doubleArg args 0)
  | .ops => .ops (integerArg args 0)
  | .bad => .bad
  | .point =>
    .record (pointFields (doubleArg args 0) (doubleArg args 1)
      (((args.getD 2 .nil).asString?).getD "p"))
  | .fields => .record (fieldsOfEachKind (integerArg args 0))
  | .pair => .record (pairFields (integerArg args 0) (integerArg args 1))
  | .marker => .record []

/-! ## Describing values -/

/-- A part of a description. -/
inductive DescriptionPart where
  | nothing
  | count (n : Int)
  | double (x : Double)
  | text (s : String)

/-- What a value is, by its type and what it was made from or has become. -/
structure Description where
  type : StockType
  parts : List DescriptionPart

def describeField (f : Field) : DescriptionPart :=
  match f.value with
  | .integer _ n => .count n
  | .double x => .double x
  | .text s => .text s
  | .bool _ | .value _ => .nothing

/-- The integer that a value with fields of each kind was made from. -/
def sourceText (fs : List Field) : String :=
  match Field.find? fs "string" with
  | some { value := .text s, .. } => s
  | _ => ""

def describe (s : StockType) (v : HostValue) : Description :=
  ⟨s, match v with
    | .counter n | .plain n | .ops n => [.count n.toInt]
    | .echo k n => [match k with
        | some k => .text k
        | none => .nothing, .count n]
    | .meters x => [.double x]
    | .bad => []
    | .record fs =>
      match s with
      | .point => (fs.take 3).map describeField
      | .fields => [.text (sourceText fs)]
      | _ => fs.map describeField⟩

end LuaHost.Stock
