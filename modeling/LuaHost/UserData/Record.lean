import LuaHost.UserData.Binding

/-!
# Record types

A record type shows its exported fields to scripts by name, and may offer its values' own text,
equality and order.
-/

namespace LuaHost

/-- What a record type offers beside its fields. -/
structure RecordType where
  name : String
  fullName : String
  /-- The text of a value. -/
  display : Option (List Field → String) := none
  hasEquality : Bool := false
  hasOrder : Bool := false

namespace FieldValue

def eq : FieldValue → FieldValue → Bool
  | .integer _ a, .integer _ b => a == b
  | .double x, .double y => x.eq y
  | .bool a, .bool b => a == b
  | .text a, .text b => a == b
  | .value a, .value b => a.eq b
  | _, _ => false

/-- How two values stand to each other; a `NaN` stands in no order to anything. -/
def compare? : FieldValue → FieldValue → Option Ordering
  | .integer _ a, .integer _ b => some (compare a b)
  | .double x, .double y =>
    if x.lt y then some .lt else if x.eq y then some .eq else if y.lt x then some .gt else none
  | .bool a, .bool b => some (compare a b)
  | .text a, .text b => some (compare a b)
  | _, _ => none

end FieldValue

namespace Field

def allEqual : List Field → List Field → Bool
  | [], [] => true
  | a :: as, b :: bs => a.value.eq b.value && allEqual as bs
  | _, _ => false

/-- The lexicographic order: the first fields that are not equal decide. -/
def compareAll? : List Field → List Field → Option Ordering
  | a :: as, b :: bs =>
    match a.value.compare? b.value with
    | some .eq => compareAll? as bs
    | o => o
  | _, _ => some .eq

/-- The exported field that scripts know by a name. -/
def find? (fs : List Field) (name : String) : Option Field :=
  fs.find? fun f => f.exported && f.scriptName == name

end Field

namespace RecordType

open Interface

/-- Pushes what a field holds; integers wrap to 64 bits. -/
def pushField (t : ThreadId) : FieldValue → M Unit
  | .integer _ n => pushInteger t (Int64.ofInt n)
  | .double x => pushNumber t x
  | .bool b => pushBoolean t b
  | .text s => pushString t s
  | .value v => pushHost t v

def fieldsOf : HostValue → List Field
  | .record fs => fs
  | _ => []

/-- Looks a field up by the key in the second argument, which must be a string. -/
def answerIndex (u : UserDataId) (t : ThreadId) : M Nat := do
  let fs := fieldsOf (← hostValue u)
  if (fs.filter Field.exported).isEmpty then return 0
  if (← typeOf t 2) != .string then return 0
  match ← toText t 2 with
  | none => return 0
  | some key =>
    match Field.find? fs key with
    | some f =>
      pushField t f.value
      return 1
    | none => return 0

/-- Pushes what a relation says of the two operands; `false` unless both are of the type. -/
def answerRelation (type : HostType) (r : List Field → List Field → Bool) (t : ThreadId) :
    M Nat := do
  let a ← toUserData t type 1
  let b ← toUserData t type 2
  pushBoolean t <| match a, b with
    | some (_, x), some (_, y) => r (fieldsOf x) (fieldsOf y)
    | _, _ => false
  return 1

def isLess (as bs : List Field) : Bool := Field.compareAll? as bs == some .lt

def isLessOrEqual (as bs : List Field) : Bool :=
  match Field.compareAll? as bs with
  | some .lt | some .eq => true
  | _ => false

/-- The operations of a record type. -/
def perform (r : RecordType) (type : HostType) (m : MetaMethod) (u : UserDataId) (t : ThreadId) :
    M Nat := do
  match m with
  | .index => answerIndex u t
  | .tostring =>
    match r.display with
    | some show_ =>
      pushString t (show_ (fieldsOf (← hostValue u)))
      return 1
    | none => return 0
  | .eq => if r.hasEquality then answerRelation type Field.allEqual t else return 0
  | .lt => if r.hasOrder then answerRelation type isLess t else return 0
  | .le => if r.hasOrder then answerRelation type isLessOrEqual t else return 0
  | _ => return 0

/-- A record type as a bound type. -/
def toBound (r : RecordType) (type : HostType) : BoundType :=
  { name := r.name, fullName := r.fullName, perform := r.perform type }

end RecordType

end LuaHost
