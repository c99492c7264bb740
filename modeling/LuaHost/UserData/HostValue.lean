import LuaHost.Data.Value

/-!
# Values bound into the machine

A host value of any bound type can live inside the machine's userdata.  The machine sees of it only
its type, by number, and whether it has been finalized; what operations do with it is the type's
matter.
-/

namespace LuaHost

/-- The integer types of record fields. -/
inductive IntType where
  | i8 | i16 | i32 | i64 | isize | u8 | u16 | u32 | u64 | usize
deriving DecidableEq, Inhabited

namespace IntType

def name : IntType → String
  | i8 => "i8"
  | i16 => "i16"
  | i32 => "i32"
  | i64 => "i64"
  | isize => "isize"
  | u8 => "u8"
  | u16 => "u16"
  | u32 => "u32"
  | u64 => "u64"
  | usize => "usize"

def width : IntType → Nat
  | i8 | u8 => 8
  | i16 | u16 => 16
  | i32 | u32 => 32
  | i64 | u64 | isize | usize => 64

def signed : IntType → Bool
  | i8 | i16 | i32 | i64 | isize => true
  | _ => false

/-- An integer wrapped to the type's range. -/
def wrap (t : IntType) (n : Int) : Int :=
  if t.signed then Int.bmod n (1 <<< t.width) else n % (1 <<< t.width : Nat)

end IntType

/-- What a field of a record holds. -/
inductive FieldValue where
  | integer (type : IntType) (n : Int)
  | double (x : Double)
  | bool (b : Bool)
  | text (s : String)
  /-- Anything else that has a host form. -/
  | value (v : Data.Value)
deriving Inhabited

/-- A field of a record type, with what its declaration says about scripts seeing it. -/
structure Field where
  ident : String
  isPublic : Bool := true
  skipped : Bool := false
  /-- Another name for scripts. -/
  rename : Option String := none
  value : FieldValue
deriving Inhabited

/-- The name that scripts know a field by. -/
def Field.scriptName (f : Field) : String := f.rename.getD f.ident

def Field.exported (f : Field) : Bool := f.isPublic && !f.skipped

/-- A bound type, by its number in the host's list of types. -/
structure HostType where
  index : Nat
deriving DecidableEq, Inhabited

/-- The value inside a bound userdata. -/
inductive HostValue where
  | counter (n : Int64)
  | plain (n : Int64)
  /-- The last key asked for, and how many writes there were. -/
  | echo (lastKey : Option String) (writes : Nat)
  | meters (x : Double)
  | ops (n : Int64)
  | bad
  | record (fields : List Field)
deriving Inhabited

/-- The block of a bound userdata. -/
structure Block where
  type : HostType
  /-- Cleared by finalization. -/
  alive : Bool := true
  value : HostValue
deriving Inhabited

end LuaHost
