import LuaHost.Data.Number

/-!
# Keys of host tables

`Key` is what a caller looks up with; `TableKey` is what the map part of a table stores.  A stored
double is never a `NaN` and never the negative zero, so two stored keys are equal exactly when their
bits are.
-/

namespace LuaHost

/-- A double that is used as a key. -/
structure FloatKey where
  value : Double
deriving DecidableEq, Inhabited

namespace FloatKey

/-- The key of a double: none for a `NaN`, and one key for both zeros. -/
def ofDouble (x : Double) : Option FloatKey :=
  if x.isNaN then none else some ⟨if x.isZero then Double.zero else x⟩

/-- Hashes a key with a hasher that takes in 64 bits at a time: it is given the bits of the double. -/
def hash {σ : Type} (write : σ → UInt64 → σ) (state : σ) (k : FloatKey) : σ :=
  write state k.value.bits

end FloatKey

/-- A key of the map part. -/
inductive TableKey where
  | bool (b : Bool)
  | string (s : String)
  | integer (i : Int64)
  | number (x : FloatKey)
deriving DecidableEq, Inhabited

/-- A key as callers give it. -/
inductive Key where
  | bool (b : Bool)
  | string (s : String)
  | integer (i : Int64)
  | float (x : Double)
deriving DecidableEq, Inhabited

namespace TableKey

def order : TableKey → Nat
  | .bool _ => 0
  | .string _ => 1
  | .integer _ => 2
  | .number _ => 3

/-- The order in which a map part lists its keys. -/
def cmp : TableKey → TableKey → Ordering
  | .bool a, .bool b => compare a b
  | .string a, .string b => compare a b
  | .integer a, .integer b => compare a b
  | .number a, .number b => compare a.value.bits b.value.bits
  | a, b => compare a.order b.order

end TableKey

end LuaHost
