/-!
# Kinds of values, thread states and comparisons

The closed enumerations of the machine's interface, with the words they are shown by.
-/

namespace LuaHost

/-- The type of a value as a stack index shows it; `none` is an index without a value. -/
inductive Kind where
  | none | nil | boolean | lightUserData | number | string | table | function | userData | thread
deriving DecidableEq, Inhabited

namespace Kind

/-- The name that messages give to a type. -/
def name : Kind → String
  | .none => "no value"
  | .nil => "nil"
  | .boolean => "boolean"
  | .lightUserData => "userdata"
  | .number => "number"
  | .string => "string"
  | .table => "table"
  | .function => "function"
  | .userData => "userdata"
  | .thread => "thread"

/-- The word that stands for a type itself, where types are shown apart. -/
def word : Kind → String
  | .none => "None"
  | .nil => "Nil"
  | .boolean => "Boolean"
  | .lightUserData => "LightUserData"
  | .number => "Number"
  | .string => "String"
  | .table => "Table"
  | .function => "Function"
  | .userData => "UserData"
  | .thread => "Thread"

/-- Whether values of this type are objects that a registry handle is needed for. -/
def isReference : Kind → Bool
  | .string | .table | .function | .userData | .thread => true
  | _ => false

def all : List Kind :=
  [.none, .nil, .boolean, .lightUserData, .number, .string, .table, .function, .userData, .thread]

end Kind

/-- How a call, a load or a thread stands. -/
inductive Status where
  | ok | yield | errRun | errSyntax | errMem | errErr | errFile
deriving DecidableEq, Inhabited

namespace Status

/-- The word for a status. -/
def word : Status → String
  | .ok => "Ok"
  | .yield => "Yield"
  | .errRun => "ErrRun"
  | .errSyntax => "ErrSyntax"
  | .errMem => "ErrMem"
  | .errErr => "ErrErr"
  | .errFile => "ErrFile"

def all : List Status := [.ok, .yield, .errRun, .errSyntax, .errMem, .errErr, .errFile]

def isOk (s : Status) : Bool := s == .ok

def isError : Status → Bool
  | .ok | .yield => false
  | _ => true

end Status

/-- The comparisons that may call metamethods. -/
inductive Comparison where
  | eq | lt | le
deriving DecidableEq, Inhabited

/-- The operations that a bound host value can answer. -/
inductive MetaMethod where
  | add | sub | mul | div | mod | pow | unm | idiv
  | band | bor | bxor | bnot | shl | shr
  | concat | len | eq | lt | le
  | index | newindex | call | gc | tostring | close
deriving DecidableEq, Inhabited

namespace MetaMethod

/-- All of them, in the order in which the shared metatable is filled. -/
def all : List MetaMethod :=
  [.add, .sub, .mul, .div, .mod, .pow, .unm, .idiv, .band, .bor, .bxor, .bnot, .shl, .shr,
    .concat, .len, .eq, .lt, .le, .index, .newindex, .call, .gc, .tostring, .close]

/-- The operation's word without the leading underscores. -/
def word : MetaMethod → String
  | .add => "add"
  | .sub => "sub"
  | .mul => "mul"
  | .div => "div"
  | .mod => "mod"
  | .pow => "pow"
  | .unm => "unm"
  | .idiv => "idiv"
  | .band => "band"
  | .bor => "bor"
  | .bxor => "bxor"
  | .bnot => "bnot"
  | .shl => "shl"
  | .shr => "shr"
  | .concat => "concat"
  | .len => "len"
  | .eq => "eq"
  | .lt => "lt"
  | .le => "le"
  | .index => "index"
  | .newindex => "newindex"
  | .call => "call"
  | .gc => "gc"
  | .tostring => "tostring"
  | .close => "close"

/-- The word that stands for the operation itself, where operations are listed. -/
def title : MetaMethod → String
  | .add => "Add"
  | .sub => "Sub"
  | .mul => "Mul"
  | .div => "Div"
  | .mod => "Mod"
  | .pow => "Pow"
  | .unm => "Unm"
  | .idiv => "IDiv"
  | .band => "BAnd"
  | .bor => "BOr"
  | .bxor => "BXor"
  | .bnot => "BNot"
  | .shl => "Shl"
  | .shr => "Shr"
  | .concat => "Concat"
  | .len => "Len"
  | .eq => "Eq"
  | .lt => "Lt"
  | .le => "Le"
  | .index => "Index"
  | .newindex => "NewIndex"
  | .call => "Call"
  | .gc => "Gc"
  | .tostring => "ToString"
  | .close => "Close"

/-- The metatable field that holds the operation. -/
def field (m : MetaMethod) : String := "__" ++ m.word

end MetaMethod

/-! ## Fixed places and counts of the interface -/

/-- Asks a call for all its results. -/
def multipleResults : Int := -1

/-- The pseudo-index of the registry. -/
def registryIndex : Int := -1001000

/-- The pseudo-index of an upvalue of the running native function. -/
def upvalueIndex (i : Int) : Int := registryIndex - i

/-- How many free slots a native function finds. -/
def minStack : Nat := 20

/-- The registry place of the main thread. -/
def mainThreadPlace : Int64 := 1

/-- The registry place of the table of globals. -/
def globalsPlace : Int64 := 2

/-- The bytes of raw memory that each thread offers to the host. -/
def extraSpaceSize : Nat := 8

end LuaHost
