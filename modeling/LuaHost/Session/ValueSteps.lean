import LuaHost.Session.Book

/-!
# Steps on the stack and on tables

Steps that are one operation of the host's interface on a thread's stack, with the form of their
answers.
-/

namespace LuaHost.Session

open Interface

/-! ## The stack -/

inductive StackStep where
  | getTop
  | setTop (idx : Int)
  | pop (n : Int)
  | absIndex (idx : Int)
  | checkStack (n : Int)
  | pushValue (idx : Int)
  | insert (idx : Int)
  | remove (idx : Int)
  | replace (idx : Int)
  | rotate (idx n : Int)
  | copy (src dst : Int)
  | transfer (dst : Nat) (n : Int)

def runStack (t : ThreadId) : StackStep → Act Answer
  | .getTop => do return .number (← getTop t)
  | .setTop idx => do
    setTop t idx
    return .nothing
  | .pop n => do
    pop t n
    return .nothing
  | .absIndex idx => do return .number (← absIndex t idx)
  | .checkStack n => do return .flag (← checkStack t n)
  | .pushValue idx => do
    pushValue t idx
    return .nothing
  | .insert idx => do
    insert t idx
    return .nothing
  | .remove idx => do
    remove t idx
    return .nothing
  | .replace idx => do
    replace t idx
    return .nothing
  | .rotate idx n => do
    rotate t idx n
    return .nothing
  | .copy src dst => do
    copy t src dst
    return .nothing
  | .transfer dst n => do
    transfer t ((← get).thread dst) n
    return .nothing

/-! ## Pushing -/

inductive PushStep where
  | nil (times : Nat)
  | boolean (b : Bool)
  | integer (i : Int64)
  | number (x : Double)
  | string (s : String)
  | bytes (s : Bytes)
  | lightUserData (p : UInt64)
  | thread
  | host (v : Data.Value)
  | probe (upvalues : Nat)

def runPush (t : ThreadId) : PushStep → Act Answer
  | .nil times => do
    (List.range times).forM fun _ => (pushNil t : Act Unit)
    return .nothing
  | .boolean b => do
    pushBoolean t b
    return .nothing
  | .integer i => do
    pushInteger t i
    return .nothing
  | .number x => do
    pushNumber t x
    return .nothing
  | .string s => do
    pushString t s
    return .nothing
  | .bytes s => do
    pushBytes t s
    return .nothing
  | .lightUserData p => do
    pushLightUserData t p
    return .nothing
  | .thread => do return .flag (← pushThread t)
  | .host v => do
    pushHost t v
    return .nothing
  | .probe n => do
    pushNative t .probe n
    return .nothing

/-! ## Looking at values -/

inductive QueryStep where
  | typeOf (idx : Int)
  | typeName (idx : Int)
  | isInteger (idx : Int)
  | isNil (idx : Int)
  | isNone (idx : Int)
  | isNoneOrNil (idx : Int)
  | toBoolean (idx : Int)
  | toInteger (idx : Int)
  | toNumber (idx : Int)
  | toText (idx : Int)
  | toBytes (idx : Int)
  | toLightUserData (idx : Int)
  | toUserDataAddress (idx : Int)
  | toThread (idx : Int)
  | rawLen (idx : Int)
  | len (idx : Int)
  | display (idx : Int)
  | toPointer (a b : Int)
  | compare (a b : Int) (c : Comparison)
  | rawEqual (a b : Int)
  | concat (n : Int)
  | toHost (idx : Int)
  | copyTable (idx : Int)

def runQuery (t : ThreadId) : QueryStep → Act Answer
  | .typeOf idx => do return .ofKind (← typeOf t idx)
  | .typeName idx => do return .text (← typeName t idx)
  | .isInteger idx => do return .flag (← isInteger t idx)
  | .isNil idx => do return .flag (← isNil t idx)
  | .isNone idx => do return .flag (← isNone t idx)
  | .isNoneOrNil idx => do return .flag (← isNoneOrNil t idx)
  | .toBoolean idx => do return .flag (← toBoolean t idx)
  | .toInteger idx => do return .ofOption (.slot ∘ .int) (← toInteger t idx)
  | .toNumber idx => do return .ofOption (.slot ∘ .float) (← toNumber t idx)
  | .toText idx => do return .ofOption .text (← toText t idx)
  | .toBytes idx => do return .ofOption (.slot ∘ .str) (← toBytes t idx)
  | .toLightUserData idx => do return .ofOption (.slot ∘ .light) (← toLightUserData t idx)
  | .toUserDataAddress idx => do return .flag (← toUserDataAddress t idx).isNone
  | .toThread idx => do Act.answerThread? (← toThread t idx)
  | .rawLen idx => do return .number (← rawLen t idx)
  | .len idx => do
    len t idx
    return .nothing
  | .display idx => do return .text (← displayValue t idx)
  | .toPointer a b => do
    let p ← toPointer t a
    let q ← toPointer t b
    return .pointers [p.isNone, q.isNone] (p == q)
  | .compare a b c => do return .flag (← compare t a b c)
  | .rawEqual a b => do return .flag (← rawEqual t a b)
  | .concat n => do
    concat t n
    return .nothing
  | .toHost idx => do return .ofHost? (← toHost t idx)
  | .copyTable idx => do return .host (.table (← copyTable t idx))

/-! ## Tables, metatables, globals and the registry -/

inductive TableStep where
  | getField (idx : Int) (name : String)
  | setField (idx : Int) (name : String)
  | getInt (idx : Int) (n : Int64)
  | setInt (idx : Int) (n : Int64)
  | getTable (idx : Int)
  | setTable (idx : Int)
  | rawGet (idx : Int)
  | rawSet (idx : Int)
  | rawGetInt (idx : Int) (n : Int64)
  | rawSetInt (idx : Int) (n : Int64)
  | next (idx : Int)
  | create (narr nrec : Nat)
  | getMetatable (idx : Int)
  | setMetatable (idx : Int)
  | newMetatable (name : String)
  | getNamedMetatable (name : String)
  | testUserData (idx : Int) (name : String)
  | getUserValue (idx n : Int)
  | setUserValue (idx n : Int)
  | pushGlobals
  | getGlobal (name : String)
  | setGlobal (name : String)
  | registryRef
  | registryUnref (id : RefId)
  | pushRef (id : RefId)
  | registryGet (n : Int64)

/-- Whether a userdata that was found is the one whose address the stack shows. -/
def sameUserData (t : ThreadId) (idx : Int) : Option Value → M Answer
  | some v => do
    let p ← toUserDataAddress t idx
    return .flag (p == v.address)
  | none => return .nothing

def runTable (t : ThreadId) : TableStep → Act Answer
  | .getField idx name => do return .ofKind (← getField t idx name)
  | .setField idx name => do
    setField t idx name
    return .nothing
  | .getInt idx n => do return .ofKind (← getInt t idx n)
  | .setInt idx n => do
    setInt t idx n
    return .nothing
  | .getTable idx => do return .ofKind (← getTable t idx)
  | .setTable idx => do
    setTable t idx
    return .nothing
  | .rawGet idx => do return .ofKind (← rawGet t idx)
  | .rawSet idx => do
    rawSet t idx
    return .nothing
  | .rawGetInt idx n => do return .ofKind (← rawGetInt t idx n)
  | .rawSetInt idx n => do
    rawSetInt t idx n
    return .nothing
  | .next idx => do return .flag (← next t idx)
  | .create narr nrec => do
    createTable t narr nrec
    return .nothing
  | .getMetatable idx => do return .flag (← getMetatable t idx)
  | .setMetatable idx => do
    setMetatable t idx
    return .nothing
  | .newMetatable name => do return .flag (← newMetatable t name)
  | .getNamedMetatable name => do return .ofKind (← getNamedMetatable t name)
  | .testUserData idx name => do sameUserData t idx (← testUserData t idx name)
  | .getUserValue idx n => do return .ofKind (← getUserValue t idx n)
  | .setUserValue idx n => do return .flag (← setUserValue t idx n)
  | .pushGlobals => do
    pushGlobals t
    return .nothing
  | .getGlobal name => do return .ofKind (← getGlobal t name)
  | .setGlobal name => do
    setGlobal t name
    return .nothing
  | .registryRef => do return .number (← registryRef t)
  | .registryUnref id => do
    registryUnref id
    return .nothing
  | .pushRef id => do return .ofKind (← pushRef t id)
  | .registryGet n => do return .ofKind (← registryGet t n)

end LuaHost.Session
