import LuaHost.Library.Files

/-!
# Modules

`require` asks searchers for a loader: preloaded functions, script files on a path, and native
libraries, of which there are none.
-/

namespace LuaHost.Library

open Machine

/-- The registry name of the table of loaded modules. -/
def loadedName : String := "_LOADED"

/-- The registry name of the table of preloaded functions. -/
def preloadName : String := "_PRELOAD"

/-- A table in the registry, made when it is missing. -/
def registryTable (name : String) : M TableId := do
  match ← registryValue (.ofText name) with
  | .table id => return id
  | _ =>
    let id ← newTable {}
    setRegistryValue (.ofText name) (.table id)
    return id

/-! ## Paths -/

/-- Replaces all occurrences of a string. -/
def replaceAll (b pat rep : Bytes) : Bytes := go b.size 0 ByteArray.empty
where
  go : Nat → Nat → Bytes → Bytes
    | 0, i, acc => acc ++ b.extract i b.size
    | fuel + 1, i, acc =>
      match Bytes.find? b pat i with
      | some j => go fuel (j + pat.size) (acc ++ b.extract i j ++ rep)
      | none => acc ++ b.extract i b.size

/-- The parts of a string between semicolons. -/
def pathTemplates (b : Bytes) : List Bytes :=
  let step (acc : List (List UInt8)) (c : UInt8) : List (List UInt8) :=
    match c, acc with
    | 59, acc => [] :: acc
    | c, cur :: rest => (c :: cur) :: rest
    | c, [] => [[c]]
  ((b.data.toList.foldl step [[]]).map fun l => Bytes.ofList l.reverse).reverse

/-- The first file on a path for a name, or the message that tells what was tried. -/
def searchPath (name path sep dirSep : Bytes) : M (Except Bytes Bytes) := do
  let name := if sep.size > 0 then replaceAll name sep dirSep else name
  let files := replaceAll path "?".toUTF8 name
  let o ← outside
  match (pathTemplates files).find? fun f => (o.file? f.toText).isSome with
  | some f => return .ok f
  | none =>
    let tried := replaceAll files ";".toUTF8 "'\n\tno file '".toUTF8
    return .error ("no file '".toUTF8 ++ tried ++ "'".toUTF8)

/-- The file for a module on one of the paths of the module table. -/
def findFile (t : ThreadId) (name : Bytes) (field : String) : M (Except Bytes Bytes) := do
  let path ← index t (← value t (upvalueIndex 1)) (.ofText field)
  match path.toBytes? with
  | some p => searchPath name p.untilNul ".".toUTF8 "/".toUTF8
  | none => nativeErrorText t ("'package." ++ field ++ "' must be a string")

/-! ## Searchers -/

def searchPreload (t : ThreadId) : M Nat := do
  let name := (← checkString t 1).untilNul
  let v ← index t (.table (← registryTable preloadName)) (.str name)
  if v.isNil then
    pushBytes t ("no field package.preload['".toUTF8 ++ name ++ "']".toUTF8)
    return 1
  push t v
  pushText t ":preload:"
  return 2

def searchScript (t : ThreadId) : M Nat := do
  let name := (← checkString t 1).untilNul
  match ← findFile t name "path" with
  | .error msg =>
    pushBytes t msg
    return 1
  | .ok file =>
    if (← loadFile t (some file) none) == .ok then
      pushBytes t file
      return 2
    let msg := (← value t (-1)).toBytes?.getD ByteArray.empty
    nativeError t ("error loading module '".toUTF8 ++ name ++ "' from file '".toUTF8 ++ file
      ++ "':\n\t".toUTF8 ++ msg)

/-- A native library that was found cannot be loaded. -/
def searchLibrary (t : ThreadId) (name : Bytes) : M Nat := do
  match ← findFile t name "cpath" with
  | .error msg =>
    pushBytes t msg
    return 1
  | .ok file =>
    nativeError t ("error loading module '".toUTF8 ++ name ++ "' from file '".toUTF8 ++ file
      ++ "':\n\t".toUTF8 ++ file ++ ": file too short".toUTF8)

def searchNative (t : ThreadId) : M Nat := do
  searchLibrary t (← checkString t 1).untilNul

def searchNativeRoot (t : ThreadId) : M Nat := do
  let name := (← checkString t 1).untilNul
  match name.findByte? (· == 46) 0 with
  | none => return 0
  | some i => searchLibrary t (name.extract 0 i)

/-! ## Functions -/

/-- Asks the searchers from `i` on: the loader and its data are pushed.  `msg` collects what the
searchers say, and `fuel` bounds their number. -/
def findLoader (t : ThreadId) (name : Bytes) (searchers : TableId) (i : Nat) (msg : Bytes) :
    Nat → M Unit
  | 0 => nativeError t ("module '".toUTF8 ++ name ++ "' not found:".toUTF8 ++ msg)
  | fuel + 1 => do
    let s := (← table searchers).getNat i
    if s.isNil then nativeError t ("module '".toUTF8 ++ name ++ "' not found:".toUTF8 ++ msg)
    push t s
    pushBytes t name
    Machine.call t 1 2
    let v ← value t (-2)
    if isFunction v then return ()
    drop t 2
    let msg := match v.toBytes? with
      | some b => msg ++ "\n\t".toUTF8 ++ b
      | none => msg
    findLoader t name searchers (i + 1) msg fuel

/-- More searchers than there can be. -/
def maxSearchers : Nat := 1 <<< 30

def require (t : ThreadId) : M Nat := do
  let name := (← checkString t 1).untilNul
  setHeight t 1
  let loaded := Value.table (← registryTable loadedName)
  push t loaded
  let v ← index t loaded (.str name)
  if v.isTrue then
    push t v
    return 1
  let searchers ← index t (← value t (upvalueIndex 1)) (.ofText "searchers")
  match searchers with
  | .table id =>
    push t searchers
    findLoader t name id 1 ByteArray.empty maxSearchers
  | _ => nativeErrorText t "'package.searchers' must be a table"
  let data ← value t (-1)
  insert t (-2)
  pushValue t 1
  push t data
  Machine.call t 2 1
  let r ← pop t
  if !r.isNil then assign t loaded (.str name) r
  let r ← index t loaded (.str name)
  let r ← if r.isNil then do
      assign t loaded (.str name) (.bool true)
      pure (.bool true)
    else pure r
  push t r
  push t data
  return 2

def loadlib (t : ThreadId) : M Nat := do
  let path := (← checkString t 1).untilNul
  let _ ← checkString t 2
  pushFailure t
  pushBytes t (path ++ ": cannot open shared object file: No such file or directory".toUTF8)
  pushText t "open"
  return 3

def searchpath (t : ThreadId) : M Nat := do
  let name := (← checkString t 1).untilNul
  let path := (← checkString t 2).untilNul
  let sep := (← optString t 3 ".".toUTF8).untilNul
  let rep := (← optString t 4 "/".toUTF8).untilNul
  match ← searchPath name path sep rep with
  | .ok f =>
    pushBytes t f
    return 1
  | .error msg =>
    pushFailure t
    pushBytes t msg
    return 2

def package : PackageFn → ThreadId → M Nat
  | .require => require
  | .loadlib => loadlib
  | .searchpath => searchpath
  | .searchPreload => searchPreload
  | .searchScript => searchScript
  | .searchNative => searchNative
  | .searchNativeRoot => searchNativeRoot

end LuaHost.Library
