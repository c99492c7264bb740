import LuaHost.Library.Base
import LuaHost.Library.Coroutine
import LuaHost.Library.InputOutput
import LuaHost.Library.Inspection
import LuaHost.Library.Mathematics
import LuaHost.Library.Modules
import LuaHost.Library.Strings
import LuaHost.Library.Surroundings
import LuaHost.Library.Tables
import LuaHost.Library.Unicode

/-!
# The standard library

Which functions the standard library consists of, under which names, and how a machine gets them.
-/

namespace LuaHost.Library

open Machine

/-! ## Names -/

def baseNames : List (String × BaseFn) :=
  [("assert", .assert), ("collectgarbage", .collectgarbage), ("dofile", .dofile),
    ("error", .error), ("getmetatable", .getmetatable), ("ipairs", .ipairs),
    ("loadfile", .loadfile), ("load", .load), ("next", .next), ("pairs", .pairs),
    ("pcall", .pcall), ("print", .print), ("warn", .warn), ("rawequal", .rawequal),
    ("rawlen", .rawlen), ("rawget", .rawget), ("rawset", .rawset), ("select", .select),
    ("setmetatable", .setmetatable), ("tonumber", .tonumber), ("tostring", .tostring),
    ("type", .type), ("xpcall", .xpcall)]

def coroutineNames : List (String × CoroutineFn) :=
  [("create", .create), ("resume", .resume), ("running", .running), ("status", .status),
    ("wrap", .wrap), ("yield", .yield), ("isyieldable", .isyieldable), ("close", .close)]

def tableNames : List (String × TableFn) :=
  [("concat", .concat), ("insert", .insert), ("pack", .pack), ("unpack", .unpack),
    ("remove", .remove), ("move", .move), ("sort", .sort)]

def ioNames : List (String × IoFn) :=
  [("close", .close), ("flush", .flush), ("input", .input), ("lines", .lines), ("open", .open),
    ("output", .output), ("popen", .popen), ("read", .read), ("tmpfile", .tmpfile),
    ("type", .type), ("write", .write)]

def fileMethods : List (String × IoFn) :=
  [("read", .fileRead), ("write", .fileWrite), ("lines", .fileLines), ("flush", .fileFlush),
    ("seek", .fileSeek), ("close", .fileClose), ("setvbuf", .fileSetvbuf)]

def fileHandlers : List (String × IoFn) :=
  [("__gc", .fileGc), ("__close", .fileGc), ("__tostring", .fileToString)]

def osNames : List (String × OsFn) :=
  [("clock", .clock), ("date", .date), ("difftime", .difftime), ("execute", .execute),
    ("exit", .exit), ("getenv", .getenv), ("remove", .remove), ("rename", .rename),
    ("setlocale", .setlocale), ("time", .time), ("tmpname", .tmpname)]

def stringNames : List (String × StringFn) :=
  [("byte", .byte), ("char", .char), ("dump", .dump), ("find", .find), ("format", .format),
    ("gmatch", .gmatch), ("gsub", .gsub), ("len", .len), ("lower", .lower), ("match", .match),
    ("rep", .rep), ("reverse", .reverse), ("sub", .sub), ("upper", .upper), ("pack", .pack),
    ("packsize", .packsize), ("unpack", .unpack)]

/-- The operations that strings take part in as numbers. -/
def stringOperations : List MetaMethod := [.add, .sub, .mul, .mod, .pow, .div, .idiv, .unm]

def mathNames : List (String × MathFn) :=
  [("abs", .abs), ("ceil", .ceil), ("floor", .floor), ("tointeger", .tointeger), ("fmod", .fmod),
    ("ult", .ult), ("sqrt", .sqrt), ("sin", .sin), ("cos", .cos), ("tan", .tan), ("asin", .asin),
    ("acos", .acos), ("atan", .atan), ("exp", .exp), ("deg", .deg), ("rad", .rad), ("log", .log),
    ("max", .max), ("min", .min), ("modf", .modf), ("type", .type), ("cosh", .cosh),
    ("sinh", .sinh), ("tanh", .tanh), ("pow", .pow), ("frexp", .frexp), ("ldexp", .ldexp),
    ("log10", .log10), ("random", .random), ("randomseed", .randomseed)]

def utf8Names : List (String × Utf8Fn) :=
  [("offset", .offset), ("codepoint", .codepoint), ("char", .char), ("len", .len),
    ("codes", .codes)]

def debugNames : List (String × DebugFn) :=
  [("debug", .debug), ("getuservalue", .getuservalue), ("gethook", .gethook),
    ("getinfo", .getinfo), ("getlocal", .getlocal), ("getregistry", .getregistry),
    ("getmetatable", .getmetatable), ("getupvalue", .getupvalue), ("upvaluejoin", .upvaluejoin),
    ("upvalueid", .upvalueid), ("setuservalue", .setuservalue), ("sethook", .sethook),
    ("setlocal", .setlocal), ("setmetatable", .setmetatable), ("setupvalue", .setupvalue),
    ("traceback", .traceback), ("setcstacklimit", .setcstacklimit)]

def packageNames : List (String × PackageFn) :=
  [("loadlib", .loadlib), ("searchpath", .searchpath)]

def searchers : List PackageFn :=
  [.searchPreload, .searchScript, .searchNative, .searchNativeRoot]

/-! ## Modules -/

def setFunctions {α : Type} (id : TableId) (wrap : α → Native) (names : List (String × α)) :
    M Unit :=
  names.forM fun (n, f) => setField id n (.native (wrap f))

def libraryTable {α : Type} (wrap : α → Native) (names : List (String × α)) : M TableId := do
  let id ← newTable (Table.withRoom 0 names.length)
  setFunctions id wrap names
  return id

/-- Makes a table the module of a name, and a global. -/
def install (name : String) (id : TableId) : M Unit := do
  setField (← registryTable loadedName) name (.table id)
  if let .table g := ← globals then setField g name (.table id)

def openBase : M Unit := do
  if let .table g := ← globals then
    setFunctions g .base baseNames
    setField g "_G" (.table g)
    setField g "_VERSION" (.ofText "Lua 5.4")
    install "_G" g

def scriptDirectory : String := "/usr/local/share/lua/5.4/"

def nativeDirectory : String := "/usr/local/lib/lua/5.4/"

def defaultPath : String :=
  scriptDirectory ++ "?.lua;" ++ scriptDirectory ++ "?/init.lua;"
    ++ nativeDirectory ++ "?.lua;" ++ nativeDirectory ++ "?/init.lua;./?.lua;./?/init.lua"

def defaultNativePath : String :=
  nativeDirectory ++ "?.so;" ++ nativeDirectory ++ "loadall.so;./?.so"

/-- A path from the environment, in which an empty part between semicolons stands for the default;
`none` where the variable is not set. -/
def environmentPath (name : String) (default : String) : M String := do
  let env := (← outside).environment
  match (env.lookup (name ++ "_5_4")) <|> (env.lookup name) with
  | none => return default
  | some p =>
    match p.splitOn ";;" with
    | [p] => return p
    | before :: rest =>
      let after := ";;".intercalate rest
      return (if before.isEmpty then "" else before ++ ";") ++ default
        ++ (if after.isEmpty then "" else ";" ++ after)
    | [] => return default

def openPackage : M Unit := do
  let id ← libraryTable .package packageNames
  let withModule (f : PackageFn) : M Value := do
    return .closure (← newClosure (.native (.package f) #[.table id]))
  let fs ← searchers.mapM withModule
  let list ← newTable ((fs.zipIdx 1).foldl (fun tb (f, i) => tb.setNat i f) {})
  setField id "searchers" (.table list)
  setField id "path" (.ofText (← environmentPath "LUA_PATH" defaultPath))
  setField id "cpath" (.ofText (← environmentPath "LUA_CPATH" defaultNativePath))
  setField id "config" (.ofText "/\n;\n?\n!\n-\n")
  setField id "loaded" (.table (← registryTable loadedName))
  setField id "preload" (.table (← registryTable preloadName))
  if let .table g := ← globals then setField g "require" (← withModule .require)
  install "package" id

def openIo : M Unit := do
  let id ← libraryTable .io ioNames
  let methods ← libraryTable .io fileMethods
  let mt ← libraryTable .io fileHandlers
  setField mt "__name" (.ofText streamTypeName)
  setField mt "__index" (.table methods)
  setRegistryValue (.ofText streamTypeName) (.table mt)
  let standard (target : StreamTarget) : M Value := newStream { target, standard := true }
  let stdin ← standard .stdin
  setRegistryValue DefaultStream.input.place stdin
  setField id "stdin" stdin
  let stdout ← standard .stdout
  setRegistryValue DefaultStream.output.place stdout
  setField id "stdout" stdout
  setField id "stderr" (← standard .stderr)
  install "io" id

def openString : M Unit := do
  let id ← libraryTable .string stringNames
  let mt ← newTable {}
  stringOperations.forM fun m => setField mt m.field (.native (.string (.arith m)))
  setField mt "__index" (.table id)
  setMetatableOf (.str ByteArray.empty) (some mt)
  install "string" id

def openMath : M Unit := do
  let id ← libraryTable .math mathNames
  setField id "pi" (.float pi)
  setField id "huge" (.float Double.infinity)
  setField id "maxinteger" (.int Int64.maxValue)
  setField id "mininteger" (.int Int64.minValue)
  modify fun w => { w with random := seeded 0 0 }
  install "math" id

/-- A pattern that matches one code point in a string in UTF-8. -/
def codePointPattern : Bytes :=
  Bytes.ofList [0x5B, 0x00, 0x2D, 0x7F, 0xC2, 0x2D, 0xFD, 0x5D, 0x5B, 0x80, 0x2D, 0xBF, 0x5D, 0x2A]

def openUtf8 : M Unit := do
  let id ← libraryTable .utf8 utf8Names
  setField id "charpattern" (.str codePointPattern)
  install "utf8" id

def installLibrary {α : Type} (name : String) (wrap : α → Native) (names : List (String × α)) :
    M Unit := do
  install name (← libraryTable wrap names)

/-- Gives a machine the whole standard library. -/
def openAll : M Unit := do
  openBase
  openPackage
  installLibrary "coroutine" .coroutine coroutineNames
  installLibrary "table" .table tableNames
  openIo
  installLibrary "os" .os osNames
  openString
  openMath
  openUtf8
  installLibrary "debug" .debug debugNames

end LuaHost.Library
