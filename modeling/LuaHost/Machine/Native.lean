import LuaHost.Kind

/-!
# Names of native functions

Functions that are not written in the scripting language are values of the machine, so they are
named here by closed enumerations; what each does is defined with its library.
-/

namespace LuaHost

inductive BaseFn where
  | assert | collectgarbage | dofile | error | getmetatable | ipairs | ipairsStep | load | loadfile
  | next | pairs | pcall | print | rawequal | rawget | rawlen | rawset | select | setmetatable
  | tonumber | tostring | type | warn | xpcall
deriving DecidableEq, Inhabited

inductive CoroutineFn where
  | close | create | isyieldable | resume | running | status | wrap | yield | wrapped
deriving DecidableEq, Inhabited

inductive DebugFn where
  | debug
  | getinfo | gethook | getlocal | getmetatable | getregistry | getupvalue | getuservalue | sethook
  | setlocal | setmetatable | setupvalue | setuservalue | setcstacklimit | traceback | upvalueid
  | upvaluejoin
deriving DecidableEq, Inhabited

inductive StringFn where
  | byte | char | dump | find | format | gmatch | gmatchStep | gsub | len | lower | match | pack
  | packsize | rep | reverse | sub | unpack | upper
  | arith (m : MetaMethod)
deriving DecidableEq, Inhabited

inductive TableFn where
  | concat | insert | move | pack | remove | sort | unpack
deriving DecidableEq, Inhabited

inductive MathFn where
  | abs | acos | asin | atan | ceil | cos | cosh | deg | exp | floor | fmod | frexp | ldexp | log
  | log10 | max | min | modf | pow | rad | random | randomseed | sin | sinh | sqrt | tan | tanh
  | tointeger | type | ult
deriving DecidableEq, Inhabited

inductive Utf8Fn where
  | char | codepoint | codes | codesStep | codesStepLax | len | offset
deriving DecidableEq, Inhabited

inductive IoFn where
  | close | flush | input | lines | linesStep | open | output | popen | read | tmpfile | type | write
  | fileClose | fileFlush | fileGc | fileLines | fileRead | fileSeek | fileSetvbuf | fileToString
  | fileWrite
deriving DecidableEq, Inhabited

inductive OsFn where
  | clock | date | difftime | execute | exit | getenv | remove | rename | setlocale | time | tmpname
deriving DecidableEq, Inhabited

inductive PackageFn where
  | require | loadlib | searchpath | searchPreload | searchScript | searchNative | searchNativeRoot
deriving DecidableEq, Inhabited

/-- A function of the host, by its number in the host's list. -/
structure HostFn where
  index : Nat
deriving DecidableEq, Inhabited

/-- A continuation of the host, by its number in the host's list. -/
structure HostContinuation where
  index : Nat
deriving DecidableEq, Inhabited

/-- A native function. -/
inductive Native where
  | base (f : BaseFn)
  | coroutine (f : CoroutineFn)
  | debug (f : DebugFn)
  | string (f : StringFn)
  | table (f : TableFn)
  | math (f : MathFn)
  | utf8 (f : Utf8Fn)
  | io (f : IoFn)
  | os (f : OsFn)
  | package (f : PackageFn)
  /-- Runs the host function whose address is the first upvalue. -/
  | trampoline
  /-- Dispatches an operation on a bound host value. -/
  | metamethod (m : MetaMethod)
  /-- Answers its first two upvalues and its number of arguments. -/
  | probe
  /-- The frame in which the host works. -/
  | frame
deriving DecidableEq, Inhabited

/-- What goes on when a native function is resumed after a yield or after a protected call that was
interrupted. -/
inductive Continuation where
  | protectedCall
  | doFile
  | host (k : HostContinuation)
deriving DecidableEq, Inhabited

/-! ## Addresses of host functions -/

namespace HostFn

/-- Where the code of the host's functions begins. -/
def codeBase : UInt64 := 0x555555560000

/-- The address that stands for a host function. -/
def address (f : HostFn) : UInt64 := codeBase + 16 * f.index.toUInt64

/-- The host function at an address. -/
def ofAddress (p : UInt64) : HostFn := ⟨((p - codeBase) / 16).toNat⟩

end HostFn

end LuaHost
