import LuaHost.Library.Standard
import LuaHost.UserData.Binding

/-!
# Embedding a machine

A program that embeds a machine brings functions, continuations, bound types and a hook of its own.
Together with the standard library they make up the native code that the machine can run.
-/

namespace LuaHost

/-- What a program brings to the machine that it embeds. -/
structure Embedding where
  function : HostFn → ThreadId → M Nat
  continuation : HostContinuation → ThreadId → Status → Int → M Nat := fun _ _ _ _ => return 0
  types : BoundTypes := fun _ => { name := "", fullName := "" }
  /-- What the host's hook does at a line. -/
  lineHook : ThreadId → Int → M Unit := fun _ _ => return ()

namespace Embedding

open Interface
open Machine (height)

/-- Answers the first two upvalues, `nil` for missing ones, and the number of arguments. -/
def probe (t : ThreadId) : M Nat := do
  let n ← height t
  let a ← Machine.value t (upvalueIndex 1)
  let b ← Machine.value t (upvalueIndex 2)
  Machine.pushAll t [a, b, .ofNat n]
  return 3

def runNative (e : Embedding) (f : Native) (t : ThreadId) : M Nat :=
  match f with
  | .base f => Library.base f t
  | .coroutine f => Library.coroutine f t
  | .debug f => Library.debug f t
  | .string f => Library.string f t
  | .table f => Library.tableFunction f t
  | .math f => Library.math f t
  | .utf8 f => Library.utf8 f t
  | .io f => Library.io f t
  | .os f => Library.os f t
  | .package f => Library.package f t
  | .trampoline => trampoline e.function t
  | .metamethod m => answerOperation e.types m t
  | .probe => probe t
  | .frame => return 0

def continueNative (e : Embedding) (k : Continuation) (t : ThreadId) (s : Status)
    (context : Int) : M Nat :=
  match k with
  | .protectedCall => Library.finishProtectedCall t s context
  | .doFile => return (← height t) - 1
  | .host k => guarded t (e.continuation k t s context)

def runHook (e : Embedding) (f : HookFunction) (t : ThreadId) (event : HookEvent) (line : Int) :
    M Unit :=
  match f with
  | .script => Library.runScriptHook t event line
  | .host => e.lineHook t line

/-- All native code of a machine that is embedded. -/
def host (e : Embedding) : Host :=
  { native := e.runNative, continue_ := e.continueNative, hook := e.runHook }

end Embedding

end LuaHost
