import LuaHost.Kind

/-!
# Faults reported to the host

What an operation of the host interface reports when it fails, by cause, and the wording of each.
-/

namespace LuaHost

inductive Fault where
  | runtime (message : String)
  | syntaxFault (message : String)
  | memory
  | errorHandler (message : String)
  | file (message : String)
  | typeMismatch (expected found : Kind)
deriving DecidableEq, Inhabited

namespace Fault

/-- The fault that a status stands for, with the message of its error object. -/
def ofStatus (message : String) : Status → Option Fault
  | .ok | .yield => none
  | .errRun => some (.runtime message)
  | .errSyntax => some (.syntaxFault message)
  | .errMem => some .memory
  | .errErr => some (.errorHandler message)
  | .errFile => some (.file message)

def message : Fault → String
  | .runtime m => "runtime error: " ++ m
  | .syntaxFault m => "syntax error: " ++ m
  | .memory => "not enough memory"
  | .errorHandler m => "error in error handling: " ++ m
  | .file m => "cannot open file: " ++ m
  | .typeMismatch expected found => expected.name ++ " expected, got " ++ found.name

end Fault

end LuaHost
