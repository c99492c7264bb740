import LuaHost.Machine.Raising

/-!
# Protected calls

A protected call answers the status of what it ran.  After an error the calls begun since are given
up, their variables are closed, and the error object stands where the call's values stood.
-/

namespace LuaHost.Machine

/-- Runs a section under protection.  `oldTop` is where the error object goes, and `handler` the
slot of the message handler, or zero. -/
def attemptFrom {α : Type} (t : ThreadId) (oldTop handler : Nat) (body : M α) :
    M (Except Status α) := do
  let th ← thread t
  let frames := th.frames.size
  let hooksAllowed := th.hook.allowed
  let oldHandler := th.handler
  modifyThread t fun th => { th with handler }
  let answer ← match ← attempt t body with
    | .ok a => pure (.ok a)
    | .error s => do
      unwindTo t frames hooksAllowed
      let s ← closeProtected t oldTop s
      placeError t s oldTop
      shrinkStack t
      pure (.error s)
  modifyThread t fun th => { th with handler := oldHandler }
  return answer

/-- Runs a section without a result like `attemptFrom`. -/
def runProtected (t : ThreadId) (oldTop handler : Nat) (body : M Unit) : M Status := do
  match ← attemptFrom t oldTop handler body with
  | .ok () => return .ok
  | .error s => return s

/-! ## Warnings -/

/-- What the program writes to its error stream. -/
def writeError (s : Bytes) : M Unit :=
  modifyOutside fun o => { o with errors := o.errors ++ s }

/-- Emits a piece of a warning; `more` says that it is not the last one.  A first piece that begins
with `@` controls whether warnings are shown. -/
def warn (piece : Bytes) (more : Bool) : M Unit := do
  let show_ : M Unit := do
    writeError piece
    if !more then writeError "\n".toUTF8
    modify fun w => { w with warnings := if more then .continuing else .on }
  match (← get).warnings with
  | .continuing => show_
  | mode =>
    if !more && piece.byte? 0 == some 64 then
      if piece == "@off".toUTF8 then modify fun w => { w with warnings := .off }
      else if piece == "@on".toUTF8 then modify fun w => { w with warnings := .on }
    else
      match mode with
      | .off => return ()
      | _ =>
        writeError "Lua warning: ".toUTF8
        show_

/-- Warns of an error, whose object is on top of the stack, in a place where it cannot be raised. -/
def warnOfError (t : ThreadId) (place : String) : M Unit := do
  let msg := match ← slot t ((← top t) - 1) with
    | .str s => s.untilNul
    | _ => "error object is not a string".toUTF8
  warn "error in ".toUTF8 true
  warn place.toUTF8 true
  warn " (".toUTF8 true
  warn msg true
  warn ")".toUTF8 false

end LuaHost.Machine
