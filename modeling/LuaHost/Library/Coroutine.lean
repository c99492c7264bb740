import LuaHost.Library.Arguments

/-!
# Coroutine functions
-/

namespace LuaHost.Library

open Machine

def checkCoroutine (t : ThreadId) : M ThreadId := do
  match ← value t 1 with
  | .thread co => return co
  | _ => argumentTypeError t 1 "coroutine".toUTF8

/-- Resumes a coroutine with the topmost arguments: how many results were moved over, or `none` with
the error object on top. -/
def resumeWith (t co : ThreadId) (nargs : Nat) : M (Option Nat) := do
  if !(← checkStack co nargs) then
    pushText t "too many arguments to resume"
    return none
  moveValues t co nargs
  let (status, n) ← (← read).resume co (some t) nargs
  if status.isError then
    moveValues co t 1
    return none
  if !(← checkStack t (n + 1)) then
    drop co n
    pushText t "too many results to resume"
    return none
  moveValues co t n
  return some n

def resume (t : ThreadId) : M Nat := do
  let co ← checkCoroutine t
  match ← resumeWith t co ((← count t) - 1) with
  | none =>
    pushBool t false
    insert t (-2)
    return 2
  | some n =>
    pushBool t true
    insert t (-((n : Int) + 1))
    return n + 1

/-- Closes a thread on behalf of another one. -/
def closeThread (t co : ThreadId) : M Status := do
  let nesting := (← thread t).nesting
  modifyThread co fun th => { th with nesting }
  resetThread co (← thread co).status

/-- The function that a wrapped coroutine is called by. -/
def wrapped (t : ThreadId) : M Nat := do
  match ← value t (upvalueIndex 1) with
  | .thread co =>
    match ← resumeWith t co (← count t) with
    | some n => return n
    | none =>
      let status := (← thread co).status
      let status ← if status.isError then do
          let s ← closeThread t co
          moveValues co t 1
          pure s
        else pure status
      match ← value t (-1) with
      | .str s =>
        if status != .errMem then
          let position ← positionAt t 1
          raiseValue t (.str (position ++ s))
        else raiseTop t
      | _ => raiseTop t
  | _ => return 0

def create (t : ThreadId) : M Nat := do
  checkKind t 1 .function
  let co ← pushNewThread t
  push co (← value t 1)
  return 1

def wrap (t : ThreadId) : M Nat := do
  let _ ← create t
  let co ← pop t
  push t (.closure (← newClosure (.native (.coroutine .wrapped) #[co])))
  return 1

/-- How a coroutine stands, seen from another thread. -/
inductive CoroutineState where
  | running | dead | suspended | normal
deriving DecidableEq, Inhabited

def CoroutineState.word : CoroutineState → String
  | running => "running"
  | dead => "dead"
  | suspended => "suspended"
  | normal => "normal"

def coroutineState (t co : ThreadId) : M CoroutineState := do
  if t == co then return .running
  let th ← thread co
  match th.status with
  | .yield => return .suspended
  | .ok =>
    if th.frames.size > 1 then return .normal
    else if th.height == 0 then return .dead
    else return .suspended
  | _ => return .dead

def coroutineStatus (t : ThreadId) : M Nat := do
  let co ← checkCoroutine t
  pushText t (← coroutineState t co).word
  return 1

def isYieldable (t : ThreadId) : M Nat := do
  let co ← if ← isNone t 1 then pure t else checkCoroutine t
  pushBool t (← yieldable co)
  return 1

def running (t : ThreadId) : M Nat := do
  push t (.thread t)
  pushBool t (t == (← get).mainThread)
  return 2

def closeCoroutine (t : ThreadId) : M Nat := do
  let co ← checkCoroutine t
  match ← coroutineState t co with
  | .dead | .suspended =>
    match ← closeThread t co with
    | .ok =>
      pushBool t true
      return 1
    | _ =>
      pushBool t false
      moveValues co t 1
      return 2
  | s => nativeErrorText t ("cannot close a " ++ s.word ++ " coroutine")

def coroutine : CoroutineFn → ThreadId → M Nat
  | .close => closeCoroutine
  | .create => create
  | .isyieldable => isYieldable
  | .resume => resume
  | .running => running
  | .status => coroutineStatus
  | .wrap => wrap
  | .yield => fun t => do yieldValues t (← count t) none 0
  | .wrapped => wrapped

end LuaHost.Library
