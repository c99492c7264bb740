import LuaHost.Machine.Upvalues

/-!
# Numeric loops

A numeric loop keeps three values: the index, the limit and the step.  A loop over integers replaces
its limit by the number of iterations left, so that it ends without overflow.
-/

namespace LuaHost

/-- How an integer loop begins. -/
inductive LoopStart where
  | skip
  /-- The number of iterations after the first. -/
  | run (count : UInt64)
  | badLimit

/-- A double rounded to an integer toward the start of a loop with the given direction. -/
def roundLimit (ascending : Bool) (x : Double) : Option Int64 :=
  (if ascending then x.floor else x.ceil).toInt64?

/-- The limit of an integer loop as an integer: `none` if the loop does not run at all. -/
def integerLimit (ascending : Bool) (limit : Number) : Option Int64 :=
  match limit with
  | .int i => some i
  | .float x =>
    match roundLimit ascending x with
    | some i => some i
    | none =>
      if Double.zero.lt x then (if ascending then some Int64.maxValue else none)
      else (if ascending then none else some Int64.minValue)

/-- The start of a loop over integers with a step that is not zero. -/
def startIntegerLoop (init step : Int64) (limit : Option Number) : LoopStart :=
  match limit with
  | none => .badLimit
  | some l =>
    let ascending := step > 0
    match integerLimit ascending l with
    | none => .skip
    | some limit =>
      if (if ascending then init > limit else init < limit) then .skip
      else if ascending then
        .run ((limit.toUInt64 - init.toUInt64) / step.toUInt64)
      else
        .run ((init.toUInt64 - limit.toUInt64) / ((0 - (step + 1)).toUInt64 + 1))

namespace Machine

/-- Prepares the loop whose values begin in a slot; `true` if it is skipped. -/
def prepareLoop (t : ThreadId) (i : Nat) : M Bool := do
  let init ← slot t i
  let limit ← slot t (i + 1)
  let step ← slot t (i + 2)
  match init, step with
  | .int a, .int s =>
    if s == 0 then runErrorText t "'for' step is zero"
    match startIntegerLoop a s limit.toNumber? with
    | .badLimit => loopError t limit "limit"
    | .skip => return true
    | .run count =>
      setSlot t (i + 3) (.int a)
      setSlot t (i + 1) (.int count.toInt64)
      return false
  | _, _ =>
    match limit.toDouble?, step.toDouble?, init.toDouble? with
    | none, _, _ => loopError t limit "limit"
    | _, none, _ => loopError t step "step"
    | _, _, none => loopError t init "initial value"
    | some l, some s, some a =>
      if s.isZero then runErrorText t "'for' step is zero"
      if (if Double.zero.lt s then l.lt a else a.lt l) then return true
      setSlot t i (.float a)
      setSlot t (i + 1) (.float l)
      setSlot t (i + 2) (.float s)
      setSlot t (i + 3) (.float a)
      return false

/-- Takes the next step of the loop whose values begin in a slot; `true` if the body runs again. -/
def advanceLoop (t : ThreadId) (i : Nat) : M Bool := do
  let index ← slot t i
  let limit ← slot t (i + 1)
  let step ← slot t (i + 2)
  match index, limit, step with
  | .int a, .int count, .int s =>
    if count == 0 then return false
    let a := a + s
    modifyThread t fun th =>
      ((th.setSlot (i + 1) (.int (count - 1))).setSlot i (.int a)).setSlot (i + 3) (.int a)
    return true
  | .float a, .float l, .float s =>
    let a := a.add s
    if (if Double.zero.lt s then a.le l else l.le a) then
      modifyThread t fun th => (th.setSlot i (.float a)).setSlot (i + 3) (.float a)
      return true
    else return false
  | _, _, _ => return false

end Machine

end LuaHost
