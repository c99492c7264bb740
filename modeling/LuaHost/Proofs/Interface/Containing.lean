import LuaHost.Interface.Opening
import LuaHost.Proofs.Interface.Yielding
import LuaHost.Proofs.Machine.Reporting

/-!
# Panics of host code

The machine enters the code of an embedding at functions, at the handlers of
operations and at continuations.  Each of them is guarded: what the code returns
is returned, and a panic leaves it only as an error of the thread, whose object
is the text of the panic.  From there on it is an error like any other one, and
the innermost section that protects the thread reports it.
-/

namespace LuaHost

namespace Containing

open Machine
open Interface (guarded trampoline panicText reserve pushString boundAt findBound operands dispatch
  answerAbsent finalizeBound answerOperation)

/-!
# Entries
-/

/-- What the handler of an operation in the shared metatable does. -/
def answering (types : BoundTypes) (m : MetaMethod) (t : ThreadId) : M Nat :=
  match m with
  | .gc => do
    if let some (u, _) ← boundAt t 1 then finalizeBound types t u
    return 0
  | m => do
    match ← findBound t (← operands t) with
    | some (u, b) => dispatch types m t u b
    | none => answerAbsent m t

/-- The native code at which the machine enters the code of an embedding in the world `w`, and that
code. -/
inductive Entry (e : Embedding) (t : ThreadId) (w : World) : M Nat → M Nat → Prop where
  | function {c : ClosureId} {ups : Array Value} {p : UInt64} :
      (w.thread t).slot (w.thread t).frame.func = .closure c →
      w.heap.closures.get c.index = .native .trampoline ups → ups[0]? = some (.light p) →
      Entry e t w (e.host.native .trampoline t) (e.function (HostFn.ofAddress p) t)
  | operation (m : MetaMethod) :
      Entry e t w (e.host.native (.metamethod m) t) (answering e.types m t)
  | continuation (k : HostContinuation) (s : Status) (context : Int) :
      Entry e t w (e.host.continue_ (.host k) t s context) (e.continuation k t s context)

/-- No other native code depends on the embedding. -/
theorem native_eq_of_library (e e' : Embedding) {f : Native} (htrampoline : f ≠ .trampoline)
    (hmetamethod : forall m, f ≠ .metamethod m) (t : ThreadId) :
    e.host.native f t = e'.host.native f t := by
  cases f with
  | trampoline => exact absurd rfl htrampoline
  | metamethod m => exact absurd rfl (hmetamethod m)
  | _ => rfl

theorem answerOperation_eq (types : BoundTypes) (m : MetaMethod) (t : ThreadId) :
    answerOperation types m t = guarded t (answering types m t) := by
  cases m <;> rfl

/-- Every entry is guarded. -/
theorem Entry.run_eq {e : Embedding} {t : ThreadId} {w : World} {x body : M Nat}
    (h : Entry e t w x body) (E : Engine) : x E w = guarded t body E w := by
  cases h with
  | function hslot hclosure hp => exact Suspending.trampoline_eq hslot hclosure hp
  | operation m => exact run_congr (answerOperation_eq e.types m t)
  | continuation k s context => rfl

/-!
# Panics that become errors
-/

/-- What is done with the message of a panic. -/
def telling (t : ThreadId) (payload : PanicPayload) : M Unit := do
  log .warn ("host function panicked: " ++ panicText payload)
  pushString t (panicText payload)

/-- The thread that calls its message handler with the error object on top. -/
def handing (th : Thread) : Thread :=
  ((th.drop 1).push ((th.drop 1).slot th.handler)).push (th.slot (th.top - 1))

/-- The error with the object on top of the stack in the world `v` leaves with a status, in a world
`u`: the object for exhausted memory is that error, and another object goes to the message handler
first, if there is one. -/
inductive Raised (E : Engine) (t : ThreadId) (v : World) : Status → World → Prop where
  | memory : (v.thread t).slot ((v.thread t).top - 1) = .str memoryText → Raised E t v .errMem v
  | plain : (v.thread t).slot ((v.thread t).top - 1) ≠ .str memoryText →
      (v.thread t).handler = 0 → Raised E t v .errRun v
  | handled {u : World} : (v.thread t).slot ((v.thread t).top - 1) ≠ .str memoryText →
      (v.thread t).handler ≠ 0 →
      E.call t ((handing (v.thread t)).top - 2) 1 false (v.setThread t (handing (v.thread t))) =
        .ok () u → Raised E t v .errRun u

/-- The code panics in the world `u₀`, with one free slot; the error that this becomes leaves it with
the status `s`, in the world `u`, and a section protects the thread. -/
structure Panics (body : M Nat) (E : Engine) (t : ThreadId) (w : World) (payload : PanicPayload)
    (u₀ : World) (s : Status) (u : World) : Prop where
  outcome : body E w = .error (.panic payload) u₀
  live₀ : u₀.liveThread t = true
  within : (u₀.thread t).base ≤ (u₀.thread t).top
  ready : (u₀.thread t).Ready 1
  raised : Raised E t (after (telling t payload) u₀) s u
  live : u.liveThread t = true
  guards : 0 < (u.thread t).guards

section Panics

variable {t : ThreadId} {u v w : World} {E : Engine} {s : Status} {payload : PanicPayload}

theorem after_of_returns {α : Type} {x : M α} {a : α} (h : Returns x w a v) : after x w = v := by
  unfold after
  rw [h idle]

/-- The message of a panic is pushed, if there is a slot for it. -/
theorem returns_telling (hlive : w.liveThread t = true) (hready : (w.thread t).Ready 1)
    (payload : PanicPayload) :
    Returns (telling t payload) w () (after (telling t payload) w) ∧
      (after (telling t payload) w).liveThread t = true ∧
      (w.thread t).Topped (.ofText (panicText payload))
        ((after (telling t payload) w).thread t) := by
  have hlog : exists w₁, w₁.thread t = w.thread t ∧ w₁.liveThread t = w.liveThread t ∧
      Returns (log .warn ("host function panicked: " ++ panicText payload)) w () w₁ :=
    ⟨_, by rfl, by rfl, returns_modify _ w⟩
  rcases hlog with ⟨w₁, hthread, hlive₁, hlog⟩
  rw [← hthread] at hready ⊢
  rw [← hlive₁] at hlive
  rcases Interface.returns_reserve_ready hlive hready (by decide) with ⟨th, halike, _, hreserve⟩
  have hpush := returns_push (w₁.setThread t th) t (.ofText (panicText payload))
  rw [World.thread_setThread hlive, World.setThread_setThread] at hpush
  have htell : Returns (telling t payload) w () _ :=
    Returns.bind hlog (Returns.bind hreserve hpush)
  rw [after_of_returns htell]
  refine ⟨htell, (World.liveThread_setThread w₁ t t _).trans hlive, ?_⟩
  rw [World.thread_setThread hlive]
  exact halike.topped _

theorem throwStatus_of_protected {α : Type} (hguards : 0 < (u.thread t).guards) (s : Status) :
    throwStatus (α := α) t s E u = .error (.error t s) u := by
  refine (returns_thread u t).andThen ?_
  exact run_congr (if_pos hguards)

theorem throwTop_calls {α : Type} (hlive : v.liveThread t = true) (hsome : (v.thread t).handler ≠ 0) :
    throwTop (α := α) t E v = (do
      E.call t ((handing (v.thread t)).top - 2) 1 false
      throwStatus t .errRun : M α) E (v.setThread t (handing (v.thread t))) := by
  have hpop : Returns (pop t) v ((v.thread t).slot ((v.thread t).top - 1))
      (v.setThread t ((v.thread t).drop 1)) :=
    Returns.bind (returns_thread v t) (Returns.bind (returns_drop v t 1) (Returns.pure _ _))
  have hslot := returns_slot (v.setThread t ((v.thread t).drop 1)) t (v.thread t).handler
  have hhandler := returns_push (v.setThread t ((v.thread t).drop 1)) t
    (((v.thread t).drop 1).slot (v.thread t).handler)
  have hobject := returns_push (v.setThread t
    (((v.thread t).drop 1).push (((v.thread t).drop 1).slot (v.thread t).handler))) t
    ((v.thread t).slot ((v.thread t).top - 1))
  have htop := returns_top (v.setThread t (handing (v.thread t))) t
  rw [World.thread_setThread hlive, World.setThread_setThread] at hhandler hobject
  rw [World.thread_setThread hlive] at hslot htop
  refine (returns_thread v t).andThen ?_
  refine (run_congr (if_pos (bne_iff_ne.mpr hsome))).trans ?_
  refine hpop.andThen ?_
  refine hslot.andThen ?_
  refine hhandler.andThen ?_
  refine hobject.andThen ?_
  refine ok_andThen (x := read) (a := E) rfl ?_
  exact htop.andThen rfl

theorem throwTop_eq {α : Type} (hlive : v.liveThread t = true) (hsome : (v.thread t).handler ≠ 0)
    (hcall : E.call t ((handing (v.thread t)).top - 2) 1 false
      (v.setThread t (handing (v.thread t))) = .ok () u) :
    throwTop (α := α) t E v = throwStatus (α := α) t .errRun E u :=
  (throwTop_calls hlive hsome).trans (ok_andThen (a := ()) hcall rfl)

theorem Raised.raiseTop_eq {α : Type} (h : Raised E t v s u) (hlive : v.liveThread t = true)
    (hguards : 0 < (u.thread t).guards) :
    Machine.raiseTop (α := α) t E v = .error (.error t s) u := by
  refine (returns_top v t).andThen ?_
  refine (returns_slot v t _).andThen ?_
  cases h with
  | memory hobject =>
      refine (run_congr (if_pos hobject)).trans ?_
      exact throwStatus_of_protected hguards .errMem
  | plain hobject hnone =>
      refine (run_congr (if_neg hobject)).trans ?_
      refine (returns_thread u t).andThen ?_
      refine (run_congr (if_neg (by rw [hnone]; exact Bool.false_ne_true))).trans ?_
      exact throwStatus_of_protected hguards .errRun
  | handled hobject hsome hcall =>
      refine (run_congr (if_neg hobject)).trans ?_
      refine (throwTop_eq hlive hsome hcall).trans ?_
      exact throwStatus_of_protected hguards .errRun

theorem Raised.isError (h : Raised E t v s u) : s.isError = true := by
  cases h <;> rfl

/-- A panic leaves a guarded body as an error. -/
theorem Panics.guarded_eq {body : M Nat} {u₀ : World}
    (h : Panics body E t w payload u₀ s u) : guarded t body E w = .error (.error t s) u := by
  rcases returns_telling h.live₀ h.ready payload with ⟨htell, hlive, htopped⟩
  have hheight : Returns (height t) (after (telling t payload) u₀)
      ((after (telling t payload) u₀).thread t).height (after (telling t payload) u₀) :=
    returns_height _ t
  have hsome : ((after (telling t payload) u₀).thread t).height ≠ 0 := by
    have hwithin := h.within
    unfold Thread.height
    rw [htopped.top_eq, htopped.below.base_eq]
    omega
  refine catch_of_error h.outcome ?_
  have htold : (do
      telling t payload
      Interface.raiseTop t : M Nat) E u₀ = .error (.error t s) u := by
    refine htell.andThen ?_
    refine hheight.andThen ?_
    refine (run_congr (if_neg (by rw [beq_eq_false_iff_ne.mpr hsome]; exact Bool.false_ne_true))).trans ?_
    exact h.raised.raiseTop_eq hlive h.guards
  unfold telling at htold
  simp only [bind_assoc] at htold
  exact htold

theorem Raised.status_eq (h : Raised E t v s u) :
    s = if (v.thread t).slot ((v.thread t).top - 1) = .str memoryText then .errMem else .errRun := by
  cases h with
  | memory hobject => rw [if_pos hobject]
  | plain hobject => rw [if_neg hobject]
  | handled hobject => rw [if_neg hobject]

/-- Without a message handler the error object is the one on top of the stack. -/
theorem Raised.eq_of_unhandled (h : Raised E t v s u) (hnone : (v.thread t).handler = 0) :
    u = v ∧ (u.thread t).errorObject s = (v.thread t).slot ((v.thread t).top - 1) := by
  cases h with
  | memory hobject => exact ⟨rfl, hobject.symm⟩
  | plain => exact ⟨rfl, rfl⟩
  | handled _ hsome => exact absurd hnone hsome

/-- The text of a panic is on top of the stack when it is raised. -/
theorem top_telling (hlive : w.liveThread t = true) (hready : (w.thread t).Ready 1)
    (payload : PanicPayload) :
    ((after (telling t payload) w).thread t).slot
      (((after (telling t payload) w).thread t).top - 1) = .ofText (panicText payload) := by
  rcases returns_telling hlive hready payload with ⟨_, _, htopped⟩
  rw [htopped.top_eq, Nat.add_sub_cancel]
  exact htopped.slot_top

end Panics

/-!
# Panics are contained
-/

/-- The entry `x` contains the panics of the code `body` in the world `w`.  What the code returns is
returned.  A panic leaves as an error, and is reported as one: as the memory error if its text is that
error's, and as a runtime error otherwise.  The error object is the text, if no message handler
changes it, and the slots that were in use at the panic are as they were. -/
structure Contained (host : Host) (t : ThreadId) (x body : M Nat) (E : Engine) (w : World) :
    Prop where
  returns : forall {n : Nat} {u : World}, body E w = .ok n u → x E w = .ok n u
  raises : forall {payload : PanicPayload} {u₀ u : World} {s : Status},
    Panics body E t w payload u₀ s u →
    x E w = .error (.error t s) u ∧ Reported host t s u (x E w)
  status_eq : forall {payload : PanicPayload} {u₀ u : World} {s : Status},
    Panics body E t w payload u₀ s u →
    s = if Value.ofText (panicText payload) = .str memoryText then .errMem else .errRun
  object_eq : forall {payload : PanicPayload} {u₀ u : World} {s : Status},
    Panics body E t w payload u₀ s u →
    ((after (telling t payload) u₀).thread t).handler = 0 →
    (u.thread t).errorObject s = .ofText (panicText payload) ∧
      (u₀.thread t).SameBelow (u₀.thread t).top (u.thread t)

/-- Panics become errors at every entry, whatever stands around it. -/
theorem entry_contained {e : Embedding} {t : ThreadId} {w : World} {x body : M Nat}
    (h : Entry e t w x body) (E : Engine) : Contained e.host t x body E w := by
  constructor
  · intro n u hbody
    rw [h.run_eq E]
    exact Suspending.guarded_of_ok hbody
  · intro payload u₀ u s hpanics
    have hrun : x E w = .error (.error t s) u := (h.run_eq E).trans hpanics.guarded_eq
    rw [hrun]
    exact ⟨rfl, reported_error e.host hpanics.live hpanics.raised.isError⟩
  · intro payload u₀ u s hpanics
    rw [← top_telling hpanics.live₀ hpanics.ready payload]
    exact hpanics.raised.status_eq
  · intro payload u₀ u s hpanics hnone
    rcases returns_telling hpanics.live₀ hpanics.ready payload with ⟨_, _, htopped⟩
    rcases hpanics.raised.eq_of_unhandled hnone with ⟨hsame, hobject⟩
    refine ⟨hobject.trans (top_telling hpanics.live₀ hpanics.ready payload), ?_⟩
    rw [hsame]
    exact htopped.below

/-!
# A panic below two calls
-/

/-- A function that calls its last argument, and one that panics. -/
def relaying : Embedding where
  function
    | ⟨0⟩, t => do
      Interface.call t 0 multipleResults
      return 0
    | _, _ => Machine.panic "boom"

/-- A main thread with the two functions. -/
def relayingWorld : World :=
  { heap :=
      { closures :=
          { items :=
              #[some (.native .trampoline #[.light (HostFn.mk 0).address]),
                some (.native .trampoline #[.light (HostFn.mk 1).address])] }
        threads :=
          { items := #[some ((Thread.fresh.push (.closure ⟨0⟩)).push (.closure ⟨1⟩))] } } }

def sectionWorld : World :=
  relayingWorld.setThread ⟨0⟩ ((relayingWorld.thread ⟨0⟩).withHandler 0).guarding

/-- The world in which the first function runs. -/
def outerWorld : World :=
  sectionWorld.setThread ⟨0⟩
    (((sectionWorld.thread ⟨0⟩).nested false).entering 1 multipleResults)

/-- The world in which the second function runs. -/
def innerWorld : World :=
  outerWorld.setThread ⟨0⟩ (((outerWorld.thread ⟨0⟩).nested false).entering
    ((outerWorld.thread ⟨0⟩).top - 1) multipleResults)

theorem entry_innerWorld :
    Entry relaying ⟨0⟩ innerWorld (relaying.host.native .trampoline ⟨0⟩)
      (relaying.function ⟨1⟩ ⟨0⟩) := by
  have hslot : (innerWorld.thread ⟨0⟩).slot (innerWorld.thread ⟨0⟩).frame.func = .closure ⟨1⟩ :=
    rfl
  have hclosure : innerWorld.heap.closures.get 1 =
      .native .trampoline #[.light (HostFn.mk 1).address] := rfl
  have hp : HostFn.ofAddress (HostFn.mk 1).address = ⟨1⟩ := by decide
  rw [← hp]
  exact .function hslot hclosure rfl

theorem entry_outerWorld :
    Entry relaying ⟨0⟩ outerWorld (relaying.host.native .trampoline ⟨0⟩)
      (relaying.function ⟨0⟩ ⟨0⟩) := by
  have hslot : (outerWorld.thread ⟨0⟩).slot (outerWorld.thread ⟨0⟩).frame.func = .closure ⟨0⟩ :=
    rfl
  have hclosure : outerWorld.heap.closures.get 0 =
      .native .trampoline #[.light (HostFn.mk 0).address] := rfl
  have hp : HostFn.ofAddress (HostFn.mk 0).address = ⟨0⟩ := by decide
  rw [← hp]
  exact .function hslot hclosure rfl

theorem inner_call :
    exists L, Around ⟨0⟩ L ∧
      (engine relaying.host 3).call ⟨0⟩ 1 multipleResults false sectionWorld =
        L (relaying.host.native .trampoline ⟨0⟩ (engine relaying.host 1) innerWorld) := by
  -- both calls are of native functions, so that each comes to its trampoline in a call of its own
  have hfirst : callFunction relaying.host ⟨0⟩ 1 multipleResults false (engine relaying.host 2)
      sectionWorld = (do
        let n ← relaying.host.native .trampoline ⟨0⟩
        finishCall relaying.host ⟨0⟩ n
        leaveNesting ⟨0⟩ false : M Unit) (engine relaying.host 2) outerWorld := by
    have hslot : (sectionWorld.thread ⟨0⟩).slot 1 = .closure ⟨0⟩ := rfl
    have hclosure : sectionWorld.heap.closures.get 0 =
        .native .trampoline #[.light (HostFn.mk 0).address] := rfl
    exact callFunction_native rfl hslot hclosure (by decide)
      (Or.inr ⟨by decide, by decide⟩) rfl multipleResults false
  have hsecond : callFunction relaying.host ⟨0⟩ ((outerWorld.thread ⟨0⟩).top - 1) multipleResults
      false (engine relaying.host 1) outerWorld = (do
        let n ← relaying.host.native .trampoline ⟨0⟩
        finishCall relaying.host ⟨0⟩ n
        leaveNesting ⟨0⟩ false : M Unit) (engine relaying.host 1) innerWorld := by
    have hslot : (outerWorld.thread ⟨0⟩).slot ((outerWorld.thread ⟨0⟩).top - 1) =
        .closure ⟨1⟩ := rfl
    have hclosure : outerWorld.heap.closures.get 1 =
        .native .trampoline #[.light (HostFn.mk 1).address] := rfl
    exact callFunction_native rfl hslot hclosure (by decide)
      (Or.inr ⟨by decide, by decide⟩) rfl multipleResults false
  have hbody : relaying.function ⟨0⟩ ⟨0⟩ (engine relaying.host 2) outerWorld = (do
      known (callFunction relaying.host ⟨0⟩ ((outerWorld.thread ⟨0⟩).top - 1) multipleResults false
        (engine relaying.host 1) outerWorld)
      adjustResults ⟨0⟩ multipleResults
      return 0 : M Nat) (engine relaying.host 2) outerWorld := by
    have htop : Returns (Interface.getTop ⟨0⟩) outerWorld 1 outerWorld := fun _ => rfl
    have hcall : Interface.call ⟨0⟩ 0 multipleResults (engine relaying.host 2) outerWorld = (do
        known (callFunction relaying.host ⟨0⟩ ((outerWorld.thread ⟨0⟩).top - 1) multipleResults false
          (engine relaying.host 1) outerWorld)
        adjustResults ⟨0⟩ multipleResults : M Unit) (engine relaying.host 2) outerWorld :=
      htop.andThen rfl
    have hrelay : relaying.function ⟨0⟩ ⟨0⟩ = (do
        Interface.call ⟨0⟩ 0 multipleResults
        return 0) := rfl
    rw [hrelay]
    refine (bind_congr_of_eq hcall _).trans ?_
    rw [bind_assoc]
  -- from the outside in: the rest of the first call, its guard, the rest of the host code, the rest
  -- of the second call
  refine ⟨_, .andThen (fun n => do
    finishCall relaying.host ⟨0⟩ n
    leaveNesting ⟨0⟩ false) (engine relaying.host 2) outerWorld
    (.guarded ⟨0⟩ (engine relaying.host 2) outerWorld
      (.andThen (fun _ => do
        adjustResults ⟨0⟩ multipleResults
        return 0) (engine relaying.host 2) outerWorld
        (.andThen (fun n => do
          finishCall relaying.host ⟨0⟩ n
          leaveNesting ⟨0⟩ false) (engine relaying.host 1) innerWorld .here))), ?_⟩
  refine hfirst.trans (bind_congr_of_eq ?_ _)
  refine (entry_outerWorld.run_eq _).trans ?_
  show guarded ⟨0⟩ (relaying.function ⟨0⟩ ⟨0⟩) _ _ = guarded ⟨0⟩ (known _) _ _
  refine catch_congr (hbody.trans ?_) _
  show (known _ >>= fun _ => _) _ _ = (known _ >>= fun _ => _) _ _
  refine bind_congr_of_eq ?_ _
  exact hsecond.trans (bind_congr_of_eq rfl _)

theorem panics_innerWorld :
    exists u₀ u, Panics (relaying.function ⟨1⟩ ⟨0⟩) (engine relaying.host 1) ⟨0⟩ innerWorld
        (.text "boom") u₀ .errRun u ∧ (u.thread ⟨0⟩).toClose = [] ∧
      ((after (telling ⟨0⟩ (.text "boom")) u₀).thread ⟨0⟩).handler = 0 := by
  refine ⟨innerWorld, after (telling ⟨0⟩ (.text "boom")) innerWorld, ?_, ?_, ?_⟩
  · exact ⟨rfl, by decide, by decide, Or.inr ⟨by decide, by decide⟩,
      .plain (by decide) rfl, rfl, by decide⟩
  · rfl
  · rfl

theorem entry_contained_relaying :
    exists w', runProtected ⟨0⟩ 1 0 ((engine relaying.host 3).call ⟨0⟩ 1 multipleResults false)
        (engine relaying.host 3) relayingWorld = .ok .errRun w' ∧
      (w'.thread ⟨0⟩).top = 2 ∧ (w'.thread ⟨0⟩).slot 1 = .ofText "boom" := by
  rcases panics_innerWorld with ⟨u₀, u, hpanics, hpending, hnone⟩
  rcases inner_call with ⟨L, hL, hcall⟩
  have hcontained : Contained relaying.host ⟨0⟩ _ _ (engine relaying.host 1) innerWorld :=
    entry_contained entry_innerWorld (engine relaying.host 1)
  rcases hcontained.raises hpanics with ⟨_, hreported⟩
  rcases hcontained.object_eq hpanics hnone with ⟨hobject, _⟩
  have hrun : ((engine relaying.host 3).call ⟨0⟩ 1 multipleResults false : M Unit)
      (engine relaying.host 3) (relayingWorld.setThread ⟨0⟩
        ((relayingWorld.thread ⟨0⟩).withHandler 0).guarding) = L _ := hcall
  rcases hreported.called hL rfl hrun with ⟨u', hkeeps, hreports⟩
  have hlive : u'.liveThread ⟨0⟩ = true := hkeeps.live_eq.trans hpanics.live
  have hunwound : (unwound ⟨0⟩ relayingWorld u').liveThread ⟨0⟩ = true :=
    (World.liveThread_setThread u' ⟨0⟩ ⟨0⟩ _).trans hlive
  have hnothing : forall i, i ∈ (((unwound ⟨0⟩ relayingWorld u').setThread ⟨0⟩
      ((unwound ⟨0⟩ relayingWorld u').thread ⟨0⟩).guarding).thread ⟨0⟩).toClose → i < 1 := by
    intro i hi
    rw [World.thread_setThread hunwound] at hi
    unfold unwound at hi
    rw [World.thread_setThread hlive, hkeeps.thread_eq] at hi
    have hempty : i ∈ (u.thread ⟨0⟩).toClose := hi
    rw [hpending] at hempty
    cases hempty
  rcases closes_nothing ((World.liveThread_setThread _ ⟨0⟩ ⟨0⟩ _).trans hunwound) hnothing
    (engine relaying.host 3) .errRun false with ⟨v, hcloses, _⟩
  rcases hreports v hcloses with ⟨w', hrun, hlast⟩
  exact ⟨w', hrun, hlast.top_eq, hlast.slot_eq.trans hobject⟩

/-!
# What else is reported
-/

/-- Functions that panic, the second one with the text of the memory error; one that protects a call
in another thread; and one that calls the first one in the main thread. -/
def panicking : Embedding where
  function
    | ⟨0⟩, _ => Machine.panic "boom"
    | ⟨1⟩, _ => Machine.panic "not enough memory"
    | ⟨2⟩, t => do
      let t' ← Interface.newThread t
      Interface.pushFunction t' ⟨3⟩
      let _ ← Interface.pcall t' 0 0 0
      recordEvent "reported in another thread"
      return 0
    | _, _ => do
      Interface.pushFunction ⟨0⟩ ⟨0⟩
      Interface.call ⟨0⟩ 0 0
      return 0

/-- What a protected call of a chunk reports, what it leaves on the stack, and what was noted.  The
chunk is given some functions of the base library, and the first three of the functions above. -/
def reported (chunk : String) : Option (Status × List Value × List String) :=
  let run : M Status := do
    let _ ← Interface.loadBuffer ⟨0⟩ chunk.toUTF8 "chunk" none
    pushAll ⟨0⟩ [.native (.base .pcall), .native (.base .setmetatable), .native (.base .error)]
    [0, 1, 2].forM fun i => Interface.pushFunction ⟨0⟩ ⟨i⟩
    Interface.pcall ⟨0⟩ 6 multipleResults 0
  match run (engine panicking.host 6) Interface.freshWorld with
  | .ok s w => some (s, (w.thread ⟨0⟩).values, w.events)
  | .error _ _ => none

/-- Closing methods may raise other errors, the code that panics may write to variables of its callers,
the text of the memory error is that error, and protected calls of other threads are passed over. -/
theorem reported_otherwise :
    reported ("local pcall, setmetatable, error, boom = ... local x = 1 " ++
      "local _, a = pcall(function() local c <close> = setmetatable(\x7b\x7d, " ++
      "\x7b__close = function() error([[other]], 0) end\x7d) boom() end) " ++
      "local _, b = pcall(function() x = 2 boom() end) return a, b, x") =
      some (.ok, [.ofText "other", .ofText "boom", .int 2], []) ∧
    reported "local _, _, _, _, starve = ... starve()" =
      some (.errMem, [.ofText "not enough memory"], []) ∧
    reported "local pcall, _, _, _, _, protect = ... return pcall(protect)" =
      some (.ok, [.bool false, .ofText "boom"], []) := by
  decide +kernel

end Containing

end LuaHost
