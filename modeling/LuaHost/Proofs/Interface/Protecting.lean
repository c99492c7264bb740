import LuaHost.Proofs.Interface.Yielding
import LuaHost.Proofs.Machine.Unwinding

/-!
# Protected calls that go on in a continuation

A host function calls another function under protection, and goes on in a
continuation.  The callee may return at once, or fail, or be interrupted by a
yield or by an error that a protected call inside of it recovers from; the
host function's own code is gone then, and the machine calls the continuation
when the callee has come to its end.  The continuation is called once whichever
way it goes, and finds the same stack.
-/

namespace LuaHost

namespace Protecting

open Machine
open Interface (pcallWith guarded)
open Suspending (noting exchange started)

/-!
# What the host asks for
-/

/-- What is asked of a protected call. -/
structure Request where
  nargs : Nat
  wanted : Int
  handler : Int
  continuation : HostContinuation
  context : Int

/-- The slot of the function that is called. -/
def Request.slot (q : Request) (th : Thread) : Nat := th.top - (q.nargs + 1)

/-- A host function that makes a protected call, and goes on in its continuation `K`. -/
def protecting (K : ThreadId → Status → Int → M Nat) (q : Request) (t : ThreadId) : M Nat := do
  let s ← pcallWith t q.nargs q.wanted q.handler q.continuation q.context
  K t s q.context

/-- The slot of the message handler, whose index denotes the place `p`; zero for none. -/
def handlerSlot (handler : Int) (p : Place) : Nat :=
  if handler == 0 then 0 else
    match p with
    | .slot i => i
    | _ => 0

/-- A native call that makes a protected call, which may be interrupted. -/
def Request.frame (q : Request) (th : Thread) (f : Frame) : Frame :=
  { f with
    continuation := some (.host q.continuation)
    context := q.context
    protectedSlot := q.slot th
    oldHandler := th.handler
    hooksAllowed := th.hook.allowed
    protectedCall := true }

/-- The thread whose running call makes a protected call. -/
def asking (q : Request) (handler : Nat) (th : Thread) : Thread :=
  (th.modifyFrame (q.frame th)).withHandler handler

/-!
# What comes of the callee
-/

/-- How a callee ends. -/
inductive Ending where
  | returns (results : List Value)
  | fails (s : Status) (object : Value)

/-- As many results as are wanted, or all of them. -/
def adjusted (wanted : Int) (vs : List Value) : List Value :=
  if wanted < 0 then vs
  else vs.take wanted.toNat ++ List.replicate (wanted.toNat - vs.length) .nil

/-- What the caller finds in the place of the function. -/
def Ending.values (wanted : Int) : Ending → List Value
  | .returns vs => adjusted wanted vs
  | .fails _ v => [v]

/-- What the continuation is told of the ending. -/
def Ending.seen (interrupted : Bool) : Ending → Status
  | .returns _ => if interrupted then .yield else .ok
  | .fails s _ => s

/-- The callee returns: its results are on top of the stack, and their place is slot `i` of the
caller, whose values begin at slot `base`. -/
structure Leaving (th : Thread) (base i : Nat) (wanted : Int) (below results : List Value) :
    Prop where
  func_eq : th.frame.func = i
  wanted_eq : th.frame.wanted = wanted
  caller : th.popFrame.base = base
  base_le : base ≤ i
  within : i + results.length ≤ th.top
  below_eq : th.slots base (i - base) = below
  results_eq : th.slots (th.top - results.length) results.length = results

/-- The callee has failed: the error object is about to take the place of the function, slot `i` of
the caller. -/
structure Failing (th : Thread) (base i : Nat) (s : Status) (below : List Value) (object : Value) :
    Prop where
  caller : th.base = base
  base_le : base ≤ i
  below_eq : th.slots base (i - base) = below
  object_eq : th.errorObject s = object

/-!
# The stack that the continuation finds
-/

theorem length_adjusted (wanted : Int) (vs : List Value) :
    (adjusted wanted vs).length = if wanted < 0 then vs.length else wanted.toNat := by
  unfold adjusted
  split
  · rfl
  · rw [List.length_append, List.length_take, List.length_replicate]
    omega

theorem top_movedDown (th : Thread) (i n : Nat) (wanted : Int) :
    (th.movedDown i n wanted).top = i + if wanted < 0 then n else wanted.toNat := by
  unfold Thread.movedDown
  split <;> rfl

theorem slots_shifted {th th' : Thread} {i j n : Nat}
    (h : forall k, k < n → th'.slot (i + k) = th.slot (j + k)) : th'.slots i n = th.slots j n := by
  unfold Thread.slots
  apply List.map_congr_left
  intro k hk
  exact h k (List.mem_range.mp hk)

theorem slots_nil {th : Thread} {i n : Nat} (h : forall k, k < n → th.slot (i + k) = .nil) :
    th.slots i n = List.replicate n .nil := by
  refine List.eq_replicate_iff.mpr ⟨Thread.length_slots th i n, ?_⟩
  intro v hv
  rcases List.mem_map.mp hv with ⟨k, hk, rfl⟩
  exact h k (List.mem_range.mp hk)

theorem slot_movedDown_below (th : Thread) {i n j : Nat} (hj : j < i) (hi : i ≤ th.top - n)
    (wanted : Int) : (th.movedDown i n wanted).slot j = th.slot j := by
  have hout : forall m, ¬ (i ≤ j ∧ j < m) := fun m h => Nat.not_le_of_lt hj h.1
  unfold Thread.movedDown
  split
  · show (th.moveSlots (th.top - n) i n).slot j = _
    rw [Thread.slot_moveSlots_down th hi, if_neg (hout _)]
  · show ((th.moveSlots _ i _).fillNil _ _).slot j = _
    rw [Thread.slot_fillNil, if_neg (by omega), Thread.slot_moveSlots_down th hi, if_neg (hout _)]

theorem slots_movedDown {th : Thread} {i : Nat} {vs : List Value} (hi : i + vs.length ≤ th.top)
    (hvs : th.slots (th.top - vs.length) vs.length = vs) (wanted : Int) :
    (th.movedDown i vs.length wanted).slots i (adjusted wanted vs).length = adjusted wanted vs := by
  have hdown : i ≤ th.top - vs.length := by omega
  -- a block that moves down does not overwrite what it has yet to read
  have hmoved : forall m, m ≤ vs.length →
      (th.moveSlots (th.top - vs.length) i m).slots i m = vs.take m := by
    intro m hm
    have hsplit := Thread.slots_add th (th.top - vs.length) m (vs.length - m)
    rw [Nat.add_sub_cancel' hm, hvs] at hsplit
    have htake : th.slots (th.top - vs.length) m = vs.take m := by
      have hfirst := congrArg (List.take m) hsplit
      rw [List.take_left' (Thread.length_slots th _ m)] at hfirst
      exact hfirst.symm
    rw [← htake]
    apply slots_shifted
    intro k hk
    rw [Thread.slot_moveSlots_down th hdown,
      if_pos ⟨Nat.le_add_right i k, Nat.add_lt_add_left hk i⟩, Nat.add_sub_cancel_left]
  unfold Thread.movedDown adjusted
  split
  · exact (hmoved vs.length (Nat.le_refl _)).trans List.take_length
  · have hcount : (vs.take wanted.toNat).length = min vs.length wanted.toNat := by
      rw [List.length_take, Nat.min_comm]
    have htake : vs.take (min vs.length wanted.toNat) = vs.take wanted.toNat :=
      List.take_eq_take_iff.mpr (by omega)
    rw [List.length_append, List.length_replicate, Thread.slots_add, hcount]
    congr 1
    · refine Eq.trans ?_ ((hmoved _ (Nat.min_le_left _ _)).trans htake)
      apply slots_shifted
      intro k hk
      show ((th.moveSlots _ i _).fillNil _ _).slot (i + k) = _
      rw [Thread.slot_fillNil, if_neg (by omega)]
    · apply slots_nil
      intro k hk
      show ((th.moveSlots _ i _).fillNil _ _).slot _ = _
      rw [Thread.slot_fillNil, if_pos (by omega)]

/-- Behind the callee its caller finds its own values and the results. -/
theorem Leaving.values_finished {th : Thread} {base i : Nat} {wanted : Int}
    {below results : List Value} (h : Leaving th base i wanted below results) :
    (th.finished results.length).values = below ++ adjusted wanted results := by
  have hdown : i ≤ th.top - results.length := by
    have hwithin := h.within
    omega
  have hfinished : th.finished results.length =
      (th.movedDown i results.length wanted).popFrame := by
    unfold Thread.finished
    rw [h.func_eq, h.wanted_eq]
  have hbase : (th.finished results.length).base = base := by
    rw [← h.caller]
    unfold Thread.base
    rw [Thread.frame_finished]
  have hheight : (th.finished results.length).height =
      (i - base) + (adjusted wanted results).length := by
    have htop : (th.finished results.length).top = i + (adjusted wanted results).length := by
      rw [hfinished, length_adjusted]
      exact top_movedDown th i results.length wanted
    have hle := h.base_le
    unfold Thread.height
    rw [hbase, htop]
    omega
  unfold Thread.values
  rw [hbase, hheight, Thread.slots_add, Nat.add_sub_cancel' h.base_le]
  congr 1
  · rw [← h.below_eq]
    apply slots_shifted
    intro k hk
    have hle := h.base_le
    rw [hfinished]
    exact slot_movedDown_below th (by omega) hdown wanted
  · rw [hfinished]
    exact slots_movedDown h.within h.results_eq wanted

/-!
# The call
-/

section Call

variable {w u : World} {t : ThreadId} {q : Request} {p : Place} {E : Engine}

theorem with_handlerSlot {α : Type} {handler : Int} {p : Place}
    (hplace : Returns (place t handler) w p w) (f : Nat → M α) :
    (if handler == 0 then f 0 else do
      match ← place t handler with
      | .slot i => f i
      | _ => f 0 : M α) E w = f (handlerSlot handler p) E w := by
  unfold handlerSlot
  split
  · rfl
  · refine hplace.andThen ?_
    cases p <;> rfl

/-- In a thread that may yield, the callee is called with nothing around it. -/
theorem pcallWith_eq (hheight : q.nargs < (w.thread t).height)
    (hyieldable : (w.thread t).unyieldable = 0)
    (hplace : Returns (place t q.handler) w p w) :
    pcallWith t q.nargs q.wanted q.handler q.continuation q.context E w = (do
      (← read).call t (q.slot (w.thread t)) q.wanted true
      modifyThread t Thread.answered
      adjustResults t q.wanted
      return .ok : M Status) E
      (w.setThread t (asking q (handlerSlot q.handler p) (w.thread t))) := by
  have htop : Returns (Interface.getTop t) w ((w.thread t).height : Int) w :=
    Returns.bind (returns_height w t) (Returns.pure _ w)
  have hyields : Returns (yieldable t) w true w := by
    refine Returns.bind (returns_thread w t) ?_
    rw [hyieldable]
    exact Returns.pure _ w
  have hslot : Returns (functionSlot t q.nargs) w (q.slot (w.thread t)) w := fun _ => rfl
  refine htop.andThen ?_
  refine (run_congr (if_neg (by omega))).trans ?_
  refine hyields.andThen ?_
  refine (with_handlerSlot hplace _).trans ?_
  refine (Returns.pure _ w).andThen ?_
  refine hslot.andThen ?_
  exact (returns_modifyThread w t _).andThen rfl

/-- Where the thread may not yield, the callee is called in a section of its own. -/
theorem pcallWith_shielded (hheight : q.nargs < (w.thread t).height)
    (hshielded : (w.thread t).unyieldable ≠ 0) (hplace : Returns (place t q.handler) w p w) :
    pcallWith t q.nargs q.wanted q.handler q.continuation q.context E w = (do
      let s ← runProtected t (q.slot (w.thread t)) (handlerSlot q.handler p)
        (E.call t (q.slot (w.thread t)) q.wanted false)
      adjustResults t q.wanted
      return s : M Status) E w := by
  have htop : Returns (Interface.getTop t) w ((w.thread t).height : Int) w :=
    Returns.bind (returns_height w t) (Returns.pure _ w)
  have hyields : Returns (yieldable t) w false w := by
    refine Returns.bind (returns_thread w t) ?_
    rw [beq_eq_false_iff_ne.mpr hshielded]
    exact Returns.pure _ w
  have hslot : Returns (functionSlot t q.nargs) w (q.slot (w.thread t)) w := fun _ => rfl
  refine htop.andThen ?_
  refine (run_congr (if_neg (by omega))).trans ?_
  refine hyields.andThen ?_
  refine (with_handlerSlot hplace _).trans ?_
  refine (Returns.pure _ w).andThen ?_
  refine hslot.andThen ?_
  exact ok_andThen (x := read) (a := E) rfl rfl

end Call

/-!
# Courses of the callee
-/

/-- The ways in which the computation of a thread is interrupted. -/
inductive Interrupts (t : ThreadId) : Raise → Prop where
  | yield : Interrupts t (.yield t)
  | error (s : Status) : Interrupts t (.error t s)

/-- A host function in the world `w` is about to make a protected call. -/
structure Calling (w : World) (t : ThreadId) (q : Request) (p : Place) : Prop where
  live : w.liveThread t = true
  calls : 2 ≤ (w.thread t).frames.size
  native : (w.thread t).frame.isScript = false
  settled : (w.thread t).frame.recovering = .ok
  height : q.nargs < (w.thread t).height
  place_eq : Returns (place t q.handler) w p w

/-- How the callee of a protected call comes to its end, from the stage `σ` in which the call is made
under the engine `E`: what the resumer does in between, whether the callee was interrupted, how it
ends, what stands below it then, the world in which it ends, and the stage.  The turns run under the
engine `E₀`, and the resumer under `E₁`. -/
inductive Callee (host : Host) (caller : Option ThreadId) (E E₀ E₁ : Engine) (t : ThreadId)
    (q : Request) (p : Place) (w : World) (σ : Stage) :
    List (M Nat) → Bool → Ending → List Value → World → Stage → Prop where
  | returns {u : World} {below results : List Value} :
      (w.thread t).unyieldable = 0 →
      E.call t (q.slot (w.thread t)) q.wanted true
        (w.setThread t (asking q (handlerSlot q.handler p) (w.thread t))) = (do
          handOver t results.length
          leaveNesting t true : M Unit) E u →
      u.liveThread t = true →
      Leaving (u.thread t) (w.thread t).base (q.slot (w.thread t)) q.wanted below results →
      Callee host caller E E₀ E₁ t q p w σ [] false (.returns results) below u σ
  | returnsShielded {u : World} {below results : List Value} :
      (w.thread t).unyieldable ≠ 0 →
      E.call t (q.slot (w.thread t)) q.wanted false
        (w.setThread t ((w.thread t).withHandler (handlerSlot q.handler p)).guarding) = (do
          handOver t results.length
          leaveNesting t false : M Unit) E u →
      u.liveThread t = true →
      Leaving (u.thread t) (w.thread t).base (q.slot (w.thread t)) q.wanted below results →
      Callee host caller E E₀ E₁ t q p w σ [] false (.returns results) below u σ
  | failsShielded {u₀ u : World} {s₀ s : Status} {below : List Value} {object : Value} :
      (w.thread t).unyieldable ≠ 0 →
      E.call t (q.slot (w.thread t)) q.wanted false
        (w.setThread t ((w.thread t).withHandler (handlerSlot q.handler p)).guarding) =
        .error (.error t s₀) u₀ →
      (do
        unwindTo t (w.thread t).frames.size (w.thread t).hook.allowed
        closeProtected t (q.slot (w.thread t)) s₀ : M Status) E (backFrom t w u₀) = .ok s u →
      u.liveThread t = true →
      Failing (u.thread t) (w.thread t).base (q.slot (w.thread t)) s below object →
      Callee host caller E E₀ E₁ t q p w σ [] false (.fails s object) below u σ
  | returnsLater {r : Raise} {u₀ u v : World} {prepares : List (M Nat)} {fuel n : Nat}
      {below results : List Value} :
      (w.thread t).unyieldable = 0 → Interrupts t r →
      E.call t (q.slot (w.thread t)) q.wanted true
        (w.setThread t (asking q (handlerSlot q.handler p) (w.thread t))) = .error r u₀ →
      Course host t caller E₀ E₁ prepares ⟨σ.fuel, σ.outside, .error r u₀⟩ ⟨fuel, v, (do
        handOver t results.length
        unroll host t (n + 1) : M Unit) E₀ u⟩ →
      u.liveThread t = true →
      Leaving (u.thread t) (w.thread t).base (q.slot (w.thread t)) q.wanted below results →
      3 ≤ (u.thread t).frames.size →
      (u.thread t).popFrame.frame = q.frame (w.thread t) (w.thread t).frame →
      Callee host caller E E₀ E₁ t q p w σ prepares true (.returns results) below u ⟨fuel, v, (do
        handOver t results.length
        unroll host t (n + 1) : M Unit) E₀ u⟩
  | failsLater {r : Raise} {u₀ u₁ u v : World} {prepares : List (M Nat)} {fuel n : Nat} {s : Status}
      {below : List Value} {object : Value} :
      (w.thread t).unyieldable = 0 → Interrupts t r →
      E.call t (q.slot (w.thread t)) q.wanted true
        (w.setThread t (asking q (handlerSlot q.handler p) (w.thread t))) = .error r u₀ →
      Course host t caller E₀ E₁ prepares ⟨σ.fuel, σ.outside, .error r u₀⟩
        ⟨fuel, v, unroll host t (n + 1) E₀ u₁⟩ →
      2 ≤ (u₁.thread t).frames.size →
      (u₁.thread t).frame = { q.frame (w.thread t) (w.thread t).frame with recovering := s } →
      s.isError = true →
      closeFrom t (q.slot (w.thread t)) (some s) true E₀
        (u₁.setThread t ((u₁.thread t).allowing (w.thread t).hook.allowed)) = .ok () u →
      u.liveThread t = true →
      Failing (u.thread t) (w.thread t).base (q.slot (w.thread t)) s below object →
      Callee host caller E E₀ E₁ t q p w σ prepares true (.fails s object) below u
        ⟨fuel, v, unroll host t (n + 1) E₀ u₁⟩

/-!
# The continuation
-/

section Continuation

variable {e : Embedding} {t : ThreadId} {caller : Option ThreadId} {q : Request} {p : Place}
  {w u v : World} {E E₀ E₁ : Engine}

theorem Failing.values_placing {th : Thread} {base i : Nat} {s : Status} {below : List Value}
    {object : Value} (h : Failing th base i s below object) :
    (th.placing s i).values = below ++ [object] := by
  have hbase : (th.placing s i).base = base := by
    rw [← h.caller]
    exact Thread.base_setSlot th i _
  have hheight : (th.placing s i).height = (i - base) + 1 := by
    have hle := h.base_le
    unfold Thread.height
    rw [hbase]
    show i + 1 - base = _
    omega
  unfold Thread.values
  rw [hbase, hheight, Thread.slots_add, Nat.add_sub_cancel' h.base_le]
  congr 1
  · rw [← h.below_eq]
    apply slots_shifted
    intro k hk
    have hle := h.base_le
    exact (Thread.slot_setSlot th i _ _).trans (if_neg (by omega))
  · rw [← h.object_eq]
    exact congrArg (fun x => [x]) ((Thread.slot_setSlot th i _ _).trans (if_pos rfl))

theorem protecting_interrupted {r : Raise}
    (h : pcallWith t q.nargs q.wanted q.handler q.continuation q.context E w = .error r u)
    (hr : Interrupts t r) :
    guarded t (protecting (e.continuation q.continuation) q t) E w = .error r u := by
  refine catch_of_error (bind_of_error h _) ?_
  cases hr <;> rfl

/-- A world with the same events as `u`, in which the running call has these values. -/
structure Standing (t : ThreadId) (u w : World) (vs : List Value) : Prop where
  live : w.liveThread t = true
  events_eq : w.events = u.events
  values_eq : (w.thread t).values = vs

theorem standing_setThread (hlive : u.liveThread t = true) {th th' : Thread} (halike : th.Alike th')
    {vs : List Value} (hvs : th.values = vs) : Standing t u (u.setThread t th') vs :=
  ⟨(World.liveThread_setThread u t t th').trans hlive, rfl, by
    rw [World.thread_setThread hlive, halike.values_eq, hvs]⟩

theorem returns_leaveNesting (w : World) (t : ThreadId) (y : Bool) :
    exists th, (w.thread t).Alike th ∧ Returns (leaveNesting t y) w () (w.setThread t th) := by
  refine ⟨_, ?_, returns_modifyThread w t _⟩
  exact ⟨rfl, rfl, rfl⟩

theorem returns_leaving {base i : Nat} {wanted : Int} {below results : List Value}
    (hlive : u.liveThread t = true) (h : Leaving (u.thread t) base i wanted below results)
    (y : Bool) :
    exists th, th.values = below ++ adjusted wanted results ∧ Returns (do
      handOver t results.length
      leaveNesting t y) u () (u.setThread t th) := by
  rcases returns_leaveNesting (u.setThread t ((u.thread t).finished results.length)) t y with
    ⟨th, halike, hleave⟩
  rw [World.thread_setThread hlive] at halike
  rw [World.setThread_setThread] at hleave
  exact ⟨th, halike.values_eq.trans h.values_finished,
    Returns.bind (returns_handOver hlive results.length) hleave⟩

theorem pcallWith_returns (hcalling : Calling w t q p) (hyieldable : (w.thread t).unyieldable = 0)
    {below results : List Value}
    (hcall : E.call t (q.slot (w.thread t)) q.wanted true
      (w.setThread t (asking q (handlerSlot q.handler p) (w.thread t))) = (do
        handOver t results.length
        leaveNesting t true : M Unit) E u)
    (hlive : u.liveThread t = true)
    (h : Leaving (u.thread t) (w.thread t).base (q.slot (w.thread t)) q.wanted below results) :
    exists w', Standing t u w' (below ++ adjusted q.wanted results) ∧
      pcallWith t q.nargs q.wanted q.handler q.continuation q.context E w = .ok .ok w' := by
  rcases returns_leaving hlive h true with ⟨th, hvalues, hreturn⟩
  have hanswered := returns_modifyThread (u.setThread t th) t Thread.answered
  rw [World.thread_setThread hlive, World.setThread_setThread] at hanswered
  have hadjust := returns_adjustResults (u.setThread t th.answered) t q.wanted
  rw [World.thread_setThread hlive, World.setThread_setThread] at hadjust
  refine ⟨u.setThread t (th.answered.reaching q.wanted),
    standing_setThread hlive (th.alike_answered.trans (Thread.alike_reaching _ _)) hvalues, ?_⟩
  refine (pcallWith_eq hcalling.height hyieldable hcalling.place_eq).trans ?_
  refine ok_andThen (x := read) (a := E) rfl ?_
  refine ok_andThen (a := ()) (hcall.trans (hreturn E)) ?_
  exact hanswered.andThen (hadjust.andThen rfl)

theorem pcallWith_returns_shielded (hcalling : Calling w t q p)
    (hshielded : (w.thread t).unyieldable ≠ 0) {below results : List Value}
    (hcall : E.call t (q.slot (w.thread t)) q.wanted false
      (w.setThread t ((w.thread t).withHandler (handlerSlot q.handler p)).guarding) = (do
        handOver t results.length
        leaveNesting t false : M Unit) E u)
    (hlive : u.liveThread t = true)
    (h : Leaving (u.thread t) (w.thread t).base (q.slot (w.thread t)) q.wanted below results) :
    exists w', Standing t u w' (below ++ adjusted q.wanted results) ∧
      pcallWith t q.nargs q.wanted q.handler q.continuation q.context E w = .ok .ok w' := by
  rcases returns_leaving hlive h false with ⟨th, hvalues, hreturn⟩
  have hbody : (E.call t (q.slot (w.thread t)) q.wanted false : M Unit) E
      (w.setThread t ((w.thread t).withHandler (handlerSlot q.handler p)).guarding) =
      .ok () (u.setThread t th) := hcall.trans (hreturn E)
  rcases runProtected_of_ok (q.slot (w.thread t)) hcalling.live
    ((World.liveThread_setThread u t t th).trans hlive) hbody with ⟨th', halike, hrun⟩
  rw [World.thread_setThread hlive] at halike
  rw [World.setThread_setThread] at hrun
  have hadjust := returns_adjustResults (u.setThread t th') t q.wanted
  rw [World.thread_setThread hlive, World.setThread_setThread] at hadjust
  refine ⟨u.setThread t (th'.reaching q.wanted),
    standing_setThread hlive (halike.trans (Thread.alike_reaching _ _)) hvalues, ?_⟩
  refine (pcallWith_shielded hcalling.height hshielded hcalling.place_eq).trans ?_
  exact ok_andThen hrun (hadjust.andThen rfl)

theorem pcallWith_fails_shielded (hcalling : Calling w t q p)
    (hshielded : (w.thread t).unyieldable ≠ 0) {u₀ : World} {s₀ s : Status} {below : List Value}
    {object : Value}
    (hcall : E.call t (q.slot (w.thread t)) q.wanted false
      (w.setThread t ((w.thread t).withHandler (handlerSlot q.handler p)).guarding) =
      .error (.error t s₀) u₀)
    (hclose : (do
      unwindTo t (w.thread t).frames.size (w.thread t).hook.allowed
      closeProtected t (q.slot (w.thread t)) s₀ : M Status) E (backFrom t w u₀) = .ok s u)
    (hlive : u.liveThread t = true)
    (h : Failing (u.thread t) (w.thread t).base (q.slot (w.thread t)) s below object) :
    exists w', Standing t u w' (below ++ [object]) ∧
      pcallWith t q.nargs q.wanted q.handler q.continuation q.context E w = .ok s w' := by
  have hbody : (E.call t (q.slot (w.thread t)) q.wanted false : M Unit) E
      (w.setThread t ((w.thread t).withHandler (handlerSlot q.handler p)).guarding) =
      .error (.error t s₀) u₀ := hcall
  rcases runProtected_of_error hcalling.live hlive hbody hclose with ⟨th, halike, hrun⟩
  have hadjust := returns_adjustResults (u.setThread t th) t q.wanted
  rw [World.thread_setThread hlive, World.setThread_setThread] at hadjust
  refine ⟨u.setThread t (th.reaching q.wanted),
    standing_setThread hlive (halike.trans (Thread.alike_reaching _ _)) h.values_placing, ?_⟩
  refine (pcallWith_shielded hcalling.height hshielded hcalling.place_eq).trans ?_
  exact ok_andThen hrun (hadjust.andThen rfl)

/-- What comes of a turn in which the host function goes on in its continuation, and the machine then
with the `rest`. -/
def Continues (e : Embedding) (q : Request) (t : ThreadId) (s : Status) (rest : M Unit) (w : World)
    (r : Outcome Unit) : Prop :=
  exists E : Engine, r = (do
    let n ← guarded t (e.continuation q.continuation t s q.context)
    finishCall e.host t n
    rest : M Unit) E w

/-- A host function whose protected call has ended at once goes on in its continuation. -/
theorem continues_atOnce {s : Status} {rest : M Unit} {r : Outcome Unit} {vs : List Value}
    (hr : r = (do
      let n ← guarded t (protecting (e.continuation q.continuation) q t)
      finishCall e.host t n
      rest : M Unit) E w)
    (hcall : exists w', Standing t u w' vs ∧
      pcallWith t q.nargs q.wanted q.handler q.continuation q.context E w = .ok s w') :
    exists w', Standing t u w' vs ∧ Continues e q t s rest w' r := by
  rcases hcall with ⟨w', hstanding, hcall⟩
  refine ⟨w', hstanding, E, hr.trans ?_⟩
  exact bind_congr_of_eq (catch_congr (ok_andThen hcall rfl) _) _

/-- A native call that was interrupted goes on in its continuation. -/
theorem continues_pending (e : Embedding) {s s' : Status} {n : Nat} {vs : List Value} {w₁ : World}
    (hpending : Pending (w₁.thread t) (.host q.continuation) s)
    (hcontext : (w₁.thread t).frame.context = q.context)
    (hfinish : finishProtected t E w₁ = .ok s' v) (hstanding : Standing t u v vs) :
    exists w', Standing t u w' vs ∧
      Continues e q t s' (unroll e.host t n) w' (unroll e.host t (n + 1) E w₁) := by
  rcases unroll_pending e.host hpending hfinish n with ⟨th, halike, hunroll⟩
  have hset : Standing t u (v.setThread t th) vs := by
    have hthere := standing_setThread hstanding.live halike hstanding.values_eq
    exact ⟨hthere.live, hstanding.events_eq, hthere.values_eq⟩
  rw [hcontext] at hunroll
  exact ⟨v.setThread t th, hset, E, hunroll⟩

/-- A callee that returns after an interruption leaves its caller pending, which goes on in its
continuation. -/
theorem continues_returned (e : Embedding) (hcalling : Calling w t q p) {below results : List Value}
    (hlive : u.liveThread t = true)
    (hleaving : Leaving (u.thread t) (w.thread t).base (q.slot (w.thread t)) q.wanted below results)
    (hcalls : 3 ≤ (u.thread t).frames.size)
    (hcaller : (u.thread t).popFrame.frame = q.frame (w.thread t) (w.thread t).frame) (n : Nat) :
    exists w' r, Standing t u w' (below ++ adjusted q.wanted results) ∧
      Continues e q t .yield (unroll e.host t n) w' r ∧
      (do
        handOver t results.length
        unroll e.host t (n + 1) : M Unit) E u = r := by
  have hthread := World.thread_setThread hlive ((u.thread t).finished results.length)
  have hframe := (Thread.frame_finished (u.thread t) results.length).trans hcaller
  have hpending : Pending ((u.thread t).finished results.length) (.host q.continuation) .ok := by
    constructor
    case calls =>
      rw [Thread.frames_finished]
      unfold Thread.popFrame
      rw [Array.size_pop]
      omega
    case native =>
      rw [hframe]
      exact hcalling.native
    case protectedCall =>
      rw [hframe]
      rfl
    case continuation =>
      rw [hframe]
      rfl
    case recovering =>
      rw [hframe]
      exact hcalling.settled
  rw [← hthread] at hpending
  have hstanding := standing_setThread hlive
    (Thread.alike_answered ((u.thread t).finished results.length)) hleaving.values_finished
  have hfinish := finishProtected_returned hpending E
  rw [hthread, World.setThread_setThread] at hfinish
  rcases continues_pending e hpending (by rw [hthread, hframe]; rfl) hfinish hstanding with
    ⟨w', hstanding', hcontinues⟩
  exact ⟨w', _, hstanding', hcontinues, ok_andThen (returns_handOver hlive results.length E) rfl⟩

/-- A callee that fails after an interruption has its pending caller recover, which goes on in its
continuation. -/
theorem continues_failed (e : Embedding) (hcalling : Calling w t q p) {s : Status} {u₁ : World}
    {below : List Value} {object : Value} (hcalls : 2 ≤ (u₁.thread t).frames.size)
    (hframe : (u₁.thread t).frame =
      { q.frame (w.thread t) (w.thread t).frame with recovering := s })
    (hs : s.isError = true)
    (hclose : closeFrom t (q.slot (w.thread t)) (some s) true E
      (u₁.setThread t ((u₁.thread t).allowing (w.thread t).hook.allowed)) = .ok () u)
    (hlive : u.liveThread t = true)
    (hfailing : Failing (u.thread t) (w.thread t).base (q.slot (w.thread t)) s below object)
    (n : Nat) :
    exists w', Standing t u w' (below ++ [object]) ∧
      Continues e q t s (unroll e.host t n) w' (unroll e.host t (n + 1) E u₁) := by
  have hpending : Pending (u₁.thread t) (.host q.continuation) s := by
    refine ⟨hcalls, ?_, ?_, ?_, ?_⟩ <;> rw [hframe]
    · exact hcalling.native
    · rfl
    · rfl
  have hslot : (u₁.thread t).frame.protectedSlot = q.slot (w.thread t) := by
    rw [hframe]
    rfl
  have hallowed : (u₁.thread t).frame.hooksAllowed = (w.thread t).hook.allowed := by
    rw [hframe]
    rfl
  rw [← hslot, ← hallowed] at hclose
  rcases finishProtected_failed hlive hpending hs hclose with ⟨th, halike, hfinish⟩
  rw [hslot] at halike
  have hstanding := standing_setThread hlive halike hfailing.values_placing
  exact continues_pending e hpending (by rw [hframe]; rfl) hfinish hstanding

/-- A turn that the protected call does not finish ends where the callee left it. -/
theorem interrupted_turn (hcalling : Calling w t q p) {σ : Stage} {rest : M Unit}
    (hσ : σ.result = (do
      let n ← guarded t (protecting (e.continuation q.continuation) q t)
      finishCall e.host t n
      rest : M Unit) E w)
    {r : Raise} {u₀ : World} (hr : Interrupts t r) (hyieldable : (w.thread t).unyieldable = 0)
    (hcall : E.call t (q.slot (w.thread t)) q.wanted true
      (w.setThread t (asking q (handlerSlot q.handler p) (w.thread t))) = .error r u₀) :
    σ = ⟨σ.fuel, σ.outside, .error r u₀⟩ := by
  have hpcall : pcallWith t q.nargs q.wanted q.handler q.continuation q.context E w =
      .error r u₀ := by
    refine (pcallWith_eq hcalling.height hyieldable hcalling.place_eq).trans ?_
    refine ok_andThen (x := read) (a := E) rfl ?_
    exact bind_of_error hcall _
  have hresult : σ.result = .error r u₀ :=
    hσ.trans (bind_of_error (protecting_interrupted hpcall hr) _)
  rw [← hresult]

/-- However the callee comes to its end, the host function goes on in its continuation, which finds
what stands below the callee and what came of it. -/
theorem Callee.continues {σ σ' : Stage} {rest : M Unit} {prepares : List (M Nat)}
    {interrupted : Bool} {ending : Ending} {below : List Value}
    (hcalling : Calling w t q p)
    (hσ : σ.result = (do
      let n ← guarded t (protecting (e.continuation q.continuation) q t)
      finishCall e.host t n
      rest : M Unit) E w)
    (h : Callee e.host caller E E₀ E₁ t q p w σ prepares interrupted ending below u σ') :
    exists w' r rest', (rest' = rest ∨ exists n, rest' = unroll e.host t n) ∧
      Standing t u w' (below ++ ending.values q.wanted) ∧
      Continues e q t (ending.seen interrupted) rest' w' r ∧
      Course e.host t caller E₀ E₁ prepares σ ⟨σ'.fuel, σ'.outside, r⟩ := by
  -- a callee that ends in the first turn hands over to the continuation at once; otherwise it waits
  -- as a pending call
  cases h with
  | returns hyieldable hcall hlive hleaving =>
      rcases continues_atOnce hσ (pcallWith_returns hcalling hyieldable hcall hlive hleaving) with
        ⟨w', hstanding, hcontinues⟩
      exact ⟨w', σ.result, rest, .inl rfl, hstanding, hcontinues, .done σ⟩
  | returnsShielded hshielded hcall hlive hleaving =>
      rcases continues_atOnce hσ
        (pcallWith_returns_shielded hcalling hshielded hcall hlive hleaving) with
        ⟨w', hstanding, hcontinues⟩
      exact ⟨w', σ.result, rest, .inl rfl, hstanding, hcontinues, .done σ⟩
  | failsShielded hshielded hcall hclose hlive hfailing =>
      rcases continues_atOnce hσ
        (pcallWith_fails_shielded hcalling hshielded hcall hclose hlive hfailing) with
        ⟨w', hstanding, hcontinues⟩
      exact ⟨w', σ.result, rest, .inl rfl, hstanding, hcontinues, .done σ⟩
  | returnsLater hyieldable hr hcall hcourse hlive hleaving hcalls hcaller =>
      rcases continues_returned e hcalling hlive hleaving hcalls hcaller _ with
        ⟨w', r, hstanding, hcontinues, hturn⟩
      refine ⟨w', r, _, .inr ⟨_, rfl⟩, hstanding, hcontinues, ?_⟩
      rw [interrupted_turn hcalling hσ hr hyieldable hcall]
      rw [hturn] at hcourse
      exact hcourse
  | failsLater hyieldable hr hcall hcourse hcalls hframe hs hclose hlive hfailing =>
      rcases continues_failed e hcalling hcalls hframe hs hclose hlive hfailing _ with
        ⟨w', hstanding, hcontinues⟩
      refine ⟨w', _, _, .inr ⟨_, rfl⟩, hstanding, hcontinues, ?_⟩
      rw [interrupted_turn hcalling hσ hr hyieldable hcall]
      exact hcourse

/-- Protected calls that may yield agree with those that do not: however the callee of a host
function's protected call comes to its end, and however often the resumer sees a yield before, the
host function goes on once in its continuation, which is given the context, and finds what stands
below the callee and what came of it. -/
theorem pcallWith_continues {d : Nat} {σ σ' : Stage} {rest : M Unit} {nargs : Nat}
    {prepares : List (M Nat)} {interrupted : Bool} {ending : Ending} {below : List Value} {w₁ : World}
    (hcalling : Calling w t q p)
    (hσ : σ.result = (do
      let n ← guarded t (protecting (e.continuation q.continuation) q t)
      finishCall e.host t n
      rest : M Unit) E w)
    (hcomes : ComesTo e.host t caller nargs (engine e.host d) w₁ σ)
    (hcallee : Callee e.host caller E (engine e.host d) (engine e.host (d + 1)) t q p w σ prepares
      interrupted ending below u σ') :
    exists w' r rest' answers nargs' w₂,
      resumeEach t caller nargs prepares (engine e.host (d + 1)) w₁ = .ok (answers, nargs') w₂ ∧
      answers.length = prepares.length ∧ (forall a, a ∈ answers → a.1 = .yield) ∧
      ComesTo e.host t caller nargs' (engine e.host d) w₂ ⟨σ'.fuel, σ'.outside, r⟩ ∧
      (rest' = rest ∨ exists n, rest' = unroll e.host t n) ∧
      Continues e q t (ending.seen interrupted) rest' w' r ∧
      (w'.thread t).values = below ++ ending.values q.wanted ∧ w'.events = u.events := by
  rcases hcallee.continues hcalling hσ with
    ⟨w', r, rest', hrest, hstanding, hcontinues, hcourse⟩
  rcases hcourse.drive nargs w₁ hcomes with ⟨answers, nargs', w₂, hdrive, hlength, hyields, hlast⟩
  refine ⟨_, r, rest', answers, nargs', w₂, hdrive, hlength, hyields, hlast, hrest, hcontinues,
    hstanding.values_eq, hstanding.events_eq⟩

end Continuation

/-!
# A function that calls its argument
-/

/-- A continuation that notes its status, and returns the whole stack. -/
def noticing : ThreadId → Status → Int → M Nat :=
  noting (fun told => if told.status = .yield then "Yield" else "Ok") fun t _ _ => height t

def query : Request := ⟨1, multipleResults, 0, ⟨0⟩, -7⟩

/-- A host function that calls the last but one of its arguments with the last one. -/
def relaying : Embedding where
  function _ := protecting noticing query
  continuation _ := noticing

/-- A main thread, and a coroutine with the host function and its arguments. -/
def relayingWorld (args : List Value) : World :=
  { heap :=
      { closures := { items := #[some (.native .trampoline #[.light (HostFn.mk 0).address])] }
        threads :=
          { items := #[some Thread.fresh,
              some (args.foldl Thread.push (Thread.fresh.push (.closure ⟨0⟩)))] } } }

/-- What a resumption of the coroutine answers, what it leaves on the stack, and what was noted. -/
def relayed (args : List Value) : Option ((Status × Nat) × List Value × List String) :=
  match resumeThread relaying.host ⟨1⟩ (some ⟨0⟩) args.length (engine relaying.host 3)
      (relayingWorld args) with
  | .ok answer w => some (answer, (w.thread ⟨1⟩).values, w.events)
  | .error _ _ => none

/-- A callee that is never suspended, and succeeds: it catches an error. -/
theorem interrupted_without_yield :
    relayed [.native (.base .pcall), .native (.base .error)] =
      some ((.ok, 2), [.bool false, .nil], ["Yield"]) := by
  decide +kernel

/-- The callee yields the last argument. -/
def yieldArgs : List Value := [.int 9, .native (.coroutine .yield), .int 5]

/-- The world in which the protected call is made. -/
def askedWorld : World := started ⟨1⟩ (some ⟨0⟩) 3 (relayingWorld yieldArgs)

/-- The callee's turn. -/
def calleeTurn : Outcome Unit :=
  (engine relaying.host 1).call ⟨1⟩ (query.slot (askedWorld.thread ⟨1⟩)) multipleResults true
    (askedWorld.setThread ⟨1⟩ (asking query 0 (askedWorld.thread ⟨1⟩)))

def sectionWorld : World :=
  (relayingWorld yieldArgs).setThread ⟨1⟩
    (begun ((relayingWorld yieldArgs).thread ⟨1⟩)
      (callerNesting (some ⟨0⟩) (relayingWorld yieldArgs)))

/-- The resumer takes the value that was yielded, and hands over another one. -/
def resumedWorld : World := after (exchange 4) (backFrom ⟨1⟩ sectionWorld calleeTurn.world)

def nextSection : World :=
  resumedWorld.setThread ⟨1⟩
    (begun (resumedWorld.thread ⟨1⟩) (callerNesting (some ⟨0⟩) resumedWorld))

def goneOn : World := nextSection.setThread ⟨1⟩ (nextSection.thread ⟨1⟩).guarding

/-- The world in which the callee returns. -/
def answeredWorld : World := goneOn.setThread ⟨1⟩ { goneOn.thread ⟨1⟩ with status := .ok }

theorem fresh_relayingWorld :
    Suspending.Fresh (relayingWorld yieldArgs) ⟨1⟩ (HostFn.mk 0).address yieldArgs :=
  ⟨rfl, rfl, ⟨⟨0⟩, _, rfl, rfl, rfl⟩, Or.inr ⟨by decide, by decide⟩, rfl⟩

theorem calleeTurn_yields : calleeTurn = .error (.yield ⟨1⟩) calleeTurn.world :=
  error_of_raise? (by decide +kernel)

theorem calling_askedWorld : exists p, Calling askedWorld ⟨1⟩ query p :=
  ⟨_, by decide, by decide, by decide, by decide, by decide, fun _ => rfl⟩

theorem exchange_resumedWorld (E : Engine) :
    exchange 4 E (backFrom ⟨1⟩ sectionWorld calleeTurn.world) = .ok 1 resumedWorld := by
  rfl

theorem leaving_answeredWorld :
    Leaving (answeredWorld.thread ⟨1⟩) (askedWorld.thread ⟨1⟩).base
      (query.slot (askedWorld.thread ⟨1⟩)) query.wanted [.int 9] [.int 4] := by
  constructor <;> decide

theorem callee_relayingWorld (p : Place) :
    exists σ', Callee relaying.host (some ⟨0⟩) (engine relaying.host 1) (engine relaying.host 1)
      (engine relaying.host 2) ⟨1⟩ query p askedWorld
      ⟨budget, sectionWorld, (do
        let n ← guarded ⟨1⟩ (protecting noticing query ⟨1⟩)
        finishCall relaying.host ⟨1⟩ n
        pure () : M Unit) (engine relaying.host 1) askedWorld⟩
      [exchange 4] true (.returns [.int 4]) [.int 9] answeredWorld σ' := by
  have hlast : (firstStage relaying.host ⟨1⟩ (some ⟨0⟩) 1 (engine relaying.host 1) resumedWorld) =
      ⟨budget, nextSection, (do
        handOver ⟨1⟩ 1
        unroll relaying.host ⟨1⟩ budget : M Unit) (engine relaying.host 1) answeredWorld⟩ := by
    have hplain : continueThread relaying.host ⟨1⟩ 1 (engine relaying.host 1) goneOn = _ :=
      continueThread_plain (by decide +kernel) (by decide +kernel) (by decide +kernel)
        (by decide +kernel) (by decide +kernel)
    unfold firstStage Stage.ofBody
    exact congrArg (Stage.mk budget nextSection) hplain
  have hcourse : Course relaying.host ⟨1⟩ (some ⟨0⟩) (engine relaying.host 1)
      (engine relaying.host 2) [exchange 4]
      ⟨(budget - 1) + 1, sectionWorld, .error (.yield ⟨1⟩) calleeTurn.world⟩ _ :=
    .yields (by decide +kernel) (exchange_resumedWorld _) (by decide +kernel) (by decide +kernel)
      (by decide +kernel) (.done _)
  rw [hlast] at hcourse
  exact ⟨_, .returnsLater (n := budget - 1) (by decide +kernel) .yield calleeTurn_yields hcourse
    (by decide +kernel) leaving_answeredWorld (by decide +kernel) rfl⟩

theorem pcallWith_continues_relaying :
    exists w' r rest answers nargs' w₂ fuel v,
      resumeEach ⟨1⟩ (some ⟨0⟩) 3 [exchange 4] (engine relaying.host 2)
        (relayingWorld yieldArgs) = .ok (answers, nargs') w₂ ∧
      answers.length = 1 ∧ (forall a, a ∈ answers → a.1 = .yield) ∧
      ComesTo relaying.host ⟨1⟩ (some ⟨0⟩) nargs' (engine relaying.host 1) w₂ ⟨fuel, v, r⟩ ∧
      Continues relaying query ⟨1⟩ .yield rest w' r ∧
      (w'.thread ⟨1⟩).values = [.int 9, .int 4] ∧ w'.events = [] := by
  have hcomes : ComesTo relaying.host ⟨1⟩ (some ⟨0⟩) yieldArgs.length (engine relaying.host 1)
      (relayingWorld yieldArgs) _ :=
    Suspending.comesTo_fresh rfl fresh_relayingWorld (by decide)
  rcases calling_askedWorld with ⟨p, hcalling⟩
  rcases callee_relayingWorld p with ⟨σ', hcallee⟩
  rcases pcallWith_continues hcalling rfl hcomes hcallee with
    ⟨w', r, rest, answers, nargs', w₂, hdrive, hlength, hyields, hlast, _, hcontinues, hvalues,
      hnotes⟩
  exact ⟨w', r, rest, answers, nargs', w₂, σ'.fuel, σ'.outside, hdrive, hlength, hyields, hlast,
    hcontinues, hvalues, hnotes⟩

end Protecting

end LuaHost
