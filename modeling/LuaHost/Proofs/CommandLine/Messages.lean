import LuaHost.Proofs.CommandLine.Chunks

/-!
# Texts of runtime errors

A runtime error calls the message handler with the error object.  The handler
returns a text, and the error leaves with that text in the place of its object.
-/

namespace LuaHost

namespace CommandLine

open Machine World
open Interface (pushTraceback standIn)

section Handling

variable {t : ThreadId} {d : Nat} {w v : World} {x : Value} {c : ClosureId} {E : Engine}

/-- The message handler ends with a text on top of the stack, its only result. -/
theorem handleMessage_ok {n : Nat} (hlive : v.liveThread t = true)
    (h : handleMessage t E w = .ok n v) :
    n = 1 ∧ exists text, (v.thread t).slot ((v.thread t).top - 1) = .str text := by
  rcases ok_bind h with ⟨message, w₁, _, h⟩
  rcases ok_bind h with ⟨_, w₂, htrace, h⟩
  cases h
  rcases ok_bind htrace with ⟨_, w₃, _, htrace⟩
  rcases ok_bind htrace with ⟨text, w₄, _, hpush⟩
  rcases (returns_push w₄ t (.str text)).ok_eq hpush with ⟨_, rfl⟩
  have hlive' : w₄.liveThread t = true := (World.liveThread_setThread w₄ t t _).symm.trans hlive
  refine ⟨rfl, text, ?_⟩
  rw [World.thread_setThread hlive']
  exact (Thread.slot_push _ _ _).trans (if_pos rfl)

/-- The world in which the message handler runs for an error of the world `w`. -/
def handlerWorld (t : ThreadId) (w : World) : World :=
  w.setThread t (((Containing.handing (w.thread t)).nested false).entering ((w.thread t).top - 1) 1)

/-- An error can be handed to the message handler: there is room for one more call, and no hook that
is told of it. -/
structure Handing (t : ThreadId) (c : ClosureId) (w : World) : Prop where
  live : w.liveThread t = true
  handled : (w.thread t).handler ≠ 0
  object : (w.thread t).handler < (w.thread t).top - 1
  slot_eq : (w.thread t).slot (w.thread t).handler = .closure c
  closure_eq : w.heap.closures.get c.index = standIn messageHandler
  shallow : (w.thread t).nesting + 1 < maxNesting
  ready : (Containing.handing (w.thread t)).Ready minStack
  quiet : (w.thread t).hook.onCall = false

/-- The message handler, called for an error of the world `w`, returns `x` in the world `v`. -/
structure Answers (t : ThreadId) (d : Nat) (w : World) (x : Value) (v : World) : Prop where
  outcome : exists n, handleMessage t (engine embedding.host d) (handlerWorld t w) = .ok n v
  live : v.liveThread t = true
  guards : 0 < (v.thread t).guards
  quiet : (v.thread t).hook.onReturn = false
  leaving : exists base below,
    Protecting.Leaving (v.thread t) base ((w.thread t).top - 1) 1 below [x]

theorem finished_one {th : Thread} {base i : Nat} {below : List Value}
    (h : Protecting.Leaving th base i 1 below [x]) :
    (th.finished 1).top = i + 1 ∧ (th.finished 1).slot i = x ∧
      (th.finished 1).guards = th.guards := by
  have hslots : [th.slot (th.top - 1)] = [x] := h.results_eq
  have hmoved : th.finished 1 = ((th.setSlot i x).withTop (i + 1)).popFrame := by
    unfold Thread.finished
    rw [h.func_eq, h.wanted_eq, ← List.head_eq_of_cons_eq hslots]
    rfl
  rw [hmoved]
  exact ⟨rfl, (Thread.slot_setSlot th i i x).trans (if_pos rfl), Thread.guards_setSlot th i x⟩

theorem handing_eq (th : Thread) :
    exists stack, Containing.handing th = { th with stack, top := th.top - 1 + 2 } := by
  unfold Containing.handing
  rcases Thread.push_eq (th.drop 1) ((th.drop 1).slot th.handler) with ⟨stack, hfirst⟩
  rw [hfirst]
  exact Thread.push_eq _ _

theorem slot_handing (h : Handing t c w) :
    (Containing.handing (w.thread t)).slot ((w.thread t).top - 1) = .closure c := by
  have hobject := h.object
  have hplace : ((w.thread t).drop 1).top = (w.thread t).top - 1 := rfl
  unfold Containing.handing
  rw [Thread.slot_push, Thread.top_push, hplace, if_neg (by omega), Thread.slot_push, hplace,
    if_pos rfl]
  exact h.slot_eq

/-- The text that the message handler returns gets to the place where the error object was. -/
theorem call_messageHandler (h : Handing t c w) (hanswers : Answers t d w x v) :
    exists u, (engine embedding.host (d + 1)).call t ((w.thread t).top - 1) 1 false
        (w.setThread t (Containing.handing (w.thread t))) = .ok () u ∧
      u.liveThread t = true ∧ 0 < (u.thread t).guards ∧ (u.thread t).top = (w.thread t).top ∧
      (u.thread t).slot ((w.thread t).top - 1) = x := by
  have hobject := h.object
  have hthread := World.thread_setThread h.live (Containing.handing (w.thread t))
  have hlive : (w.setThread t (Containing.handing (w.thread t))).liveThread t = true :=
    (World.liveThread_setThread w t t _).trans h.live
  -- the trampoline of the handler runs one level deeper, in a call of its own
  have hcall : exists y, y = (engine embedding.host (d + 1)).call t ((w.thread t).top - 1) 1 false
      (w.setThread t (Containing.handing (w.thread t))) ∧ y = (do
        let n ← embedding.host.native .trampoline t
        finishCall embedding.host t n
        leaveNesting t false : M Unit) (engine embedding.host d) (handlerWorld t w) := by
    rcases handing_eq (w.thread t) with ⟨stack, hhanding⟩
    have hslot : ((w.setThread t (Containing.handing (w.thread t))).thread t).slot
        ((w.thread t).top - 1) = .closure c := by
      rw [hthread]
      exact slot_handing h
    have hrun : callFunction embedding.host t ((w.thread t).top - 1) 1 false
        (engine embedding.host d) (w.setThread t (Containing.handing (w.thread t))) = _ :=
      callFunction_native hlive hslot h.closure_eq (by rw [hthread, hhanding]; exact h.shallow)
        (by rw [hthread]; exact h.ready) (by rw [hthread, hhanding]; exact h.quiet) 1 false
    rw [hthread, World.setThread_setThread] at hrun
    exact ⟨_, rfl, hrun⟩
  rcases hanswers.outcome with ⟨n, houtcome⟩
  rcases handleMessage_ok hanswers.live houtcome with ⟨rfl, _⟩
  have hnative : embedding.host.native .trampoline t (engine embedding.host d) (handlerWorld t w) =
      .ok 1 v := by
    have hthread' : (handlerWorld t w).thread t =
        ((Containing.handing (w.thread t)).nested false).entering ((w.thread t).top - 1) 1 :=
      World.thread_setThread h.live _
    have hfunction : ((handlerWorld t w).thread t).slot ((handlerWorld t w).thread t).frame.func =
        .closure c := by
      rw [hthread', Thread.slot_entering]
      unfold Thread.entering
      rw [Thread.frame_pushFrame]
      exact slot_handing h
    have htrampoline : Interface.trampoline embedding.function t (engine embedding.host d)
        (handlerWorld t w) = _ := Suspending.trampoline_eq hfunction h.closure_eq rfl
    exact htrampoline.trans (Suspending.guarded_of_ok houtcome)
  -- the end of that call moves its only result into the place of the function
  rcases hanswers.leaving with ⟨base, below, hleaving⟩
  rcases returns_finishCall embedding.host hanswers.live hanswers.quiet 1 with ⟨lastPc, hfinish⟩
  have hleaving' : Protecting.Leaving { v.thread t with lastPc } base ((w.thread t).top - 1) 1 below
      [x] :=
    ⟨hleaving.func_eq, hleaving.wanted_eq, hleaving.caller, hleaving.base_le, hleaving.within,
      hleaving.below_eq, hleaving.results_eq⟩
  rcases finished_one hleaving' with ⟨htop, hslot, hguards⟩
  generalize { v.thread t with lastPc }.finished 1 = th at hfinish htop hslot hguards
  have hlive' := (World.liveThread_setThread v t t th).trans hanswers.live
  rcases hcall with ⟨y, rfl, hcall⟩
  refine ⟨_, hcall.trans (ok_andThen hnative (hfinish.andThen
    (returns_modifyThread _ t _ (engine embedding.host d)))),
    (World.liveThread_setThread _ t t _).trans hlive', ?_, ?_, ?_⟩
  · rw [World.thread_setThread hlive', World.thread_setThread hanswers.live]
    exact Nat.lt_of_lt_of_eq hanswers.guards hguards.symm
  · rw [World.thread_setThread hlive', World.thread_setThread hanswers.live]
    show th.top = _
    omega
  · rw [World.thread_setThread hlive', World.thread_setThread hanswers.live]
    exact hslot

/-- A runtime error leaves with the text that the message handler returns. -/
theorem throwTop_answered {α : Type} (h : Handing t c w) (hanswers : Answers t d w x v) :
    exists text u, x = .str text ∧
      throwTop (α := α) t (engine embedding.host (d + 1)) w = .error (.error t .errRun) u ∧
      (u.thread t).errorObject .errRun = .str text := by
  have htext : exists text, x = .str text := by
    rcases hanswers.outcome with ⟨n, houtcome⟩
    rcases handleMessage_ok hanswers.live houtcome with ⟨_, text, htext⟩
    rcases hanswers.leaving with ⟨base, below, hleaving⟩
    have hresult : [(v.thread t).slot ((v.thread t).top - 1)] = [x] := hleaving.results_eq
    exact ⟨text, (List.head_eq_of_cons_eq hresult).symm.trans htext⟩
  rcases htext with ⟨text, rfl⟩
  rcases call_messageHandler h hanswers with ⟨u, hcall, _, hguards, htop, hslot⟩
  refine ⟨text, u, rfl, ?_, ?_⟩
  · refine (Containing.throwTop_eq h.live h.handled hcall).trans ?_
    exact Containing.throwStatus_of_protected hguards .errRun
  · show (u.thread t).slot ((u.thread t).top - 1) = _
    rw [htop]
    exact hslot

end Handling

/-!
# The stack around calls and chunks
-/

/-- A call with tracebacks keeps what stands below the function, and so does a chunk that is run, as
long as the calls made on the way put their results in place and leave alone what lies below.  The
error object of a runtime error is what the message handler returns. -/
theorem calls_keep_stack {t : ThreadId} {base : Nat} {us : List Value} {w : World} (E : Engine)
    (h : w.Stands t base us) :
    (forall below f args wanted, us = below ++ f :: args →
      callTraced t args.length wanted E.sparing w = callTraced t args.length wanted E w →
      ((w.thread t).top + 2 ≤ (w.thread t).limit →
        exists w₁, Prepared t base below f args w w₁ ∧
          Completes E.sparing t base below (base + below.length + 1) wanted w₁
            (E.sparing.call t (base + below.length + 1) wanted false
              (shieldedWorld t (base + below.length) w₁))
            (callTraced t args.length wanted E w)) ∧
      ((w.thread t).limit < (w.thread t).top + 2 →
        forall s w', callTraced t args.length wanted E w ≠ .ok s w')) ∧
    (forall chunk name, runChunk t chunk name E.sparing w = runChunk t chunk name E w →
      Runs t base us chunk name E.sparing w (runChunk t chunk name E w)) ∧
    (forall u c d x v, Handing t c u → Answers t d u x v →
      exists text u', x = .str text ∧
        throwTop (α := Unit) t (engine embedding.host (d + 1)) u = .error (.error t .errRun) u' ∧
        (u'.thread t).errorObject .errRun = .str text) := by
  refine ⟨?_, ?_, ?_⟩
  · intro below f args wanted hus hsame
    rw [hus] at h
    refine ⟨fun hroom => ?_, fun hfull s w' => callTraced_full h.live hfull args.length wanted⟩
    rw [← hsame]
    exact callTraced_completes E.sparing_sparing h hroom wanted
  · intro chunk name hsame
    rw [← hsame]
    exact runChunk_runs E.sparing_sparing h chunk name
  · intro u c d x v hhanding hanswers
    exact throwTop_answered hhanding hanswers

/-- A machine whose host has a value, and above it the function that raises an error and a text. -/
def failingWorld : World :=
  Interface.freshWorld.setThread ⟨0⟩ ((((Interface.freshWorld.thread ⟨0⟩).push (.int 5)).push
    (.native (.base .error))).push (.ofText "boom"))

/-- A machine with a message handler, and a text as the object of an error. -/
def raisingWorld : World where
  heap :=
    { closures := { items := #[some (standIn messageHandler)] }
      threads := { items := #[some
        { (Thread.fresh.push (.closure ⟨0⟩)).push (.ofText "boom") with handler := 1, guards := 1 }] } }

theorem handing_raisingWorld : Handing ⟨0⟩ ⟨0⟩ raisingWorld := by
  refine ⟨?_, ?_, ?_, ?_, rfl, ?_, Or.inr ⟨?_, ?_⟩, ?_⟩ <;> decide +kernel

theorem answers_raisingWorld :
    exists v, Answers ⟨0⟩ 0 raisingWorld (.ofText "boom\nstack traceback:") v := by
  have hreturns : (Outcome.answer? (handleMessage ⟨0⟩ (engine embedding.host 0)
      (handlerWorld ⟨0⟩ raisingWorld))).isSome = true := by
    decide +kernel
  have hlook : forall v, v = Outcome.world (handleMessage ⟨0⟩ (engine embedding.host 0)
        (handlerWorld ⟨0⟩ raisingWorld)) →
      (v.liveThread ⟨0⟩ = true ∧ 0 < (v.thread ⟨0⟩).guards ∧
        (v.thread ⟨0⟩).hook.onReturn = false) ∧ (v.thread ⟨0⟩).frame.func = 2 ∧
      (v.thread ⟨0⟩).frame.wanted = 1 ∧ (v.thread ⟨0⟩).popFrame.base ≤ 2 ∧
      3 ≤ (v.thread ⟨0⟩).top ∧
      (v.thread ⟨0⟩).slot ((v.thread ⟨0⟩).top - 1) = .ofText "boom\nstack traceback:" := by
    rintro v rfl
    decide +kernel
  rcases Option.isSome_iff_exists.mp hreturns with ⟨n, hn⟩
  rcases hlook _ rfl with ⟨⟨hlive, hguards, hquiet⟩, hfunc, hwanted, hbase, htop, htext⟩
  refine ⟨_, ⟨n, ok_of_answer? hn⟩, hlive, hguards, hquiet, _, _, hfunc, hwanted,
    rfl, hbase, htop, rfl, ?_⟩
  rw [← htext]
  rfl

theorem calls_keep_stack_failing :
    (exists s x w', callTraced ⟨0⟩ 1 multipleResults (engine embedding.host 6).sparing failingWorld =
        .ok s w' ∧ s.isError = true ∧ w'.Stands ⟨0⟩ 1 [.int 5, x]) ∧
      (exists a w', runChunk ⟨0⟩ "return 1".toUTF8 "=chunk" (engine embedding.host 6).sparing
        failingWorld = .ok a w' ∧ w'.Stands ⟨0⟩ 1 [.int 5, .native (.base .error), .ofText "boom"]) ∧
      exists u, throwTop (α := Unit) ⟨0⟩ (engine embedding.host 1) raisingWorld =
          .error (.error ⟨0⟩ .errRun) u ∧
        (u.thread ⟨0⟩).errorObject .errRun = .ofText "boom\nstack traceback:" := by
  have hstands : failingWorld.Stands ⟨0⟩ 1
      ([.int 5] ++ .native (.base .error) :: [.ofText "boom"]) :=
    stands_values (by decide +kernel) (by decide +kernel)
  have hfails : Outcome.answer? (callTraced ⟨0⟩ 1 multipleResults (engine embedding.host 6).sparing
      failingWorld) = some .errRun := by
    decide +kernel
  have hreturns : (Outcome.answer? (runChunk ⟨0⟩ "return 1".toUTF8 "=chunk"
      (engine embedding.host 6).sparing failingWorld)).isSome = true := by
    decide +kernel
  have hagain := (Engine.sparing_sparing (engine embedding.host 6)).sparing_eq
  rcases calls_keep_stack (engine embedding.host 6).sparing hstands with ⟨htraced, hruns, htext⟩
  refine ⟨?_, ?_, ?_⟩
  · rcases (htraced _ _ [.ofText "boom"] multipleResults rfl (by rw [hagain])).1 (by decide +kernel) with
      ⟨w₁, _, hcompletes⟩
    have hrun := ok_of_answer? hfails
    rcases Completes.ends (hrun ▸ hcompletes) with ⟨hok, _⟩ | ⟨x, hs, hobject⟩
    · cases hok
    · exact ⟨_, x, _, hrun, hs, hobject⟩
  · rcases Option.isSome_iff_exists.mp hreturns with ⟨a, ha⟩
    have hrun := ok_of_answer? ha
    have hchunk := hruns "return 1".toUTF8 "=chunk" (by rw [hagain])
    exact ⟨a, _, hrun, Runs.stands (hrun ▸ hchunk)⟩
  · rcases answers_raisingWorld with ⟨v, hanswers⟩
    rcases htext raisingWorld ⟨0⟩ 0 _ v handing_raisingWorld hanswers with
      ⟨text, u, hx, hthrow, hobject⟩
    exact ⟨u, hthrow, hobject.trans hx.symm⟩

end CommandLine

end LuaHost
