import LuaHost.Interface.Embedding
import LuaHost.Interface.Execution
import LuaHost.Proofs.Machine.Turns

/-!
# Chains of continuations

A host function that runs in a coroutine yields values and names the
continuation that goes on for it, and the continuation may do the same.  The
resumer sees one turn after the other, and at last the results.  Each turn
calls the continuation once, on the values that the host code had left and
those that it is resumed with.
-/

namespace LuaHost

namespace Suspending

open Machine
open Interface (yieldWith guarded)

/-!
# What a continuation is told
-/

/-- What a continuation finds when it is called. -/
structure Told where
  thread : ThreadId
  status : Status
  context : Int
  values : List Value

/-- A continuation that notes what it is told. -/
def noting (mark : Told → String) (K : ThreadId → Status → Int → M Nat) (t : ThreadId)
    (s : Status) (context : Int) : M Nat := do
  let th ← thread t
  recordEvent (mark ⟨t, s, context, th.values⟩)
  K t s context

/-- The notes among the events, the first one first. -/
def notes (isNote : String → Bool) (w : World) : List String := (w.events.filter isNote).reverse

/-- The world with one more event. -/
def noted (w : World) (s : String) : World := { w with events := s :: w.events }

theorem notes_noted {isNote : String → Bool} {s : String} (h : isNote s = true) (w : World) :
    notes isNote (noted w s) = notes isNote w ++ [s] := by
  unfold notes noted
  rw [List.filter_cons_of_pos h, List.reverse_cons]

theorem returns_noting (mark : Told → String) (K : ThreadId → Status → Int → M Nat)
    (t : ThreadId) (s : Status) (context : Int) (E : Engine) (w : World) :
    noting mark K t s context E w =
      K t s context E (noted w (mark ⟨t, s, context, (w.thread t).values⟩)) := by
  refine (returns_thread w t).andThen ?_
  exact (returns_modify (noted · (mark ⟨t, s, context, (w.thread t).values⟩)) w).andThen rfl

/-!
# Threads that run and threads that wait
-/

/-- A coroutine whose one call is that of a native function, with these values. -/
structure Running (th : Thread) (vs : List Value) : Prop where
  calls : th.frames.size = 2
  bottom : th.previousFrame.func = 0
  native : th.frame.isScript = false
  func_eq : th.frame.func = 1
  wanted_eq : th.frame.wanted = multipleResults
  values_eq : th.values = vs
  within : th.base ≤ th.top
  yieldable : th.unyieldable = 0

/-- A coroutine that has yielded, with these values, and goes on in `k`. -/
structure Waiting (th : Thread) (k : HostContinuation) (context : Int) (vs : List Value) :
    Prop where
  status : th.status = .yield
  native : th.frame.isScript = false
  continuation : th.frame.continuation = some (.host k)
  context_eq : th.frame.context = context
  values_eq : th.values = vs

/-- A coroutine that has yet to begin: the host function at an address below its
arguments. -/
structure Fresh (w : World) (t : ThreadId) (p : UInt64) (args : List Value) : Prop where
  status : (w.thread t).status = .ok
  calls : (w.thread t).frames.size = 1
  function : exists c ups, (w.thread t).values = .closure c :: args ∧
    w.heap.closures.get c.index = .native .trampoline ups ∧ ups[0]? = some (.light p)
  ready : (w.thread t).Ready minStack
  quiet : (w.thread t).hook.onCall = false

/-!
# Worlds along a chain
-/

/-- The world in which the function of a coroutine is entered. -/
def started (t : ThreadId) (caller : Option ThreadId) (nargs : Nat) (w : World) : World :=
  w.setThread t ((begun (w.thread t) (callerNesting caller w)).guarding.entering
    ((w.thread t).top - nargs - 1) multipleResults)

/-- The world in which a continuation is called. -/
def resumed (t : ThreadId) (caller : Option ThreadId) (w : World) : World :=
  w.setThread t { (begun (w.thread t) (callerNesting caller w)).guarding with status := .ok }

/-- A thread in the moment of its yield. -/
def yielding (th : Thread) (n : Nat) (k : HostContinuation) (context : Int) : Thread :=
  { th.modifyFrame fun f => { f with yieldCount := n, continuation := some (.host k), context }
    with status := .yield }

/-- The world that the resumer finds behind a yield; `w` is the one in which the
turn began. -/
def suspended (t : ThreadId) (n : Nat) (k : HostContinuation) (context : Int) (w w' : World) :
    World :=
  w'.setThread t ((yielding (w'.thread t) n k context).nestedAs
    { w.thread t with guards := (w.thread t).guards - 1 })

/-!
# Chains
-/

/-- One turn that ends with a yield, and what is handed over to the next. -/
structure Turn where
  kept : List Value
  yielded : List Value
  context : Int
  given : List Value

/-- Host code that runs in a coroutine, turn after turn: `Chain e mark .. run w prepares turns results`
says that `run`, begun in the world `w`, yields as `turns` tell, resumed each time after the
resumer's `prepares`, and returns `results` at last. -/
inductive Chain (e : Embedding) (mark : Told → String) (isNote : String → Bool)
    (k : HostContinuation) (K : ThreadId → Status → Int → M Nat) (t : ThreadId)
    (caller : Option ThreadId) (d : Nat) :
    M Nat → World → List (M Nat) → List Turn → List Value → Prop where
  | returns {run : M Nat} {w w' : World} {kept results : List Value} :
      run (engine e.host d) w = .ok results.length w' →
      w'.liveThread t = true → Running (w'.thread t) (kept ++ results) →
      (w'.thread t).hook.onReturn = false → notes isNote w' = notes isNote w →
      Chain e mark isNote k K t caller d run w [] [] results
  | yields {run : M Nat} {w w' w'' : World} {turn : Turn} {prepare : M Nat}
      {prepares : List (M Nat)} {turns : List Turn} {results : List Value} :
      run (engine e.host d) w =
        yieldWith t turn.yielded.length (some k) turn.context (engine e.host d) w' →
      w'.liveThread t = true → Running (w'.thread t) (turn.kept ++ turn.yielded) →
      notes isNote w' = notes isNote w →
      prepare (engine e.host (d + 1))
        (suspended t turn.yielded.length k turn.context w w') = .ok turn.given.length w'' →
      w''.liveThread t = true → Waiting (w''.thread t) k turn.context (turn.kept ++ turn.given) →
      notes isNote w'' = notes isNote w' → callerNesting caller w'' < maxNesting →
      Chain e mark isNote k K t caller d (K t .yield turn.context)
        (noted (resumed t caller w'')
          (mark ⟨t, .yield, turn.context, turn.kept ++ turn.given⟩)) prepares turns results →
      Chain e mark isNote k K t caller d run w (prepare :: prepares) (turn :: turns) results

/-- What a resumption answers: the status, the number of values, and that many
values from the top of the stack. -/
abbrev Answer := Status × Nat × List Value

def Turn.answer (turn : Turn) : Answer := (.yield, turn.yielded.length, turn.yielded)

def Turn.told (t : ThreadId) (turn : Turn) : Told :=
  ⟨t, .yield, turn.context, turn.kept ++ turn.given⟩

/-- Prepares the stack of a coroutine and resumes it, again and again. -/
def drive (t : ThreadId) (caller : Option ThreadId) : List (M Nat) → M (List Answer)
  | [] => return []
  | prepare :: prepares => do
    let nargs ← prepare
    let (s, n) ← Interface.resume t caller nargs
    let th ← thread t
    let answers ← drive t caller prepares
    return (s, n, th.slots (th.top - n) n) :: answers

/-!
# Yields
-/

theorem yieldWith_eq {w : World} {t : ThreadId} (hlive : w.liveThread t = true)
    (hnative : (w.thread t).frame.isScript = false) (hyieldable : (w.thread t).unyieldable = 0)
    (n : Nat) (k : HostContinuation) (context : Int) (E : Engine) :
    yieldWith (α := Nat) t n (some k) context E w =
      .error (.yield t) (w.setThread t (yielding (w.thread t) n k context)) := by
  have hmark : Returns (modifyThread t fun th =>
      { th.modifyFrame fun f => { f with yieldCount := n } with status := .yield }) w ()
      (w.setThread t { (w.thread t).modifyFrame fun f => { f with yieldCount := n }
        with status := .yield }) := returns_modifyThread w t _
  have hname := returns_modifyThread (w.setThread t
    { (w.thread t).modifyFrame fun f => { f with yieldCount := n } with status := .yield }) t
    (·.modifyFrame fun f => { f with continuation := some (.host k), context })
  rw [World.thread_setThread hlive, World.setThread_setThread] at hname
  have hmerged : Thread.modifyFrame { (w.thread t).modifyFrame fun f => { f with yieldCount := n }
      with status := .yield } (fun f => { f with continuation := some (.host k), context }) =
      yielding (w.thread t) n k context :=
    congrArg (fun th : Thread => { th with status := .yield })
      (Thread.modifyFrame_modifyFrame (w.thread t) (fun f => { f with yieldCount := n })
        (fun f => { f with continuation := some (.host k), context }))
  rw [hmerged] at hname
  have hmay : Returns (yieldable t) w true w := by
    refine Returns.bind (returns_thread w t) ?_
    rw [hyieldable]
    exact Returns.pure _ w
  refine bind_of_error ?_ _
  refine hmay.andThen ?_
  refine (returns_frame w t).andThen ?_
  refine hmark.andThen ?_
  refine (run_congr (if_neg (by rw [hnative]; exact Bool.false_ne_true))).trans ?_
  exact hname.andThen rfl

/-!
# Values that are handed over
-/

theorem values_finished {th : Thread} {kept results : List Value}
    (h : Running th (kept ++ results)) :
    (th.finished results.length).frames.size = 1 ∧
      (th.finished results.length).height = results.length ∧
      (th.finished results.length).slots ((th.finished results.length).top - results.length)
        results.length = results := by
  rcases Thread.slots_top h.values_eq h.within with ⟨hcount, hslots⟩
  have hdown : th.finished results.length =
      ((th.moveSlots (th.top - results.length) 1 results.length).withTop
        (1 + results.length)).popFrame := by
    unfold Thread.finished Thread.movedDown
    rw [h.func_eq, h.wanted_eq, if_pos (by decide)]
  -- the call that is left is the one at the bottom, and its values begin where the function was
  have hplace : (th.finished results.length).base = 1 := by
    unfold Thread.base
    rw [Thread.frame_finished, Thread.frame_popFrame (Nat.le_of_eq h.calls.symm), h.bottom]
  have htop : (th.finished results.length).top = 1 + results.length := by
    rw [hdown]
    rfl
  have hheight : (th.finished results.length).height = results.length := by
    unfold Thread.height
    rw [hplace, htop]
    omega
  have hcalls : (th.finished results.length).frames.size = 1 := by
    rw [Thread.frames_finished]
    unfold Thread.popFrame
    rw [Array.size_pop, h.calls]
  refine ⟨hcalls, hheight, ?_⟩
  rw [htop, Nat.add_sub_cancel]
  refine Eq.trans ?_ hslots
  apply List.map_congr_left
  intro i hi
  rw [hdown]
  show (th.moveSlots _ _ _).slot (1 + i) = _
  have hbegin : th.base = 2 := by
    unfold Thread.base
    rw [h.func_eq]
  have hbelow : 1 ≤ th.top - results.length := by
    have hwithin := h.within
    unfold Thread.height at hcount
    omega
  rw [Thread.slot_moveSlots_down th hbelow,
    if_pos ⟨Nat.le_add_right 1 i, Nat.add_lt_add_left (List.mem_range.mp hi) 1⟩,
    Nat.add_sub_cancel_left]

/-!
# Turns
-/

section Turns

variable {e : Embedding} {t : ThreadId} {caller : Option ThreadId} {d : Nat}

/-- Host code that is called returns what it returns by itself. -/
theorem guarded_of_ok {run : M Nat} {E : Engine} {w w' : World} {n : Nat}
    (h : run E w = .ok n w') : guarded t run E w = .ok n w' :=
  catch_of_ok h

theorem guarded_of_yield {run : M Nat} {E : Engine} {w w' : World} {t' : ThreadId}
    (h : run E w = .error (.yield t') w') : guarded t run E w = .error (.yield t') w' :=
  catch_of_error h rfl

theorem trampoline_eq {run : HostFn → ThreadId → M Nat} {E : Engine} {w : World} {c : ClosureId}
    {ups : Array Value} {p : UInt64} (hslot : (w.thread t).slot (w.thread t).frame.func = .closure c)
    (hclosure : w.heap.closures.get c.index = .native .trampoline ups)
    (hp : ups[0]? = some (.light p)) :
    Interface.trampoline run t E w = guarded t (run (HostFn.ofAddress p) t) E w := by
  have hsize : 1 ≤ ups.size := (Array.getElem?_eq_some_iff.mp hp).1
  have hfirst : ups.getD 0 .nil = .light p := by
    rw [Array.getD_eq_getD_getElem?, hp]
    rfl
  have hkind : Returns (closure c) w (.native .trampoline ups) w := by
    rw [← hclosure]
    exact fun _ => rfl
  have hplace : Returns (place t (upvalueIndex 1)) w (.upvalue c 0) w := by
    refine Returns.bind (returns_thread w t) ?_
    rw [if_neg (by decide), if_neg (by decide), if_neg (by decide)]
    dsimp only
    rw [hslot]
    refine Returns.bind hkind ?_
    dsimp only
    rw [if_pos (by exact hsize)]
    exact Returns.pure _ w
  have hvalue : Returns (value t (upvalueIndex 1)) w (.light p) w := by
    refine Returns.bind hplace (Returns.bind hkind ?_)
    dsimp only
    rw [hfirst]
    exact Returns.pure _ w
  exact hvalue.andThen rfl

/-- In the world `w₁` a resumption runs `run`, as the one call of the coroutine, in the world
`w`. -/
inductive Enters (e : Embedding) (t : ThreadId) (caller : Option ThreadId) (d nargs : Nat)
    (w₁ : World) (run : M Nat) (w : World) : Prop where
  | intro (v : World) (rest : M Unit) :
      ComesTo e.host t caller nargs (engine e.host d) w₁ ⟨budget, v, (do
        let n ← guarded t run
        finishCall e.host t n
        rest : M Unit) (engine e.host d) w⟩ →
      (forall w', w'.liveThread t = true → (w'.thread t).frames.size = 1 →
        Returns rest w' () w') →
      ((w.thread t).nesting = (v.thread t).nesting ∧
        (w.thread t).unyieldable = (v.thread t).unyieldable ∧
        (w.thread t).guards = (v.thread t).guards + 1) →
      Enters e t caller d nargs w₁ run w

theorem Fresh.function_slot {w : World} {p : UInt64} {args : List Value} (h : Fresh w t p args) :
    args.length < (w.thread t).height ∧ exists c ups,
      (w.thread t).slot ((w.thread t).top - args.length - 1) = .closure c ∧
      w.heap.closures.get c.index = .native .trampoline ups ∧ ups[0]? = some (.light p) := by
  rcases h.function with ⟨c, ups, hvalues, hclosure, hp⟩
  have hwithin : (w.thread t).base ≤ (w.thread t).top := by
    have hlength := congrArg List.length hvalues
    unfold Thread.values at hlength
    rw [Thread.length_slots, List.length_cons] at hlength
    unfold Thread.height at hlength
    omega
  rcases Thread.slots_top (show (w.thread t).values = [] ++ .closure c :: args from hvalues)
    hwithin with ⟨hheight, hslots⟩
  rw [List.length_nil, List.length_cons] at hheight
  rw [List.length_cons, Nat.add_comm, Thread.slots_add] at hslots
  refine ⟨by omega, c, ups, ?_, hclosure, hp⟩
  rw [Nat.sub_sub, Nat.add_comm args.length]
  exact (List.cons.inj hslots).1

/-- The first turn of a coroutine runs its function. -/
theorem comesTo_fresh {w : World} {p : UInt64} {args : List Value} (hlive : w.liveThread t = true)
    (h : Fresh w t p args) (hnest : callerNesting caller w < maxNesting) :
    ComesTo e.host t caller args.length (engine e.host d) w
      ⟨budget, w.setThread t (begun (w.thread t) (callerNesting caller w)), (do
        let n ← guarded t (e.function (HostFn.ofAddress p) t)
        finishCall e.host t n
        pure () : M Unit) (engine e.host d) (started t caller args.length w)⟩ := by
  rcases h.function_slot with ⟨hheight, c, ups, hslot, hclosure, hp⟩
  have hthread := World.thread_setThread hlive
    ((begun (w.thread t) (callerNesting caller w)).guarding)
  have hstarted := World.thread_setThread hlive
    ((begun (w.thread t) (callerNesting caller w)).guarding.entering
      ((w.thread t).top - args.length - 1) multipleResults)
  have hcomes : ComesTo e.host t caller args.length (engine e.host d) w _ :=
    comesTo_first hlive (.fresh h.status (Nat.le_of_eq h.calls) hheight) hnest
  unfold firstStage Stage.ofBody at hcomes
  rw [World.thread_setThread hlive, World.setThread_setThread] at hcomes
  -- a thread that has yet to begin calls the function below its arguments, which is a trampoline
  have hrun : continueThread e.host t args.length (engine e.host d)
      (w.setThread t (begun (w.thread t) (callerNesting caller w)).guarding) = (do
        let n ← guarded t (e.function (HostFn.ofAddress p) t)
        finishCall e.host t n
        pure () : M Unit) (engine e.host d) (started t caller args.length w) := by
    refine (continueThread_fresh ((World.liveThread_setThread w t t _).trans hlive) ?_ ?_ hclosure
      ?_ ?_).trans ?_
    · rw [hthread]
      exact h.status
    · rw [hthread]
      exact hslot
    · rw [hthread]
      exact h.ready.congr rfl rfl
    · rw [hthread]
      exact h.quiet
    · rw [hthread, World.setThread_setThread]
      have hfunction : ((started t caller args.length w).thread t).slot
          ((started t caller args.length w).thread t).frame.func = .closure c := by
        unfold started
        rw [hstarted]
        unfold Thread.entering
        rw [Thread.frame_pushFrame]
        exact (Thread.slot_entering _ _ multipleResults _).trans hslot
      have htrampoline : Interface.trampoline e.function t (engine e.host d) _ = _ :=
        trampoline_eq hfunction hclosure hp
      refine (bind_congr_of_eq htrampoline _).trans ?_
      simp only [bind_pure_unit]
  rw [hrun] at hcomes
  exact hcomes

theorem enters_fresh {w : World} {p : UInt64} {args : List Value} (hlive : w.liveThread t = true)
    (h : Fresh w t p args) (hnest : callerNesting caller w < maxNesting) :
    Enters e t caller d args.length w (e.function (HostFn.ofAddress p) t)
      (started t caller args.length w) := by
  have hstarted := World.thread_setThread hlive
    ((begun (w.thread t) (callerNesting caller w)).guarding.entering
      ((w.thread t).top - args.length - 1) multipleResults)
  refine ⟨w.setThread t (begun (w.thread t) (callerNesting caller w)), pure (),
    comesTo_fresh hlive h hnest, ?_, ?_⟩
  · intro w' _ _
    exact Returns.pure _ w'
  · unfold started
    rw [hstarted, World.thread_setThread hlive]
    unfold Thread.entering Thread.grown
    split <;> exact ⟨rfl, rfl, rfl⟩

theorem enters_suspended {mark : Told → String} {k : HostContinuation}
    {K : ThreadId → Status → Int → M Nat} {w : World} {context : Int} {vs : List Value}
    (hk : e.continuation k = noting mark K) (hlive : w.liveThread t = true)
    (h : Waiting (w.thread t) k context vs) (hnest : callerNesting caller w < maxNesting)
    (nargs : Nat) :
    Enters e t caller d nargs w (K t .yield context)
      (noted (resumed t caller w) (mark ⟨t, .yield, context, vs⟩)) := by
  have hthread := World.thread_setThread hlive
    ((begun (w.thread t) (callerNesting caller w)).guarding)
  have hresumed := World.thread_setThread hlive
    { (begun (w.thread t) (callerNesting caller w)).guarding with status := .ok }
  have hvalues : ((resumed t caller w).thread t).values = vs := by
    have halike : (w.thread t).Alike
        { (begun (w.thread t) (callerNesting caller w)).guarding with status := .ok } :=
      ⟨rfl, rfl, rfl⟩
    unfold resumed
    rw [hresumed, (halike.sameBelow _).values_eq rfl, h.values_eq]
  have hcomes : ComesTo e.host t caller nargs (engine e.host d) w _ :=
    comesTo_first hlive (.suspended h.status) hnest
  -- the continuation sees the values that the resumption has put on the stack, and notes them
  have hrun : continueThread e.host t nargs (engine e.host d)
      (w.setThread t (begun (w.thread t) (callerNesting caller w)).guarding) = (do
        let n ← guarded t (K t .yield context)
        finishCall e.host t n
        unroll e.host t budget : M Unit) (engine e.host d)
        (noted (resumed t caller w) (mark ⟨t, .yield, context, vs⟩)) := by
    refine (continueThread_suspended (k := .host k)
      ((World.liveThread_setThread w t t _).trans hlive) ?_ ?_ ?_).trans ?_
    · rw [hthread]
      exact h.status
    · rw [hthread]
      exact h.native
    · rw [hthread]
      exact h.continuation
    · rw [hthread, World.setThread_setThread]
      have hcontext : (begun (w.thread t) (callerNesting caller w)).guarding.frame.context =
          context := h.context_eq
      rw [hcontext]
      have hnote := returns_noting mark K t .yield context (engine e.host d) (resumed t caller w)
      rw [hvalues, ← hk] at hnote
      exact bind_congr_of_eq (catch_congr hnote _) _
  refine ⟨w.setThread t (begun (w.thread t) (callerNesting caller w)),
    unroll e.host t budget, ?_, ?_, ?_⟩
  · rw [← hrun]
    unfold firstStage Stage.ofBody at hcomes
    rw [World.thread_setThread hlive, World.setThread_setThread] at hcomes
    exact hcomes
  · intro w' _ hframes
    exact returns_unroll hframes
  · have hentered : (noted (resumed t caller w) (mark ⟨t, .yield, context, vs⟩)).thread t =
        { (begun (w.thread t) (callerNesting caller w)).guarding with status := .ok } := hresumed
    rw [hentered, World.thread_setThread hlive]
    exact ⟨rfl, rfl, rfl⟩

theorem Enters.resume_of_ok {nargs : Nat} {run : M Nat} {w₁ w w' : World}
    {kept results : List Value} (h : Enters e t caller d nargs w₁ run w)
    (hrun : run (engine e.host d) w = .ok results.length w') (hlive : w'.liveThread t = true)
    (hrunning : Running (w'.thread t) (kept ++ results))
    (hquiet : (w'.thread t).hook.onReturn = false) :
    exists w'', resumeThread e.host t caller nargs (engine e.host d) w₁ =
        .ok (.ok, results.length) w'' ∧
      (w''.thread t).slots ((w''.thread t).top - results.length) results.length = results ∧
      w''.events = w'.events := by
  rcases h with ⟨v, rest, hcomes, hrest, _⟩
  rcases returns_finishCall e.host hlive hquiet results.length with ⟨lastPc, hfinish⟩
  have hlast : Running { w'.thread t with lastPc } (kept ++ results) :=
    ⟨hrunning.calls, hrunning.bottom, hrunning.native, hrunning.func_eq, hrunning.wanted_eq,
      hrunning.values_eq, hrunning.within, hrunning.yieldable⟩
  rcases values_finished hlast with ⟨hframes, hheight, hslots⟩
  have hfinished := World.thread_setThread hlive
    (Thread.finished { w'.thread t with lastPc } results.length)
  have hlive' := (World.liveThread_setThread w' t t
    (Thread.finished { w'.thread t with lastPc } results.length)).trans hlive
  rw [ok_andThen (guarded_of_ok hrun) (hfinish.andThen
    (hrest _ hlive' (by rw [hfinished]; exact hframes) (engine e.host d)))] at hcomes
  have hresume := hcomes.of_ok hlive' (by decide)
  rw [hfinished, hheight] at hresume
  refine ⟨_, hresume, ?_, rfl⟩
  unfold backFrom
  rw [World.thread_setThread hlive', hfinished]
  exact hslots

theorem Enters.resume_of_yield {nargs : Nat} {run : M Nat} {w₁ w w' : World}
    {kept yielded : List Value} {k : HostContinuation} {context : Int}
    (h : Enters e t caller d nargs w₁ run w)
    (hrun : run (engine e.host d) w =
      yieldWith t yielded.length (some k) context (engine e.host d) w')
    (hlive : w'.liveThread t = true) (hrunning : Running (w'.thread t) (kept ++ yielded)) :
    resumeThread e.host t caller nargs (engine e.host d) w₁ =
        .ok (.yield, yielded.length) (suspended t yielded.length k context w w') ∧
      ((suspended t yielded.length k context w w').thread t).slots
        (((suspended t yielded.length k context w w').thread t).top - yielded.length)
        yielded.length = yielded := by
  rcases h with ⟨v, rest, hcomes, _, hnesting, hunyieldable, hguards⟩
  have hyield := hrun.trans (yieldWith_eq hlive hrunning.native hrunning.yieldable
    yielded.length k context (engine e.host d))
  have hlive' := (World.liveThread_setThread w' t t
    (yielding (w'.thread t) yielded.length k context)).trans hlive
  have hyielding := World.thread_setThread hlive (yielding (w'.thread t) yielded.length k context)
  rw [bind_of_error (guarded_of_yield hyield) _] at hcomes
  have hresume := hcomes.of_yield hlive' (by decide)
  have hsame : backFrom t v (w'.setThread t (yielding (w'.thread t) yielded.length k context)) =
      suspended t yielded.length k context w w' := by
    unfold backFrom suspended Thread.nestedAs
    rw [hyielding, World.setThread_setThread, hnesting, hunyieldable, hguards]
    rfl
  have hcount : (yielding (w'.thread t) yielded.length k context).frame.yieldCount =
      yielded.length := by
    have hcalls : 0 < (w'.thread t).frames.size := by
      rw [hrunning.calls]
      decide
    exact congrArg Frame.yieldCount (Thread.frame_modifyFrame hcalls)
  rw [hyielding, hcount, hsame] at hresume
  refine ⟨hresume, ?_⟩
  unfold suspended
  rw [World.thread_setThread hlive]
  exact (Thread.slots_top hrunning.values_eq hrunning.within).2

/-!
# Whole chains
-/

variable {mark : Told → String} {isNote : String → Bool} {k : HostContinuation}
  {K : ThreadId → Status → Int → M Nat}

/-- One resumption and what the resumer reads off the stack. -/
theorem drive_cons {prepare : M Nat} {prepares : List (M Nat)} {nargs n : Nat} {s : Status}
    {vs : List Value} {answers : List Answer} {w w₁ w₂ : World}
    (hprepare : prepare (engine e.host (d + 1)) w = .ok nargs w₁)
    (hresume : resumeThread e.host t caller nargs (engine e.host d) w₁ = .ok (s, n) w₂)
    (hslots : (w₂.thread t).slots ((w₂.thread t).top - n) n = vs) {w₃ : World}
    (hrest : drive t caller prepares (engine e.host (d + 1)) w₂ = .ok answers w₃) :
    drive t caller (prepare :: prepares) (engine e.host (d + 1)) w =
      .ok ((s, n, vs) :: answers) w₃ := by
  subst hslots
  rw [drive]
  refine ok_andThen hprepare ?_
  refine ok_andThen (a := (s, n)) hresume ?_
  refine (returns_thread w₂ t).andThen ?_
  exact ok_andThen hrest rfl

/-- From a turn on, a chain is driven to its end. -/
theorem Enters.drive (hk : e.continuation k = noting mark K)
    (hmark : forall told, told.thread = t → isNote (mark told) = true) {run : M Nat} {w : World}
    {prepares : List (M Nat)} {turns : List Turn} {results : List Value}
    (hchain : Chain e mark isNote k K t caller d run w prepares turns results) :
    forall (prepare : M Nat) (nargs : Nat) (w₀ w₁ : World),
      prepare (engine e.host (d + 1)) w₀ = .ok nargs w₁ →
      Enters e t caller d nargs w₁ run w →
      exists w', Suspending.drive t caller (prepare :: prepares) (engine e.host (d + 1)) w₀ =
          .ok (turns.map Turn.answer ++ [(.ok, results.length, results)]) w' ∧
        notes isNote w' = notes isNote w ++ turns.map fun turn => mark (turn.told t) := by
  induction hchain with
  | @returns run w w' kept results hrun hlive hrunning hquiet hnotes =>
      intro prepare nargs w₀ w₁ hprepare henters
      rcases henters.resume_of_ok hrun hlive hrunning hquiet with ⟨w₂, hresume, hslots, hevents⟩
      refine ⟨w₂, drive_cons hprepare hresume hslots (Returns.pure [] w₂ _), ?_⟩
      rw [List.map_nil, List.append_nil, ← hnotes]
      unfold notes
      rw [hevents]
  | @yields run w w' w'' turn prepare' prepares turns results hrun hlive hrunning hnotes hprepare'
      hlive' hwaiting hnotes' hnest _ ih =>
      intro prepare nargs w₀ w₁ hprepare henters
      rcases henters.resume_of_yield hrun hlive hrunning with ⟨hresume, hslots⟩
      have hnext : Enters e t caller d turn.given.length w'' (K t .yield turn.context) _ :=
        enters_suspended hk hlive' hwaiting hnest turn.given.length
      rcases ih prepare' turn.given.length _ w'' hprepare' hnext with ⟨w₃, hdrive, hnoted⟩
      refine ⟨w₃, drive_cons hprepare hresume hslots hdrive, ?_⟩
      have hresumed : notes isNote (resumed t caller w'') = notes isNote w'' := rfl
      rw [hnoted, notes_noted (hmark _ rfl), hresumed, hnotes', hnotes, List.append_assoc]
      rfl

/-- Continuation chains: a host function that yields turn after turn, from itself
or from the continuation of the turn before, and then returns, gives its resumer
the values of each turn and at last the results; the continuation is called once
for each turn, on what the turn left and what the resumption gives. -/
theorem drive_chain (hk : e.continuation k = noting mark K)
    (hmark : forall told, told.thread = t → isNote (mark told) = true) {first : M Nat}
    {p : UInt64} {args : List Value} {w₀ w : World}
    (hfirst : first (engine e.host (d + 1)) w₀ = .ok args.length w)
    (hlive : w.liveThread t = true) (hfresh : Fresh w t p args)
    (hnest : callerNesting caller w < maxNesting) {prepares : List (M Nat)} {turns : List Turn}
    {results : List Value}
    (hchain : Chain e mark isNote k K t caller d (e.function (HostFn.ofAddress p) t)
      (started t caller args.length w) prepares turns results) :
    exists w', Suspending.drive t caller (first :: prepares) (engine e.host (d + 1)) w₀ =
        .ok (turns.map Turn.answer ++ [(.ok, results.length, results)]) w' ∧
      notes isNote w' = notes isNote w ++ turns.map fun turn => mark (turn.told t) :=
  Enters.drive hk hmark hchain first args.length w₀ w hfirst (enters_fresh hlive hfresh hnest)

end Turns

/-!
# A function that counts
-/

/-- Yields 8 for a negative context, and returns 9 for another one. -/
def countOn (t : ThreadId) (_ : Status) (context : Int) : M Nat := do
  if context < 0 then
    Interface.pushInteger t 8
    yieldWith t 1 (some ⟨0⟩) 5
  else
    Interface.pushInteger t 9
    return 1

/-- A function that yields 7 and goes on in the continuation. -/
def counting : Embedding where
  function _ t := do
    Interface.pushInteger t 7
    yieldWith t 1 (some ⟨0⟩) (-1)
  continuation _ := noting (fun told => toString told.context) countOn

/-- A main thread, and a coroutine with the function and an argument. -/
def countingWorld : World :=
  { heap :=
      { closures := { items := #[some (.native .trampoline #[.light (HostFn.mk 0).address])] }
        threads :=
          { items := #[some Thread.fresh,
              some ((Thread.fresh.push (.closure ⟨0⟩)).push (.int 3))] } } }

/-- The resumer takes the value that was yielded, and hands over another one. -/
def exchange (i : Int64) : M Nat := do
  Interface.pop ⟨1⟩ 1
  Interface.pushInteger ⟨1⟩ i
  return 1

def firstTurn : World := started ⟨1⟩ (some ⟨0⟩) 1 countingWorld

def firstYield : World := after (Interface.pushInteger ⟨1⟩ 7) firstTurn

def firstPause : World := after (exchange 4) (suspended ⟨1⟩ 1 ⟨0⟩ (-1) firstTurn firstYield)

def secondTurn : World := noted (resumed ⟨1⟩ (some ⟨0⟩) firstPause) (toString (-1 : Int))

def secondYield : World := after (Interface.pushInteger ⟨1⟩ 8) secondTurn

def secondPause : World := after (exchange 5) (suspended ⟨1⟩ 1 ⟨0⟩ 5 secondTurn secondYield)

def lastTurn : World := noted (resumed ⟨1⟩ (some ⟨0⟩) secondPause) (toString (5 : Int))

def lastWorld : World := after (Interface.pushInteger ⟨1⟩ 9) lastTurn

theorem answered_counting :
    answer? (Interface.pushInteger ⟨1⟩ 7) firstTurn = some () ∧
      answer? (Interface.pushInteger ⟨1⟩ 8) secondTurn = some () ∧
      answer? (Interface.pushInteger ⟨1⟩ 9) lastTurn = some () := by
  decide +kernel

theorem exchange_firstYield (E : Engine) :
    exchange 4 E (suspended ⟨1⟩ 1 ⟨0⟩ (-1) firstTurn firstYield) = .ok 1 firstPause := by
  rfl

theorem exchange_secondYield (E : Engine) :
    exchange 5 E (suspended ⟨1⟩ 1 ⟨0⟩ 5 secondTurn secondYield) = .ok 1 secondPause := by
  rfl

theorem running_firstYield : Running (firstYield.thread ⟨1⟩) [.int 3, .int 7] :=
  ⟨rfl, rfl, rfl, rfl, rfl, rfl, by decide, rfl⟩

theorem waiting_firstPause : Waiting (firstPause.thread ⟨1⟩) ⟨0⟩ (-1) [.int 3, .int 4] :=
  ⟨rfl, rfl, rfl, rfl, rfl⟩

theorem running_secondYield : Running (secondYield.thread ⟨1⟩) [.int 3, .int 4, .int 8] :=
  ⟨rfl, rfl, rfl, rfl, rfl, rfl, by decide, rfl⟩

theorem waiting_secondPause :
    Waiting (secondPause.thread ⟨1⟩) ⟨0⟩ 5 [.int 3, .int 4, .int 5] :=
  ⟨rfl, rfl, rfl, rfl, rfl⟩

theorem running_lastWorld :
    Running (lastWorld.thread ⟨1⟩) [.int 3, .int 4, .int 5, .int 9] := by
  constructor <;> decide +kernel

theorem fresh_countingWorld : Fresh countingWorld ⟨1⟩ (HostFn.mk 0).address [.int 3] :=
  ⟨rfl, rfl, ⟨⟨0⟩, _, rfl, rfl, rfl⟩, Or.inr ⟨by decide, by decide⟩, rfl⟩

theorem chain_counting :
    Chain counting (fun told => toString told.context) (fun _ => true) ⟨0⟩ countOn ⟨1⟩ (some ⟨0⟩) 0
      (counting.function ⟨0⟩ ⟨1⟩) firstTurn [exchange 4, exchange 5]
      [⟨[.int 3], [.int 7], -1, [.int 4]⟩, ⟨[.int 3, .int 4], [.int 8], 5, [.int 5]⟩]
      [.int 9] := by
  rcases answered_counting with ⟨hfirst, hsecond, hlast⟩
  have hreturns : countOn ⟨1⟩ .yield 5 idle lastTurn = .ok 1 lastWorld :=
    bind_of_ok (ok_after hlast) _
  have hyields : countOn ⟨1⟩ .yield (-1) idle secondTurn =
      yieldWith ⟨1⟩ 1 (some ⟨0⟩) 5 idle secondYield :=
    bind_of_ok (ok_after hsecond) _
  have hbegins : counting.function ⟨0⟩ ⟨1⟩ idle firstTurn =
      yieldWith ⟨1⟩ 1 (some ⟨0⟩) (-1) idle firstYield :=
    bind_of_ok (ok_after hfirst) _
  have hend : Chain counting (fun told => toString told.context) (fun _ => true) ⟨0⟩ countOn ⟨1⟩
      (some ⟨0⟩) 0 (countOn ⟨1⟩ .yield 5) lastTurn [] [] [.int 9] :=
    .returns hreturns (by decide +kernel)
      (show Running (lastWorld.thread ⟨1⟩) ([.int 3, .int 4, .int 5] ++ [.int 9]) from
        running_lastWorld)
      (by decide +kernel) (by decide +kernel)
  have hmiddle : Chain counting (fun told => toString told.context) (fun _ => true) ⟨0⟩ countOn
      ⟨1⟩ (some ⟨0⟩) 0 (countOn ⟨1⟩ .yield (-1)) secondTurn [exchange 5]
      [⟨[.int 3, .int 4], [.int 8], 5, [.int 5]⟩] [.int 9] :=
    .yields hyields (by decide +kernel) running_secondYield (by decide +kernel)
      (exchange_secondYield _) (by decide +kernel) waiting_secondPause (by decide +kernel)
      (by decide +kernel) hend
  exact .yields hbegins (by decide +kernel) running_firstYield (by decide +kernel)
    (exchange_firstYield _) (by decide +kernel) waiting_firstPause (by decide +kernel)
    (by decide +kernel) hmiddle

theorem drive_chain_counting :
    exists w', Suspending.drive ⟨1⟩ (some ⟨0⟩) [return 1, exchange 4, exchange 5]
        (engine counting.host 1) countingWorld =
        .ok [(.yield, 1, [.int 7]), (.yield, 1, [.int 8]), (.ok, 1, [.int 9])] w' ∧
      notes (fun _ => true) w' = ["-1", "5"] := by
  have hfirst : (return 1 : M Nat) (engine counting.host 1) countingWorld = .ok 1 countingWorld :=
    rfl
  rcases drive_chain (e := counting) (k := ⟨0⟩) rfl (fun _ _ => rfl) hfirst rfl
    fresh_countingWorld (by decide) chain_counting with ⟨w', hdrive, hnotes⟩
  exact ⟨w', hdrive, hnotes⟩

end Suspending

end LuaHost
