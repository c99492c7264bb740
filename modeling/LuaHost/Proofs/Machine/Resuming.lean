import LuaHost.Machine.Engine
import LuaHost.Proofs.Interface.Room

/-!
# Calls and resumptions, step by step

What the engine does around native code: it opens a call, runs the code and
moves its results to the place of the function; and it runs a thread until it
ends, fails or yields, forgetting then how deeply native calls were nested.
-/

namespace LuaHost

namespace Thread

/-- A thread inside one more protected section. -/
def guarding (th : Thread) : Thread := { th with guards := th.guards + 1 }

/-- The thread inside one more call from native code. -/
def nested (th : Thread) (yieldable : Bool) : Thread :=
  { th with
    nesting := th.nesting + 1
    unyieldable := if yieldable then th.unyieldable else th.unyieldable + 1 }

/-- The thread `th'`, with native calls nested as in `th`. -/
def nestedAs (th' th : Thread) : Thread :=
  { th' with nesting := th.nesting, unyieldable := th.unyieldable, guards := th.guards }

end Thread

namespace Machine

/-!
# Sections that may fail or yield
-/

section Protection

variable {α : Type} {w w' : World} {t : ThreadId} {E : Engine}

theorem attempt_of_ok {body : M α} {a : α}
    (h : body E (w.setThread t (w.thread t).guarding) = .ok a w') :
    attempt t body E w = .ok (.ok a) (w'.setThread t ((w'.thread t).nestedAs (w.thread t))) := by
  refine (returns_thread w t).andThen ?_
  refine (returns_modifyThread w t _).andThen ?_
  apply catch_of_ok
  refine ok_andThen h ?_
  exact (returns_modifyThread w' t _).andThen rfl

theorem attempt_of_error {body : M α} {s : Status}
    (h : body E (w.setThread t (w.thread t).guarding) = .error (.error t s) w') :
    attempt t body E w =
      .ok (.error s) (w'.setThread t ((w'.thread t).nestedAs (w.thread t))) := by
  refine (returns_thread w t).andThen ?_
  refine (returns_modifyThread w t _).andThen ?_
  refine catch_of_error (bind_of_error h _) ?_
  refine (returns_modifyThread w' t _).andThen ?_
  rw [if_pos rfl]
  rfl

theorem attempt_of_yield {body : M α} {t' : ThreadId}
    (h : body E (w.setThread t (w.thread t).guarding) = .error (.yield t') w') :
    attempt t body E w =
      .error (.yield t') (w'.setThread t { w'.thread t with guards := (w.thread t).guards }) := by
  refine (returns_thread w t).andThen ?_
  refine (returns_modifyThread w t _).andThen ?_
  refine catch_of_error (bind_of_error h _) ?_
  exact (returns_modifyThread w' t _).andThen rfl

variable {body : M Unit}

theorem untilYield_of_ok (h : body E (w.setThread t (w.thread t).guarding) = .ok () w') :
    untilYield t body E w = .ok .ok (w'.setThread t ((w'.thread t).nestedAs (w.thread t))) := by
  refine (returns_thread w t).andThen ?_
  apply catch_of_ok
  exact ok_andThen (attempt_of_ok h) rfl

theorem untilYield_of_error {s : Status}
    (h : body E (w.setThread t (w.thread t).guarding) = .error (.error t s) w') :
    untilYield t body E w = .ok s (w'.setThread t ((w'.thread t).nestedAs (w.thread t))) := by
  refine (returns_thread w t).andThen ?_
  apply catch_of_ok
  exact ok_andThen (attempt_of_error h) rfl

theorem untilYield_of_yield (hlive : w'.liveThread t = true)
    (h : body E (w.setThread t (w.thread t).guarding) = .error (.yield t) w') :
    untilYield t body E w = .ok .yield (w'.setThread t ((w'.thread t).nestedAs (w.thread t))) := by
  refine (returns_thread w t).andThen ?_
  refine catch_of_error (bind_of_error (attempt_of_yield h) _) ?_
  refine (returns_modifyThread _ t _).andThen ?_
  rw [if_pos rfl, World.thread_setThread hlive, World.setThread_setThread]
  rfl

end Protection

end Machine

namespace Thread

/-!
# Frames
-/

/-- The thread with room for `n` more slots. -/
def grown (th : Thread) (n : Nat) : Thread :=
  if th.room < th.top + n + 1 then
    { th with room := max (min (2 * th.room) Machine.maxStack) (th.top + n) }
  else th

/-- The thread in the call of the native function in a slot. -/
def entering (th : Thread) (func : Nat) (wanted : Int) : Thread :=
  (th.grown minStack).pushFrame { kind := .native, func, top := th.top + minStack, wanted }

/-- The thread with `n` results from the top moved down to a slot. -/
def movedDown (th : Thread) (dst n : Nat) (wanted : Int) : Thread :=
  if wanted < 0 then (th.moveSlots (th.top - n) dst n).withTop (dst + n)
  else
    ((th.moveSlots (th.top - n) dst (min n wanted.toNat)).fillNil (dst + min n wanted.toNat)
      (wanted.toNat - min n wanted.toNat)).withTop (dst + wanted.toNat)

/-- The thread behind the running call, which had `n` results. -/
def finished (th : Thread) (n : Nat) : Thread :=
  (th.movedDown th.frame.func n th.frame.wanted).popFrame

theorem stack_grown (th : Thread) (n : Nat) : (th.grown n).stack = th.stack := by
  unfold grown
  split <;> rfl

theorem top_grown (th : Thread) (n : Nat) : (th.grown n).top = th.top := by
  unfold grown
  split <;> rfl

theorem frame_pushFrame (th : Thread) (f : Frame) : (th.pushFrame f).frame = f := by
  unfold frame pushFrame
  rw [Array.back?_push]
  rfl

theorem hook_entering (th : Thread) (func : Nat) (wanted : Int) :
    (th.entering func wanted).hook = th.hook := by
  show (th.grown minStack).hook = _
  unfold grown
  split <;> rfl

theorem Ready.congr {th th' : Thread} {n : Nat} (h : th.Ready n) (htop : th'.top = th.top)
    (hroom : th'.room = th.room) : th'.Ready n := by
  rcases h with hfits | hgrows
  · exact Or.inl (by rw [htop, hroom]; exact hfits)
  · exact Or.inr ⟨by rw [hroom]; exact hgrows.room_le, by rw [htop]; exact hgrows.top_le⟩

theorem slot_entering (th : Thread) (func : Nat) (wanted : Int) (i : Nat) :
    (th.entering func wanted).slot i = th.slot i := by
  show (th.grown minStack).stack.getD i .nil = _
  rw [stack_grown]
  rfl

theorem modify_modify {α : Type} (xs : Array α) (i : Nat) (f g : α → α) :
    (xs.modify i f).modify i g = xs.modify i fun x => g (f x) := by
  apply Array.ext_getElem?
  intro j
  rw [Array.getElem?_modify, Array.getElem?_modify, Array.getElem?_modify]
  by_cases h : i = j
  · rw [if_pos h, if_pos h, if_pos h, Option.map_map]
    rfl
  · rw [if_neg h, if_neg h, if_neg h]

theorem modifyFrame_modifyFrame (th : Thread) (f g : Frame → Frame) :
    (th.modifyFrame f).modifyFrame g = th.modifyFrame fun x => g (f x) := by
  unfold modifyFrame
  simp only [Array.size_modify, modify_modify]

theorem frame_modifyFrame {th : Thread} {f : Frame → Frame} (h : 0 < th.frames.size) :
    (th.modifyFrame f).frame = f th.frame := by
  have hlast : th.frames.size - 1 < th.frames.size := Nat.sub_one_lt_of_lt h
  unfold frame modifyFrame Array.back?
  rw [Array.size_modify, Array.getElem?_modify, if_pos rfl, Array.getElem?_eq_getElem hlast]
  rfl

theorem frame_popFrame {th : Thread} (h : 2 ≤ th.frames.size) :
    th.popFrame.frame = th.previousFrame := by
  have hbelow : th.frames.size - 1 - 1 < th.frames.size - 1 := by omega
  unfold frame popFrame previousFrame Array.back?
  rw [Array.size_pop, Array.getElem?_pop, if_pos hbelow, Array.getD_eq_getD_getElem?]
  rfl

/-!
# Slots
-/

theorem slots_add (th : Thread) (i m n : Nat) :
    th.slots i (m + n) = th.slots i m ++ th.slots (i + m) n := by
  unfold slots
  rw [List.range_add, List.map_append, List.map_map]
  congr 1
  apply List.map_congr_left
  intro k _
  rw [Function.comp_apply, Nat.add_assoc]

theorem length_slots (th : Thread) (i n : Nat) : (th.slots i n).length = n := by
  unfold slots
  rw [List.length_map, List.length_range]

theorem slots_top {th : Thread} {kept vs : List Value} (h : th.values = kept ++ vs)
    (hwithin : th.base ≤ th.top) :
    kept.length + vs.length = th.height ∧ th.slots (th.top - vs.length) vs.length = vs := by
  have hheight : kept.length + vs.length = th.height := by
    rw [← List.length_append, ← h]
    exact length_slots th th.base th.height
  have hsplit : th.slots th.base kept.length ++ th.slots (th.base + kept.length) vs.length =
      kept ++ vs := by
    rw [← slots_add, hheight]
    exact h
  have hplace : th.top - vs.length = th.base + kept.length := by
    unfold height at hheight
    omega
  refine ⟨hheight, ?_⟩
  rw [hplace]
  exact (List.append_inj hsplit (length_slots th _ _)).2

theorem slot_moveSlots_down (th : Thread) {src dst : Nat} (h : dst ≤ src) (n i : Nat) :
    (th.moveSlots src dst n).slot i =
      if dst ≤ i ∧ i < dst + n then th.slot (src + (i - dst)) else th.slot i := by
  induction n generalizing th src dst with
  | zero =>
      rw [if_neg (by omega)]
      rfl
  | succ n ih =>
      rw [moveSlots, ih _ (Nat.succ_le_succ h), slot_setSlot, slot_setSlot]
      by_cases hi : dst = i
      · subst hi
        rw [if_neg (by omega), if_pos rfl, if_pos (by omega), Nat.sub_self, Nat.add_zero]
      · rw [if_neg hi]
        by_cases hin : dst + 1 ≤ i ∧ i < dst + 1 + n
        · rw [if_pos hin, if_neg (by omega), if_pos (by omega)]
          congr 1
          omega
        · rw [if_neg hin, if_neg (by omega)]

theorem frames_setSlot (th : Thread) (i : Nat) (v : Value) : (th.setSlot i v).frames = th.frames := by
  unfold setSlot
  split <;> rfl

theorem frames_moveSlots (th : Thread) (src dst n : Nat) :
    (th.moveSlots src dst n).frames = th.frames := by
  induction n generalizing th src dst with
  | zero => rfl
  | succ n ih => rw [moveSlots, ih, frames_setSlot]

theorem frames_fillNil (th : Thread) (i n : Nat) : (th.fillNil i n).frames = th.frames := by
  induction n generalizing th i with
  | zero => rfl
  | succ n ih => rw [fillNil, ih, frames_setSlot]

theorem frames_movedDown (th : Thread) (i n : Nat) (wanted : Int) :
    (th.movedDown i n wanted).frames = th.frames := by
  unfold movedDown
  split
  · exact frames_moveSlots th _ _ _
  · exact (frames_fillNil _ _ _).trans (frames_moveSlots th _ _ _)

theorem frames_finished (th : Thread) (n : Nat) : (th.finished n).frames = th.popFrame.frames := by
  show (th.movedDown _ _ _).frames.pop = th.frames.pop
  rw [frames_movedDown]

theorem frame_finished (th : Thread) (n : Nat) : (th.finished n).frame = th.popFrame.frame := by
  unfold frame
  rw [frames_finished]

theorem slot_fillNil (th : Thread) (j n i : Nat) :
    (th.fillNil j n).slot i = if j ≤ i ∧ i < j + n then .nil else th.slot i := by
  induction n generalizing th j with
  | zero =>
      rw [if_neg (by omega)]
      rfl
  | succ n ih =>
      rw [fillNil, ih, slot_setSlot]
      by_cases hi : j = i
      · rw [if_neg (by omega), if_pos hi, if_pos (by omega)]
      · rw [if_neg hi]
        by_cases hin : j + 1 ≤ i ∧ i < j + 1 + n
        · rw [if_pos hin, if_pos (by omega)]
        · rw [if_neg hin, if_neg (by omega)]

end Thread

namespace Machine

theorem returns_frame (w : World) (t : ThreadId) :
    Returns (frame t) w (w.thread t).frame w :=
  fun _ => rfl

section Calls

variable {host : Host} {w w' : World} {t : ThreadId} {E : Engine}

theorem returns_needStack {n : Nat} (h : (w.thread t).Ready n) (hn : n < maxStack) :
    Returns (needStack t n) w () (w.setThread t ((w.thread t).grown n)) := by
  unfold Thread.grown
  refine Returns.bind (returns_thread w t) ?_
  by_cases hfull : (w.thread t).room < (w.thread t).top + n + 1
  · have hroom : (w.thread t).Room n := by
      rcases h with hfits | hroom
      · exact absurd hfits (Nat.not_le_of_lt hfull)
      · exact hroom
    have hsize : max (min (2 * (w.thread t).room) maxStack) ((w.thread t).top + n) ≤ maxStack :=
      Nat.max_le.mpr ⟨Nat.min_le_right _ _, hroom.top_le⟩
    have hgrow : Returns (growStack t n) w true (w.setThread t
        { w.thread t with room := max (min (2 * (w.thread t).room) maxStack) ((w.thread t).top + n) }) := by
      refine Returns.bind (returns_thread w t) ?_
      rw [if_neg (Nat.not_lt_of_le hroom.room_le),
        if_pos (by rw [decide_eq_true hn, decide_eq_true hsize]; rfl)]
      exact Returns.bind (returns_modifyThread w t _) (Returns.pure _ _)
    rw [if_pos hfull, if_pos hfull, if_neg (Nat.not_lt_of_le hroom.room_le)]
    exact Returns.bind hgrow (Returns.pure _ _)
  · rw [if_neg hfull, if_neg hfull, World.setThread_thread]
    exact Returns.pure _ w

/-- The results of the running call take the place of its function. -/
def handOver (t : ThreadId) (n : Nat) : M Unit := do
  let f ← frame t
  let dst := f.func
  let wanted := f.wanted
  moveResults t dst n wanted
  modifyThread t (·.popFrame)

theorem returns_handOver (hlive : w.liveThread t = true) (n : Nat) :
    Returns (handOver t n) w () (w.setThread t ((w.thread t).finished n)) := by
  refine Returns.bind (returns_frame w t) ?_
  refine Returns.bind (returns_modifyThread w t _) ?_
  have hpop := returns_modifyThread (w.setThread t
    ((w.thread t).movedDown (w.thread t).frame.func n (w.thread t).frame.wanted)) t (·.popFrame)
  rw [World.thread_setThread hlive, World.setThread_setThread] at hpop
  exact hpop

/-- Where no hook is to be told of returns, a return only notes where the caller was. -/
theorem returns_returnHook (hquiet : (w.thread t).hook.onReturn = false) (n : Nat) :
    exists lastPc, Returns (returnHook host t n) w () (w.setThread t { w.thread t with lastPc }) := by
  have hkeep : w.setThread t { w.thread t with lastPc := (w.thread t).lastPc } = w :=
    World.setThread_thread w t
  by_cases hscript : (w.thread t).previousFrame.isScript = true
  · refine ⟨(w.thread t).previousFrame.pc - 1, Returns.bind (returns_thread w t) ?_⟩
    rw [if_neg (by rw [hquiet]; exact Bool.false_ne_true)]
    refine Returns.bind (returns_thread w t) ?_
    rw [if_pos hscript]
    exact returns_modifyThread w t _
  · refine ⟨(w.thread t).lastPc, Returns.bind (returns_thread w t) ?_⟩
    rw [if_neg (by rw [hquiet]; exact Bool.false_ne_true), hkeep]
    refine Returns.bind (returns_thread w t) ?_
    rw [if_neg hscript]
    exact Returns.pure _ w

/-- Native code ends its call, with no hook for returns to be told. -/
theorem returns_finishCall (host : Host) (hlive : w.liveThread t = true)
    (hquiet : (w.thread t).hook.onReturn = false) (n : Nat) :
    exists lastPc, Returns (finishCall host t n) w ()
      (w.setThread t ({ w.thread t with lastPc }.finished n)) := by
  have hpops : forall lastPc, Returns (handOver t n) (w.setThread t { w.thread t with lastPc }) ()
      (w.setThread t ({ w.thread t with lastPc }.finished n)) := by
    intro lastPc
    have hpop := returns_handOver ((World.liveThread_setThread w t t
      { w.thread t with lastPc }).trans hlive) n
    rw [World.thread_setThread hlive, World.setThread_setThread] at hpop
    exact hpop
  by_cases hactive : (w.thread t).hook.active = true
  · rcases returns_returnHook hquiet n with ⟨lastPc, hhook⟩
    refine ⟨lastPc, Returns.bind (returns_thread w t) ?_⟩
    rw [if_pos hactive]
    exact Returns.bind hhook (hpops lastPc)
  · have hold := hpops (w.thread t).lastPc
    rw [show w.setThread t { w.thread t with lastPc := (w.thread t).lastPc } = w from
      World.setThread_thread w t] at hold
    refine ⟨(w.thread t).lastPc, Returns.bind (returns_thread w t) ?_⟩
    rw [if_neg hactive]
    exact hold

/-- Native code that is called runs in a call of its own, with no hook for calls
to be told. -/
theorem runNative_eq {α : Type} (hlive : w.liveThread t = true)
    (hready : (w.thread t).Ready minStack) (hquiet : (w.thread t).hook.onCall = false)
    (func : Nat) (wanted : Int) (body : M (Nat × α)) :
    runNative host t func wanted body E w = (do
      let r ← body
      finishCall host t r.1
      return r) E (w.setThread t ((w.thread t).entering func wanted)) := by
  have hopens := returns_modifyThread (w.setThread t ((w.thread t).grown minStack)) t fun th =>
    th.pushFrame { kind := .native, func, top := th.top + minStack, wanted }
  rw [World.thread_setThread hlive, World.setThread_setThread, Thread.top_grown] at hopens
  have hcall : ((w.thread t).entering func wanted).hook.onCall = false := by
    rw [Thread.hook_entering]
    exact hquiet
  refine (returns_needStack hready (by decide)).andThen ?_
  refine hopens.andThen ?_
  refine (returns_thread _ t).andThen ?_
  rw [World.thread_setThread hlive]
  have hskip : ¬ ((w.thread t).entering func wanted).hook.onCall = true := by
    rw [hcall]
    exact Bool.false_ne_true
  exact run_congr (if_neg hskip)

theorem callNative_eq (hlive : w.liveThread t = true) (hready : (w.thread t).Ready minStack)
    (hquiet : (w.thread t).hook.onCall = false) (func : Nat) (wanted : Int) (fn : Native) :
    callNative host t func wanted fn E w = (do
      let n ← host.native fn t
      finishCall host t n
      return n : M Nat) E (w.setThread t ((w.thread t).entering func wanted)) := by
  refine (bind_congr_of_eq (runNative_eq hlive hready hquiet func wanted _) _).trans ?_
  simp only [bind_assoc, pure_bind]

theorem beginCall_native {func : Nat} {c : ClosureId} {fn : Native} {ups : Array Value}
    (hslot : (w.thread t).slot func = .closure c)
    (hclosure : w.heap.closures.get c.index = .native fn ups) (wanted : Int) :
    beginCall host t func wanted E w = (do
      let _ ← callNative host t func wanted fn
      return false : M Bool) E w := by
  have hloop : exists fuel, maxStack = fuel + 1 := ⟨_, rfl⟩
  rcases hloop with ⟨fuel, hloop⟩
  unfold beginCall
  rw [hloop, beginCallLoop]
  have hread : Returns (slot t func) w (.closure c) w := by
    rw [← hslot]
    exact Returns.bind (returns_thread w t) (Returns.pure _ w)
  have hkind : Returns (closure c) w (.native fn ups) w := by
    rw [← hclosure]
    exact fun _ => rfl
  refine hread.andThen ?_
  exact hkind.andThen rfl

/-- Calling a native closure from native code runs its function one level deeper. -/
theorem callFunction_native {func : Nat} {c : ClosureId} {fn : Native} {ups : Array Value}
    (hlive : w.liveThread t = true) (hslot : (w.thread t).slot func = .closure c)
    (hclosure : w.heap.closures.get c.index = .native fn ups)
    (hnest : (w.thread t).nesting + 1 < maxNesting) (hready : (w.thread t).Ready minStack)
    (hquiet : (w.thread t).hook.onCall = false) (wanted : Int) (yieldable : Bool) :
    callFunction host t func wanted yieldable E w = (do
      let n ← host.native fn t
      finishCall host t n
      leaveNesting t yieldable : M Unit) E
      (w.setThread t (((w.thread t).nested yieldable).entering func wanted)) := by
  have hthread := World.thread_setThread hlive ((w.thread t).nested yieldable)
  have hlive' : (w.setThread t ((w.thread t).nested yieldable)).liveThread t = true :=
    (World.liveThread_setThread w t t _).trans hlive
  have hshallow : ¬ ((w.thread t).nested yieldable).nesting ≥ maxNesting := Nat.not_le_of_lt hnest
  have henter : Returns (enterNesting t yieldable) w ()
      (w.setThread t ((w.thread t).nested yieldable)) := by
    refine Returns.bind (returns_modifyThread w t _) ?_
    refine Returns.bind (returns_thread (w.setThread t ((w.thread t).nested yieldable)) t) ?_
    rw [hthread, if_neg hshallow]
    exact Returns.pure () _
  have hslot' : ((w.setThread t ((w.thread t).nested yieldable)).thread t).slot func =
      .closure c := by
    rw [hthread]
    exact hslot
  have hready' : ((w.setThread t ((w.thread t).nested yieldable)).thread t).Ready minStack := by
    rw [hthread]
    exact hready.congr rfl rfl
  have hquiet' : ((w.setThread t ((w.thread t).nested yieldable)).thread t).hook.onCall = false := by
    rw [hthread]
    exact hquiet
  have hbegin : beginCall host t func wanted E (w.setThread t ((w.thread t).nested yieldable)) =
      (do
        let _ ← callNative host t func wanted fn
        return false : M Bool) E (w.setThread t ((w.thread t).nested yieldable)) :=
    beginCall_native hslot' hclosure wanted
  have hcall : callNative host t func wanted fn E
      (w.setThread t ((w.thread t).nested yieldable)) = (do
        let n ← host.native fn t
        finishCall host t n
        return n : M Nat) E ((w.setThread t ((w.thread t).nested yieldable)).setThread t
          (((w.setThread t ((w.thread t).nested yieldable)).thread t).entering func wanted)) :=
    callNative_eq hlive' hready' hquiet' func wanted fn
  rw [hthread, World.setThread_setThread] at hcall
  -- what is left of a native call after it began is nothing
  refine henter.andThen ?_
  refine (bind_congr_of_eq (hbegin.trans (bind_congr_of_eq hcall _)) _).trans ?_
  simp only [bind_assoc, pure_bind, if_neg Bool.false_ne_true]

/-!
# Resumptions
-/

/-- The nesting of native calls around a resumption. -/
def callerNesting (caller : Option ThreadId) (w : World) : Nat :=
  match caller with
  | some c => (w.thread c).nesting
  | none => 0

/-- The thread at the beginning of a resumption. -/
def begun (th : Thread) (nesting : Nat) : Thread :=
  { th with nesting := nesting + 1, unyieldable := 0 }

/-- What is left to do when a thread has ended, failed or yielded; `fuel` bounds the errors that it
may still recover from. -/
def settle (host : Host) (t : ThreadId) (fuel : Nat) (status : Status) : M (Status × Nat) := do
  let status ← recover host t status fuel
  if status.isError then
    modifyThread t fun th => { th with status }
    placeError t status (← top t)
    modifyThread t fun th =>
      let n := th.top
      th.modifyFrame fun f => { f with top := n }
  let th ← thread t
  return (status, if status == .yield then th.frame.yieldCount else th.height)

/-- A thread that can be resumed with `nargs` values: one that has yet to begin,
or one that has yielded. -/
inductive Resumable (th : Thread) (nargs : Nat) : Prop where
  | fresh : th.status = .ok → th.frames.size ≤ 1 → nargs < th.height → Resumable th nargs
  | suspended : th.status = .yield → Resumable th nargs

/-- A resumption that is not refused goes on with the thread. -/
theorem resumeThread_eq {caller : Option ThreadId} {nargs : Nat} (hlive : w.liveThread t = true)
    (hready : Resumable (w.thread t) nargs) (hnest : callerNesting caller w < maxNesting) :
    resumeThread host t caller nargs E w =
      (do
        let status ← untilYield t (continueThread host t nargs)
        settle host t budget status : M (Status × Nat)) E
        (w.setThread t (begun (w.thread t) (callerNesting caller w))) := by
  -- neither of the two refusals is for a thread that can be resumed
  have hfirst : ((w.thread t).status == .ok && (w.thread t).frames.size > 1) ≠ true := by
    cases hready with
    | fresh _ hframes _ =>
        rw [decide_eq_false (Nat.not_lt_of_le hframes), Bool.and_false]
        exact Bool.false_ne_true
    | suspended hstatus =>
        rw [hstatus]
        exact Bool.false_ne_true
  have hsecond : ((w.thread t).status == .ok && (w.thread t).height ≤ nargs ||
      (w.thread t).status != .ok && (w.thread t).status != .yield) ≠ true := by
    cases hready with
    | fresh hstatus _ hheight =>
        rw [decide_eq_false (Nat.not_le_of_lt hheight), hstatus]
        exact Bool.false_ne_true
    | suspended hstatus =>
        rw [hstatus]
        exact Bool.false_ne_true
  have hnested := returns_modifyThread (w.setThread t
    { w.thread t with nesting := callerNesting caller w, unyieldable := 0 }) t fun th =>
      { th with nesting := callerNesting caller w + 1 }
  rw [World.thread_setThread hlive, World.setThread_setThread] at hnested
  refine (returns_thread w t).andThen ?_
  refine (run_congr (if_neg hfirst)).trans ?_
  refine (run_congr (if_neg hsecond)).trans ?_
  cases caller with
  | none =>
      refine (Returns.pure 0 w).andThen ?_
      refine (returns_modifyThread w t _).andThen ?_
      refine (run_congr (if_neg (Nat.not_le_of_lt hnest))).trans ?_
      exact hnested.andThen rfl
  | some c =>
      refine (returns_thread w c).andThen ?_
      refine (Returns.pure _ w).andThen ?_
      refine (returns_modifyThread w t _).andThen ?_
      refine (run_congr (if_neg (Nat.not_le_of_lt hnest))).trans ?_
      exact hnested.andThen rfl

theorem returns_unroll (h : (w.thread t).frames.size = 1) :
    Returns (unroll host t budget) w () w := by
  have hfuel : exists fuel, budget = fuel + 1 := Nat.exists_eq_succ_of_ne_zero (by decide)
  rcases hfuel with ⟨fuel, hfuel⟩
  rw [hfuel, unroll]
  refine Returns.bind (returns_thread w t) ?_
  rw [if_pos (Nat.le_of_eq h)]
  exact Returns.pure () w

/-- A thread that has yet to begin calls its native function. -/
theorem continueThread_fresh {nargs : Nat} {c : ClosureId} {fn : Native} {ups : Array Value}
    (hlive : w.liveThread t = true) (hstatus : (w.thread t).status = .ok)
    (hslot : (w.thread t).slot ((w.thread t).top - nargs - 1) = .closure c)
    (hclosure : w.heap.closures.get c.index = .native fn ups)
    (hready : (w.thread t).Ready minStack) (hquiet : (w.thread t).hook.onCall = false) :
    continueThread host t nargs E w = (do
      let n ← host.native fn t
      finishCall host t n : M Unit) E
      (w.setThread t ((w.thread t).entering ((w.thread t).top - nargs - 1) multipleResults)) := by
  have hbegin : beginCall host t _ multipleResults E w = _ :=
    beginCall_native hslot hclosure multipleResults
  have hcall : callNative host t _ multipleResults fn E w = _ :=
    callNative_eq hlive hready hquiet ((w.thread t).top - nargs - 1) multipleResults fn
  refine (returns_thread w t).andThen ?_
  refine (run_congr (if_pos (by rw [hstatus]; rfl))).trans ?_
  refine (bind_congr_of_eq (hbegin.trans (bind_congr_of_eq hcall _)) _).trans ?_
  simp only [bind_assoc, pure_bind, if_neg Bool.false_ne_true, bind_pure_unit]

/-- A thread that has yielded from native code goes on in the continuation. -/
theorem continueThread_suspended {nargs : Nat} {k : Continuation}
    (hlive : w.liveThread t = true) (hstatus : (w.thread t).status = .yield)
    (hnative : (w.thread t).frame.isScript = false)
    (hk : (w.thread t).frame.continuation = some k) :
    continueThread host t nargs E w = (do
      let n ← host.continue_ k t .yield (w.thread t).frame.context
      finishCall host t n
      unroll host t budget : M Unit) E (w.setThread t { w.thread t with status := .ok }) := by
  have hframe := returns_frame (w.setThread t { w.thread t with status := .ok }) t
  rw [World.thread_setThread hlive] at hframe
  have hscript : ¬ (w.thread t).frame.isScript = true := by
    rw [hnative]
    exact Bool.false_ne_true
  refine (returns_thread w t).andThen ?_
  refine (run_congr (if_neg (by rw [hstatus]; exact Bool.false_ne_true))).trans ?_
  refine (returns_modifyThread w t _).andThen ?_
  refine hframe.andThen ?_
  refine (run_congr (if_neg hscript)).trans ?_
  apply run_congr
  split
  · next k' hk' =>
      have hsame : some k' = some k := hk'.symm.trans hk
      cases hsame
      rfl
  · next hnone => exact absurd (hnone.symm.trans hk) nofun

/-- A thread that has yielded from native code with no continuation goes on behind its call. -/
theorem continueThread_plain {nargs : Nat} (hlive : w.liveThread t = true)
    (hstatus : (w.thread t).status = .yield) (hnative : (w.thread t).frame.isScript = false)
    (hk : (w.thread t).frame.continuation = none) (hquiet : (w.thread t).hook.active = false) :
    continueThread host t nargs E w = (do
      handOver t nargs
      unroll host t budget : M Unit) E (w.setThread t { w.thread t with status := .ok }) := by
  have hframe := returns_frame (w.setThread t { w.thread t with status := .ok }) t
  have hthread := returns_thread (w.setThread t { w.thread t with status := .ok }) t
  rw [World.thread_setThread hlive] at hframe hthread
  have hfinish : finishCall host t nargs E (w.setThread t { w.thread t with status := .ok }) =
      handOver t nargs E (w.setThread t { w.thread t with status := .ok }) := by
    refine hthread.andThen ?_
    exact run_congr (if_neg (by rw [hquiet]; exact Bool.false_ne_true))
  have hscript : ¬ (w.thread t).frame.isScript = true := by
    rw [hnative]
    exact Bool.false_ne_true
  refine (returns_thread w t).andThen ?_
  refine (run_congr (if_neg (by rw [hstatus]; exact Bool.false_ne_true))).trans ?_
  refine (returns_modifyThread w t _).andThen ?_
  refine hframe.andThen ?_
  refine (run_congr (if_neg hscript)).trans ?_
  refine Eq.trans ?_ (bind_congr_of_eq hfinish _)
  apply run_congr
  split
  · next k hsome => exact absurd (hk.symm.trans hsome) nofun
  · rfl

end Calls

end Machine

end LuaHost
