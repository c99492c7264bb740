import LuaHost.Proofs.Interface.Headroom
import LuaHost.Proofs.Interface.Protecting
import LuaHost.Proofs.Interface.Sparing

/-!
# Handlers that are native functions

The machine calls a handler above everything else, with the operands as its
arguments, and takes one result.  Where the handler is a native function and no
hook is told of it, the call comes down to the native code: if the stack and the
nesting of calls allow for one more call, the code runs, its first result is the
answer, and the caller finds its own stack again; if they do not, an error is
raised.
-/

namespace LuaHost

theorem Hook.onCall_of_inactive {h : Hook} (hquiet : h.active = false) : h.onCall = false := by
  unfold active at hquiet
  simp only [Bool.or_eq_false_iff] at hquiet
  exact hquiet.1.1.1

namespace Thread

/-!
# Threads around a call
-/

/-- The thread with another room for its stack. -/
def sized (th : Thread) (room : Nat) : Thread := { th with room }

/-- Everything about a thread but its stack and its calls. -/
def rest (th : Thread) : Thread := { th with stack := #[], top := 0, room := 0, frames := #[] }

/-- A thread after some work of its running call: its stack may hold other values
and have other room, and the running call may reach up to another slot. -/
structure Worked (th th' : Thread) : Prop where
  rest_eq : th'.rest = th.rest
  calls_eq : th'.frames.size = th.frames.size
  callers_eq : th'.frames.pop = th.frames.pop
  frame_eq : exists n, th'.frame = { th.frame with top := n }

/-- A thread to which a call has returned: its values are as they were. -/
structure Unmoved (th th' : Thread) : Prop where
  rest_eq : th'.rest = th.rest
  frames_eq : th'.frames = th.frames
  top_eq : th'.top = th.top
  slot_eq : forall i, i < th.top -> th'.slot i = th.slot i

/-- The thread in the call of the native function in a slot, which native code has
begun, with some room for the values of the call. -/
structure Opened (th : Thread) (func : Nat) (wanted : Int) (yieldable : Bool) (th' : Thread) :
    Prop where
  rest_eq : th'.rest = (th.nested yieldable).rest
  frames_eq : th'.frames =
    th.frames.push { kind := .native, func, top := th.top + minStack, wanted }
  stack_eq : th'.stack = th.stack
  top_eq : th'.top = th.top
  room_le : th.top + minStack ≤ th'.room

/-- One more call from native code is possible, above `n` more values. -/
structure Affords (th : Thread) (n : Nat) : Prop where
  nesting_lt : th.nesting + 1 < Machine.maxNesting
  ready : th.Ready (n + minStack)

/-- A stack is ready for as many values as its limit allows for. -/
theorem ready_iff {th : Thread} {n : Nat} : th.Ready n ↔ th.top + n ≤ th.limit := by
  unfold limit
  constructor
  · rintro (hfits | hroom)
    · split <;> omega
    · rw [if_pos hroom.room_le]
      exact hroom.top_le
  · intro hfits
    split at hfits
    · next hroom => exact Or.inr ⟨hroom, hfits⟩
    · exact Or.inl (by omega)

theorem grown_eq (th : Thread) (n : Nat) : th.grown n = th.sized (th.grown n).room := by
  unfold grown
  split <;> rfl

theorem le_room_grown (th : Thread) (n : Nat) : th.top + n ≤ (th.grown n).room := by
  unfold grown
  split
  · exact Nat.le_max_right _ _
  · omega

theorem Worked.refl (th : Thread) : th.Worked th := ⟨rfl, rfl, rfl, th.frame.top, rfl⟩

theorem Worked.trans {th th' th'' : Thread} (h : th.Worked th') (h' : th'.Worked th'') :
    th.Worked th'' := by
  rcases h.frame_eq with ⟨m, hm⟩
  rcases h'.frame_eq with ⟨n, hn⟩
  refine ⟨h'.rest_eq.trans h.rest_eq, h'.calls_eq.trans h.calls_eq,
    h'.callers_eq.trans h.callers_eq, n, ?_⟩
  rw [hn, hm]

theorem Worked.hook_eq {th th' : Thread} (h : th.Worked th') : th'.hook = th.hook := by
  have hrest := congrArg Thread.hook h.rest_eq
  exact hrest

theorem worked_of_frames {th th' : Thread} (hrest : th'.rest = th.rest)
    (hframes : th'.frames = th.frames) : th.Worked th' := by
  refine ⟨hrest, congrArg Array.size hframes, congrArg Array.pop hframes, th.frame.top, ?_⟩
  unfold frame
  rw [hframes]

theorem worked_modifyFrame (th : Thread) {g : Frame → Frame}
    (hg : forall f, g f = { f with top := (g f).top }) : th.Worked (th.modifyFrame g) := by
  refine ⟨rfl, Array.size_modify, ?_, ?_⟩
  · apply Array.ext_getElem?
    intro i
    show ((th.frames.modify (th.frames.size - 1) g).pop)[i]? = _
    rw [Array.getElem?_pop, Array.getElem?_pop, Array.size_modify, Array.getElem?_modify]
    by_cases hi : i < th.frames.size - 1
    · rw [if_pos hi, if_pos hi, if_neg (Nat.ne_of_gt hi)]
    · rw [if_neg hi, if_neg hi]
  · by_cases hsize : 0 < th.frames.size
    · exact ⟨(g th.frame).top, (frame_modifyFrame hsize).trans (hg th.frame)⟩
    · refine ⟨th.frame.top, ?_⟩
      have hempty : th.frames = #[] := Array.eq_empty_of_size_eq_zero (Nat.eq_zero_of_not_pos hsize)
      unfold frame modifyFrame
      rw [hempty]
      rfl

theorem opened_entering (th : Thread) (func : Nat) (wanted : Int) (yieldable : Bool) (room : Nat) :
    th.Opened func wanted yieldable (((th.nested yieldable).sized room).entering func wanted) := by
  have hgrown := grown_eq ((th.nested yieldable).sized room) minStack
  unfold entering
  refine ⟨?_, ?_, stack_grown _ _, top_grown _ _,
    le_room_grown ((th.nested yieldable).sized room) minStack⟩
  · rw [hgrown]
    rfl
  · rw [hgrown]
    rfl

namespace Opened

variable {th th' : Thread} {func : Nat} {wanted : Int} {yieldable : Bool}

theorem hook_eq (h : Opened th func wanted yieldable th') : th'.hook = th.hook := by
  have hrest := congrArg Thread.hook h.rest_eq
  exact hrest

theorem frame_eq (h : Opened th func wanted yieldable th') :
    th'.frame = { kind := .native, func, top := th.top + minStack, wanted } := by
  unfold frame
  rw [h.frames_eq, Array.back?_push]
  rfl

theorem slot_eq (h : Opened th func wanted yieldable th') (i : Nat) : th'.slot i = th.slot i := by
  unfold slot
  rw [h.stack_eq]

end Opened

/-!
# Values that are moved
-/

theorem rest_setSlot (th : Thread) (i : Nat) (v : Value) : (th.setSlot i v).rest = th.rest := by
  unfold setSlot
  split <;> rfl

theorem rest_moveSlots (th : Thread) (src dst n : Nat) : (th.moveSlots src dst n).rest = th.rest := by
  induction n generalizing th src dst with
  | zero => rfl
  | succ n ih => rw [moveSlots, ih, rest_setSlot]

theorem rest_fillNil (th : Thread) (i n : Nat) : (th.fillNil i n).rest = th.rest := by
  induction n generalizing th i with
  | zero => rfl
  | succ n ih => rw [fillNil, ih, rest_setSlot]

theorem rest_movedDown (th : Thread) (i n : Nat) (wanted : Int) :
    (th.movedDown i n wanted).rest = th.rest := by
  unfold movedDown
  split
  · exact rest_moveSlots th _ _ _
  · exact (rest_fillNil _ _ _).trans (rest_moveSlots th _ _ _)

/-- The thread with some values pushed one after the other. -/
def pushed (th : Thread) (vs : List Value) : Thread := vs.foldl push th

theorem pushed_eq (vs : List Value) :
    forall th : Thread, exists stack, th.pushed vs = { th with stack, top := th.top + vs.length } := by
  induction vs with
  | nil => exact fun th => ⟨th.stack, rfl⟩
  | cons v vs ih =>
      intro th
      rcases push_eq th v with ⟨stack, hpush⟩
      rcases ih (th.push v) with ⟨stack', hrest⟩
      refine ⟨stack', ?_⟩
      show (th.push v).pushed vs = _
      rw [hrest, hpush, List.length_cons, Nat.add_assoc, Nat.add_comm 1]

theorem top_pushed (th : Thread) (vs : List Value) : (th.pushed vs).top = th.top + vs.length := by
  rcases pushed_eq vs th with ⟨_, h⟩
  rw [h]

theorem rest_pushed (th : Thread) (vs : List Value) : (th.pushed vs).rest = th.rest := by
  rcases pushed_eq vs th with ⟨_, h⟩
  rw [h]
  rfl

theorem frames_pushed (th : Thread) (vs : List Value) : (th.pushed vs).frames = th.frames := by
  rcases pushed_eq vs th with ⟨_, h⟩
  rw [h]

theorem hook_pushed (th : Thread) (vs : List Value) : (th.pushed vs).hook = th.hook :=
  (worked_of_frames (rest_pushed th vs) (frames_pushed th vs)).hook_eq

theorem slot_pushed (vs : List Value) :
    forall (th : Thread) (i : Nat), (th.pushed vs).slot i =
      if i < th.top then th.slot i else (vs[i - th.top]?).getD (th.slot i) := by
  induction vs with
  | nil =>
      intro th i
      show th.slot i = _
      rw [List.getElem?_nil, Option.getD_none, ite_self]
  | cons v vs ih =>
      intro th i
      show ((th.push v).pushed vs).slot i = _
      rw [ih, slot_push, top_push]
      by_cases hbelow : i < th.top
      · rw [if_pos hbelow, if_pos (by omega), if_neg (by omega)]
      · rw [if_neg hbelow]
        by_cases htop : th.top = i
        · rw [if_pos (by omega), if_pos htop, ← htop, Nat.sub_self, List.getElem?_cons_zero,
            Option.getD_some]
        · rw [if_neg (by omega), if_neg htop, show i - th.top = i - (th.top + 1) + 1 by omega,
            List.getElem?_cons_succ]

theorem affords_pushed {th : Thread} {vs : List Value} {n : Nat} :
    (th.pushed vs).Affords n ↔ th.Affords (n + vs.length) := by
  rcases pushed_eq vs th with ⟨_, heq⟩
  have hready : (th.pushed vs).Ready (n + minStack) ↔ th.Ready (n + vs.length + minStack) := by
    rw [ready_iff, ready_iff, limit_congr (show (th.pushed vs).room = th.room by rw [heq]), top_pushed]
    omega
  have hnesting : (th.pushed vs).nesting = th.nesting := by
    rw [heq]
  exact ⟨fun h => ⟨hnesting ▸ h.nesting_lt, hready.mp h.ready⟩,
    fun h => ⟨hnesting.symm ▸ h.nesting_lt, hready.mpr h.ready⟩⟩

/-- The thread one level less deep in calls from native code. -/
def unnested (th : Thread) (yieldable : Bool) : Thread :=
  { th with
    nesting := th.nesting - 1
    unyieldable := if yieldable then th.unyieldable else th.unyieldable - 1 }

theorem rest_unnested {th th' : Thread} {yieldable : Bool}
    (h : th'.rest = (th.nested yieldable).rest) : (th'.unnested yieldable).rest = th.rest := by
  show (th'.rest.unnested yieldable).rest = th.rest
  rw [h]
  cases yieldable <;> rfl

/-- The thread in the call of a native handler: the handler has its operands, and some room. -/
structure Handles (th : Thread) (args : List Value) (th' : Thread) : Prop where
  hook_eq : th'.hook = th.hook
  base_eq : th'.base = th.top + 1
  top_eq : th'.top = th.top + 1 + args.length
  arg_eq : forall i v, args[i]? = some v -> th'.slot (th.top + 1 + i) = v
  room_le : th'.top + minStack ≤ th'.room

theorem Handles.ready {th th' : Thread} {args : List Value} (h : th.Handles args th') {n : Nat}
    (hn : n < minStack) : th'.Ready n := by
  have hroom := h.room_le
  exact Or.inl (by omega)

theorem Opened.handles {th th' : Thread} {f : Value} {args : List Value} {wanted : Int}
    {yieldable : Bool} (h : (th.pushed (f :: args)).Opened th.top wanted yieldable th') :
    th.Handles args th' := by
  have hpushed := top_pushed th (f :: args)
  rw [List.length_cons] at hpushed
  have htop := h.top_eq
  have hroom := h.room_le
  refine ⟨?_, ?_, by omega, fun i v hv => ?_, by omega⟩
  · rw [h.hook_eq, hook_pushed]
  · unfold base
    rw [h.frame_eq]
  · rw [h.slot_eq, slot_pushed, if_neg (by omega),
      show th.top + 1 + i - th.top = i + 1 by omega, List.getElem?_cons_succ, hv, Option.getD_some]

end Thread

/-- The engine's calls are those of the machine, which go on in another engine. -/
def Engine.Calls (E : Engine) (host : Host) (E₀ : Engine) : Prop :=
  forall t func wanted y, E.call t func wanted y = Machine.callFunction host t func wanted y E₀

theorem Engine.calls_succ (host : Host) (d : Nat) :
    (Machine.engine host (d + 1)).Calls host (Machine.engine host d) :=
  fun _ _ _ _ => rfl

namespace Machine

/-!
# Calls of native functions
-/

variable {host : Host} {w : World} {t : ThreadId} {α : Type}

theorem ends_of_ok {x : M α} {E : Engine} {a : α} {w' : World} {Q : α → World → Prop}
    {R : World → Prop} (h : x E w = .ok a w') (hQ : Q a w') : Ends x E w Q R := by
  unfold Ends
  rw [h]
  exact hQ

theorem ends_of_error {x : M α} {E : Engine} {r : Raise} {w' : World} {Q : α → World → Prop}
    {R : World → Prop} (h : x E w = .error r w') (hR : R w') : Ends x E w Q R := by
  unfold Ends
  rw [h]
  exact hR

theorem error_of_ne_ok {x : M α} {E : Engine} (h : forall a w', x E w ≠ .ok a w') :
    exists r w', x E w = .error r w' := by
  cases hrun : x E w with
  | ok a w' => exact absurd hrun (h a w')
  | error r w' => exact ⟨r, w', rfl⟩

theorem handlingError_ne_ok (t : ThreadId) (E : Engine) (w : World) (a : α) (w' : World) :
    handlingError t E w ≠ .ok a w' := by
  intro h
  rcases ok_bind h with ⟨_, _, _, h⟩
  exact throwStatus_ne_ok t _ E _ a w' h

theorem needStack_fails {n : Nat} (h : ¬ (w.thread t).Ready n) (E : Engine) :
    exists r w', needStack t n E w = .error r w' := by
  refine error_of_ne_ok fun a w' hrun => ?_
  have hfull : (w.thread t).room < (w.thread t).top + n + 1 :=
    Nat.lt_of_not_le fun hfits => h (Or.inl hfits)
  have hover : (w.thread t).limit < (w.thread t).top + n :=
    Nat.lt_of_not_le fun hfits => h (Thread.ready_iff.mpr hfits)
  have hrun := (returns_thread w t).ok_bind hrun
  rw [if_pos hfull] at hrun
  split at hrun
  · exact handlingError_ne_ok t E w a w' hrun
  · rcases returns_growStack_over hover with ⟨w₁, hgrow⟩
    exact runError_ne_ok t _ E _ a w' (hgrow.ok_bind hrun)

/-- Native calls that are nested too deeply go on only while an error is handled. -/
theorem checkNesting_passes (w : World) (t : ThreadId) :
    Returns (checkNesting t) w () w ∨ forall E, exists r w', checkNesting t E w = .error r w' := by
  by_cases hlimit : ((w.thread t).nesting == maxNesting) = true
  · refine Or.inr fun E => error_of_ne_ok fun a w' h => ?_
    have h := (returns_thread w t).ok_bind h
    rw [if_pos hlimit] at h
    exact runError_ne_ok t _ E _ a w' h
  · by_cases hover : (w.thread t).nesting ≥ maxNesting / 10 * 11
    · refine Or.inr fun E => error_of_ne_ok fun a w' h => ?_
      have h := (returns_thread w t).ok_bind h
      rw [if_neg hlimit, if_pos hover] at h
      exact handlingError_ne_ok t E _ a w' h
    · refine Or.inl (Returns.bind (returns_thread w t) ?_)
      rw [if_neg hlimit, if_neg hover]
      exact Returns.pure () w

/-- One more call from native code is nested in the others, or raises an error. -/
theorem enterNesting_enters (hlive : w.liveThread t = true) (yieldable : Bool) :
    (exists room, ((w.thread t).nesting + 1 < maxNesting -> room = (w.thread t).room) ∧ Returns (enterNesting t yieldable) w ()
      (w.setThread t (((w.thread t).nested yieldable).sized room))) ∨
    (¬ (w.thread t).nesting + 1 < maxNesting ∧
      forall E, exists r w', enterNesting t yieldable E w = .error r w') := by
  have hnest := returns_modifyThread w t fun th => th.nested yieldable
  have hread := returns_thread (w.setThread t ((w.thread t).nested yieldable)) t
  rw [World.thread_setThread hlive] at hread
  by_cases hshallow : (w.thread t).nesting + 1 < maxNesting
  · refine Or.inl ⟨(w.thread t).room, fun _ => rfl, Returns.bind hnest (Returns.bind hread ?_)⟩
    rw [if_neg (show ¬ ((w.thread t).nested yieldable).nesting ≥ maxNesting from
      Nat.not_le_of_lt hshallow)]
    exact Returns.pure () _
  · have hdeep : ((w.thread t).nested yieldable).nesting ≥ maxNesting := Nat.le_of_not_lt hshallow
    have hnested := World.thread_setThread hlive ((w.thread t).nested yieldable)
    have hskip : forall {E : Engine}, enterNesting t yieldable E w = (do
        needStack t 0
        checkNesting t : M Unit) E (w.setThread t ((w.thread t).nested yieldable)) :=
      hnest.andThen (hread.andThen (run_congr (if_pos hdeep)))
    by_cases hready : ((w.thread t).nested yieldable).Ready 0
    · have hmade := returns_needStack (hnested.symm ▸ hready) (by decide)
      rw [hnested, World.setThread_setThread] at hmade
      rcases checkNesting_passes
        (w.setThread t (((w.thread t).nested yieldable).grown 0)) t with hpass | hfails
      · refine Or.inl ⟨(((w.thread t).nested yieldable).grown 0).room,
          fun h => absurd h hshallow, fun E => ?_⟩
        rw [hskip, ← Thread.grown_eq]
        exact hmade.andThen (hpass E)
      · refine Or.inr ⟨hshallow, fun E => ?_⟩
        rcases hfails E with ⟨r, w', hrun⟩
        exact ⟨r, w', hskip.trans (hmade.andThen hrun)⟩
    · refine Or.inr ⟨hshallow, fun E => ?_⟩
      rcases needStack_fails (hnested.symm ▸ hready) E with ⟨r, w', hrun⟩
      exact ⟨r, w', hskip.trans (bind_of_error hrun _)⟩

/-- Calling a native function runs it. -/
theorem beginCall_light {func : Nat} {fn : Native} (hslot : (w.thread t).slot func = .native fn)
    (wanted : Int) {E : Engine} :
    beginCall host t func wanted E w = (do
      let _ ← callNative host t func wanted fn
      return false : M Bool) E w := by
  have hloop : exists fuel, maxStack = fuel + 1 := ⟨_, rfl⟩
  rcases hloop with ⟨fuel, hloop⟩
  have hread : Returns (slot t func) w (.native fn) w := by
    rw [← hslot]
    exact Returns.bind (returns_thread w t) (Returns.pure _ w)
  unfold beginCall
  rw [hloop, beginCallLoop]
  exact hread.andThen rfl

/-- Native code that calls a native function runs it one level deeper, or fails before it runs. -/
theorem callFunction_opens {func : Nat} {fn : Native} (hlive : w.liveThread t = true)
    (hslot : (w.thread t).slot func = .native fn) (hquiet : (w.thread t).hook.onCall = false)
    (wanted : Int) (yieldable : Bool) :
    (exists th, (w.thread t).Opened func wanted yieldable th ∧ forall E,
      callFunction host t func wanted yieldable E w = (do
        let n ← host.native fn t
        finishCall host t n
        leaveNesting t yieldable : M Unit) E (w.setThread t th)) ∨
    (¬ (w.thread t).Affords 0 ∧
      forall E, exists r w', callFunction host t func wanted yieldable E w = .error r w') := by
  rcases enterNesting_enters hlive yieldable with ⟨room, hroom, henter⟩ | ⟨hdeep, hfails⟩
  · let th := ((w.thread t).nested yieldable).sized room
    have hthread : (w.setThread t th).thread t = th := World.thread_setThread hlive th
    have hlive' : (w.setThread t th).liveThread t = true :=
      (World.liveThread_setThread w t t th).trans hlive
    have hslot' : ((w.setThread t th).thread t).slot func = .native fn := by
      rw [hthread]
      exact hslot
    have hbegin : forall {E : Engine}, callFunction host t func wanted yieldable E w = (do
        let _ ← callNative host t func wanted fn
        leaveNesting t yieldable : M Unit) E (w.setThread t th) := by
      intro E
      refine henter.andThen ?_
      refine (bind_congr_of_eq (beginCall_light hslot' wanted) _).trans ?_
      simp only [bind_assoc, pure_bind, if_neg Bool.false_ne_true]
    -- the frame of the callee is opened where the stack is ready for it; nothing has run before
    by_cases hready : th.Ready minStack
    · have hcall : forall {E : Engine}, callNative host t func wanted fn E (w.setThread t th) = _ :=
        callNative_eq hlive' (hthread.symm ▸ hready) (by rw [hthread]; exact hquiet) func wanted fn
      rw [hthread, World.setThread_setThread] at hcall
      refine Or.inl ⟨th.entering func wanted, Thread.opened_entering _ _ _ _ room, fun E => ?_⟩
      refine hbegin.trans ((bind_congr_of_eq hcall _).trans ?_)
      simp only [bind_assoc, pure_bind]
    · refine Or.inr ⟨fun hafford => hready ?_, fun E => ?_⟩
      · have hnow := hafford.ready
        rw [Nat.zero_add] at hnow
        exact hnow.congr rfl (hroom hafford.nesting_lt)
      · rcases needStack_fails (hthread.symm ▸ hready) E with ⟨r, w', hrun⟩
        refine ⟨r, w', hbegin.trans (bind_of_error (bind_of_error (bind_of_error hrun _) _) _)⟩
  · refine Or.inr ⟨fun hafford => hdeep hafford.nesting_lt, fun E => ?_⟩
    rcases hfails E with ⟨r, w', hrun⟩
    exact ⟨r, w', bind_of_error hrun _⟩

/-!
# Calls of handlers
-/

theorem returns_pushAll (hlive : w.liveThread t = true) (vs : List Value) :
    Returns (pushAll t vs) w () (w.setThread t ((w.thread t).pushed vs)) := by
  unfold pushAll
  induction vs generalizing w with
  | nil =>
      show Returns (pure ()) w () (w.setThread t (w.thread t))
      rw [World.setThread_thread]
      exact Returns.pure () w
  | cons v vs ih =>
      have hrest := ih (w := w.setThread t ((w.thread t).push v))
        ((World.liveThread_setThread w t t _).trans hlive)
      rw [World.thread_setThread hlive, World.setThread_setThread] at hrest
      exact Returns.bind (returns_push w t v) hrest

/-- Native code has come to its end: its results are on top of what it has found. -/
structure Answers (t : ThreadId) (w : World) (rs : List Value) (w' : World) : Prop where
  live : w'.liveThread t = true
  worked : (w.thread t).Worked (w'.thread t)
  top_eq : (w'.thread t).top = (w.thread t).top + rs.length
  below : forall i, i < (w.thread t).top -> (w'.thread t).slot i = (w.thread t).slot i
  results : (w'.thread t).slots (w.thread t).top rs.length = rs

theorem adjusted_one (rs : List Value) : Protecting.adjusted 1 rs = [rs.headD .nil] := by
  cases rs with
  | nil => rfl
  | cons v rs =>
      show (v :: rs).take 1 ++ List.replicate (1 - (rs.length + 1)) .nil = [v]
      rw [show 1 - (rs.length + 1) = 0 by omega]
      rfl

/-- The end of a call for one result, which takes the place of the function. -/
theorem finished_one {th th' : Thread} {func : Nat} {rs : List Value} (hworked : th.Worked th')
    (hfunc : th.frame.func = func) (hwanted : th.frame.wanted = 1) (hle : func ≤ th.top)
    (htop : th'.top = th.top + rs.length) (hresults : th'.slots th.top rs.length = rs) :
    (th'.finished rs.length).rest = th.rest ∧
      (th'.finished rs.length).frames = th.frames.pop ∧
      (th'.finished rs.length).top = func + 1 ∧
      (th'.finished rs.length).slot func = rs.headD .nil ∧
      forall i, i < func -> (th'.finished rs.length).slot i = th'.slot i := by
  rcases hworked.frame_eq with ⟨n, hframe⟩
  have hmoved : th'.finished rs.length = (th'.movedDown func rs.length 1).popFrame := by
    unfold Thread.finished
    rw [hframe, hfunc, hwanted]
  have hplace : th'.top - rs.length = th.top := by omega
  have hslots : (th'.movedDown func rs.length 1).slots func (Protecting.adjusted 1 rs).length =
      Protecting.adjusted 1 rs :=
    Protecting.slots_movedDown (by omega) (by rw [hplace]; exact hresults) 1
  rw [adjusted_one] at hslots
  rw [hmoved]
  refine ⟨?_, ?_, ?_, ?_, ?_⟩
  · exact (Thread.rest_movedDown th' func rs.length 1).trans hworked.rest_eq
  · show (th'.movedDown func rs.length 1).frames.pop = _
    rw [Thread.frames_movedDown]
    exact hworked.callers_eq
  · exact Protecting.top_movedDown th' func rs.length 1
  · exact (List.cons.inj hslots).1
  · intro i hi
    exact Protecting.slot_movedDown_below th' hi (by omega) 1

/-- Behind a native handler its caller finds its own values again, and takes the first result. -/
theorem returns_handled (host : Host) {args : List Value} {f : Value} {yieldable : Bool} {th : Thread}
    (hlive : w.liveThread t = true) {th₀ : Thread}
    (hopened : (th₀.pushed (f :: args)).Opened th₀.top 1 yieldable th) {rs : List Value} {w' : World}
    (hquiet : th₀.hook.active = false)
    (hanswers : Answers t (w.setThread t th) rs w') :
    exists th₁ th₂, th₀.Unmoved th₂ ∧
      Returns (do
        finishCall host t rs.length
        leaveNesting t yieldable) w' () (w'.setThread t th₁) ∧
      Returns (pop t) (w'.setThread t th₁) (rs.headD .nil) (w'.setThread t th₂) := by
  have hthread : (w.setThread t th).thread t = th := World.thread_setThread hlive th
  have hhandles := hopened.handles
  have hanswered := hanswers.worked
  have htop := hanswers.top_eq
  have hbelow := hanswers.below
  have hresults := hanswers.results
  rw [hthread] at hanswered htop hbelow hresults
  have hwithin := hhandles.top_eq
  have hfunc : th.frame.func = th₀.top := congrArg Frame.func hopened.frame_eq
  have hwanted : th.frame.wanted = 1 := congrArg Frame.wanted hopened.frame_eq
  rcases finished_one hanswered hfunc hwanted (by omega) htop hresults with
    ⟨hrest, hframes, hfirst, hslot, hunder⟩
  -- the end of the call moves the first result into the place of the function, where the caller
  -- takes it
  let th₁ := (w'.thread t).finished rs.length
  have hsilent : (w'.thread t).hook.active = false := by
    rw [hanswered.hook_eq, hhandles.hook_eq]
    exact hquiet
  have hfinish : Returns (finishCall host t rs.length) w' () (w'.setThread t th₁) := by
    refine Returns.bind (returns_thread w' t) ?_
    rw [if_neg (by rw [hsilent]; exact Bool.false_ne_true)]
    exact returns_handOver hanswers.live rs.length
  have hleave := returns_modifyThread (w'.setThread t th₁) t fun th => th.unnested yieldable
  rw [World.thread_setThread hanswers.live, World.setThread_setThread] at hleave
  have hpop : Returns (pop t) (w'.setThread t (th₁.unnested yieldable)) (rs.headD .nil)
      (w'.setThread t ((th₁.unnested yieldable).drop 1)) := by
    have hread := returns_thread (w'.setThread t (th₁.unnested yieldable)) t
    have hdrop := returns_drop (w'.setThread t (th₁.unnested yieldable)) t 1
    rw [World.thread_setThread hanswers.live] at hread hdrop
    rw [World.setThread_setThread] at hdrop
    have hvalue : (th₁.unnested yieldable).slot ((th₁.unnested yieldable).top - 1) = rs.headD .nil := by
      show th₁.slot (th₁.top - 1) = _
      rw [hfirst]
      exact hslot
    rw [← hvalue]
    exact Returns.bind hread (Returns.bind hdrop (Returns.pure _ _))
  refine ⟨th₁.unnested yieldable, (th₁.unnested yieldable).drop 1, ?_,
    Returns.bind hfinish hleave, hpop⟩
  refine ⟨?_, ?_, ?_, fun i hi => ?_⟩
  · show (th₁.unnested yieldable).rest = th₀.rest
    rw [Thread.rest_unnested (hrest.trans hopened.rest_eq), Thread.rest_pushed]
  · show th₁.frames = th₀.frames
    rw [hframes, hopened.frames_eq, Array.pop_push, Thread.frames_pushed]
  · show th₁.top - 1 = th₀.top
    rw [hfirst, Nat.add_sub_cancel]
  · show th₁.slot i = th₀.slot i
    rw [hunder i hi, hbelow i (by omega), hopened.slot_eq, Thread.slot_pushed, if_pos hi]

/-- A native handler answers with its first result, or not at all; it does answer where the native
code returns and one more call is possible. -/
theorem ends_callHandler {fn : Native} {args : List Value} {E E₀ : Engine} (hE : E.Calls host E₀)
    {P : Prop} {Q : Value → World → Prop} (hlive : w.liveThread t = true)
    (hquiet : (w.thread t).hook.active = false)
    (hbody : forall th, (w.thread t).Handles args th ->
      Ends (host.native fn t) E₀ (w.setThread t th)
        (fun n w' => exists rs, rs.length = n ∧ Answers t (w.setThread t th) rs w' ∧
          Q (rs.headD .nil) w')
        fun _ => ¬ P) :
    Ends (callHandler t (.native fn) args) E w
      (fun v w' => exists w₁ th, Q v w₁ ∧ w' = w₁.setThread t th ∧ (w.thread t).Unmoved th)
      fun _ => ¬ (P ∧ (w.thread t).Affords (args.length + 1)) := by
  let th₁ := (w.thread t).pushed (.native fn :: args)
  have htop : Returns (Machine.top t) w (w.thread t).top w := fun _ => rfl
  refine Ends.after htop ?_
  refine Ends.after (returns_pushAll hlive (.native fn :: args)) ?_
  have hthread : (w.setThread t th₁).thread t = th₁ := World.thread_setThread hlive th₁
  have hlive₁ : (w.setThread t th₁).liveThread t = true :=
    (World.liveThread_setThread w t t th₁).trans hlive
  have hread : Returns (mayYield t) (w.setThread t th₁)
      (th₁.frame.isScript && !th₁.frame.hooked) (w.setThread t th₁) := by
    have hframe := returns_frame (w.setThread t th₁) t
    rw [hthread] at hframe
    exact Returns.bind hframe (Returns.pure _ _)
  have hslot : ((w.setThread t th₁).thread t).slot (w.thread t).top = .native fn := by
    rw [hthread, Thread.slot_pushed, if_neg (Nat.lt_irrefl _), Nat.sub_self]
    rfl
  -- the call goes on in the other engine, what follows in the caller's own
  let call (y : Bool) : M Unit := fun E => E.call t (w.thread t).top 1 y
  show Ends (do
    let y ← mayYield t
    call y
    pop t) E (w.setThread t th₁) _ _
  refine Ends.after hread ?_
  generalize (th₁.frame.isScript && !th₁.frame.hooked) = y
  have hcalls : call y E = callFunction host t (w.thread t).top 1 y E₀ := hE _ _ _ _
  have hsilent : ((w.setThread t th₁).thread t).hook.onCall = false := by
    rw [hthread, Thread.hook_pushed]
    exact Hook.onCall_of_inactive hquiet
  rcases callFunction_opens hlive₁ hslot hsilent 1 y with ⟨th, hopened, hrun⟩ | ⟨hno, hfails⟩
  · rw [hthread] at hopened
    rw [World.setThread_setThread] at hrun
    have hends := hbody th hopened.handles
    have hcall := (congrFun hcalls _).trans (hrun E₀)
    unfold Ends at hends
    cases hnative : host.native fn t E₀ (w.setThread t th) with
    | ok n w' =>
        rw [hnative] at hends
        rcases hends with ⟨rs, rfl, hanswers, hQ⟩
        rcases returns_handled host hlive hopened hquiet hanswers with
          ⟨th₂, th₃, hunmoved, hfinish, hpop⟩
        have hreturns : call y E (w.setThread t th₁) = .ok () (w'.setThread t th₂) :=
          hcall.trans (ok_andThen hnative (hfinish _))
        exact ends_of_ok (ok_andThen hreturns (hpop _)) ⟨w', th₃, hQ, rfl, hunmoved⟩
    | error r w' =>
        rw [hnative] at hends
        have hfailed : call y E (w.setThread t th₁) = .error r w' :=
          hcall.trans (bind_of_error hnative _)
        exact ends_of_error (bind_of_error hfailed _) fun h => hends h.1
  · rw [hthread, Thread.affords_pushed, Nat.zero_add] at hno
    rcases hfails E₀ with ⟨r, w', hfails⟩
    have hfailed : call y E (w.setThread t th₁) = .error r w' := (congrFun hcalls _).trans hfails
    exact ends_of_error (bind_of_error hfailed _) fun h => hno h.2

end Machine

end LuaHost
