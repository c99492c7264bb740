import LuaHost.Machine.Engine
import LuaHost.Proofs.Interface.Working

/-!
# Instructions, step by step

Native code that calls a script function opens a frame for it, in which the
machine carries out one instruction after the other until the function returns.
As long as no hook is told of it, nothing below the function changes, and nothing
about the thread but its stack and its calls.
-/

namespace LuaHost

/-- The frame of a variadic function that has moved above `k` arguments. -/
def Frame.spread (f : Frame) (k : Nat) : Frame :=
  { f with extraArgs := k, func := f.func + k + 1, top := f.top + k + 1 }

/-- The frame of a variadic function that has moved back to where it was called. -/
def Frame.gathered (f : Frame) (k : Nat) : Frame := { f with func := f.func - (f.extraArgs + k) }

namespace Thread

/-!
# Threads in a call
-/

/-- The thread is in a call in the frame `f`, which `th₀` has begun. -/
structure Executing (n : Nat) (th₀ : Thread) (f : Frame) (th : Thread) : Prop
    extends Steady n th₀ th where
  frames_eq : th.frames = th₀.frames.push f

variable {n : Nat} {th₀ th th' : Thread} {f : Frame}

theorem frames_grown (th : Thread) (k : Nat) : (th.grown k).frames = th.frames := by
  rw [grown_eq]
  rfl

theorem frames_push (th : Thread) (v : Value) : (th.push v).frames = th.frames :=
  frames_setSlot th th.top v

namespace Executing

theorem frame_eq (h : Executing n th₀ f th) : th.frame = f := by
  unfold frame
  rw [h.frames_eq, Array.back?_push]
  rfl

theorem steps (h : Executing n th₀ f th) (hsteady : th.Steady n th') (hframes : th'.frames = th.frames) :
    Executing n th₀ f th' :=
  ⟨h.toSteady.trans hsteady, hframes.trans h.frames_eq⟩

theorem setSlot (h : Executing n th₀ f th) {i : Nat} (hi : n ≤ i) (v : Value) :
    Executing n th₀ f (th.setSlot i v) :=
  h.steps (steady_setSlot th hi v) (frames_setSlot th i v)

theorem withTop (h : Executing n th₀ f th) (m : Nat) : Executing n th₀ f (th.withTop m) :=
  h.steps (steady_withTop n th m) rfl

theorem push (h : Executing n th₀ f th) (hn : n ≤ th.top) (v : Value) :
    Executing n th₀ f (th.push v) :=
  h.steps (steady_push th hn v) (frames_push th v)

theorem grown (h : Executing n th₀ f th) {k : Nat} (hready : th.Ready k) :
    Executing n th₀ f (th.grown k) :=
  h.steps (steady_grown n hready) (frames_grown th k)

theorem modifyFrame (h : Executing n th₀ f th) (g : Frame → Frame) :
    Executing n th₀ (g f) (th.modifyFrame g) := by
  refine ⟨h.toSteady.trans (steady_modifyFrame n th g), ?_⟩
  show th.frames.modify (th.frames.size - 1) g = _
  rw [h.frames_eq, Array.size_push, Nat.add_sub_cancel]
  apply Array.ext_getElem?
  intro i
  rw [Array.getElem?_modify, Array.getElem?_push, Array.getElem?_push]
  by_cases hi : th₀.frames.size = i
  · rw [if_pos hi, if_pos hi.symm, if_pos hi.symm]
    rfl
  · rw [if_neg hi, if_neg (Ne.symm hi), if_neg (Ne.symm hi)]

/-- A call that is at its end for no results: its caller goes on. -/
theorem finished (h : Executing n th₀ f th) (hwanted : f.wanted = 0) :
    th₀.Steady n (th.finished 0) ∧ (th.finished 0).frames = th₀.frames ∧
      (th.finished 0).top = f.func := by
  have hmoved : th.movedDown f.func 0 0 = th.withTop f.func := by
    unfold movedDown
    rw [if_neg (by decide)]
    rfl
  unfold Thread.finished
  rw [h.frame_eq, hwanted, hmoved]
  refine ⟨h.toSteady.trans ⟨rfl, rfl, fun _ _ => rfl⟩, ?_, rfl⟩
  show th.frames.pop = _
  rw [h.frames_eq, Array.pop_push]

end Executing

theorem executing_entering (n : Nat) {func : Nat} {wanted : Int} (h : th.Ready minStack) :
    Executing n th { kind := .native, func, top := th.top + minStack, wanted }
      (th.entering func wanted) := by
  refine ⟨(steady_grown n h).trans (steady_pushFrame n _ _), ?_⟩
  show (th.grown minStack).frames.push _ = _
  rw [frames_grown]

/-- The thread in the frame of a script function without parameters, which native code has called. -/
def opening (th : Thread) (p : Prototype) (c : ClosureId) (func : Nat) (wanted : Int) : Thread :=
  ((th.grown p.maxStack).pushFrame
    { kind := .script p c, func, top := func + 1 + p.maxStack, wanted }).modifyFrame
      fun f => { f with fresh := true }

/-- The thread at the next instruction. -/
def advanced (th : Thread) : Thread := th.modifyFrame fun f => { f with pc := f.pc + 1 }

/-- The thread whose running call has moved above its arguments. -/
def spread (th : Thread) (base : Nat) : Thread :=
  (th.push (th.slot (base - 1))).modifyFrame (·.spread (th.top - base))

namespace Executing

theorem advanced (h : Executing n th₀ f th) :
    Executing n th₀ { f with pc := f.pc + 1 } th.advanced :=
  h.modifyFrame fun f => { f with pc := f.pc + 1 }

theorem spread (h : Executing n th₀ f th) (hn : n ≤ th.top) (base : Nat) :
    Executing n th₀ (f.spread (th.top - base)) (th.spread base) :=
  (h.push hn _).modifyFrame (·.spread (th.top - base))

end Executing

end Thread

namespace Machine

variable {host : Host} {w w' : World} {t : ThreadId} {p : Prototype} {c : ClosureId} {s : Site}

/-!
# Instructions
-/

/-- The instruction at which the running call is. -/
def Site.of (f : Frame) (p : Prototype) (c : ClosureId) : Site :=
  { p, self := c, base := f.func + 1, limit := f.top, pc := f.pc, i := p.instruction f.pc }

theorem returns_step (hquiet : (w.thread t).hook.active = false)
    (hkind : (w.thread t).frame.kind = .script p c) {go : Bool}
    (hperform : Returns ((Site.of (w.thread t).frame p c).perform host t)
      (w.setThread t (w.thread t).advanced) go w') : Returns (step host t) w go w' := by
  have hfetch : Returns (fetch t) w (some (Site.of (w.thread t).frame p c))
      (w.setThread t (w.thread t).advanced) := by
    refine Returns.bind (returns_frame w t) ?_
    rw [hkind]
    exact Returns.bind (returns_modifyThread w t _) (Returns.pure _ _)
  refine Returns.bind (returns_thread w t) ?_
  rw [if_neg (by rw [hquiet]; exact Bool.false_ne_true)]
  exact Returns.bind hfetch hperform

namespace Site

theorem returns_loadK (hop : s.i.opcode = .loadK) :
    Returns (s.perform host t) w true
      (w.setThread t ((w.thread t).setSlot (s.base + s.a) (s.p.constant s.i.bx))) := by
  unfold perform
  simp only [hop]
  exact Returns.bind (returns_modifyThread w t _) (Returns.pure _ _)

theorem returns_getTabUp (hop : s.i.opcode = .getTabUp) {ups : Array UpvalueId} {g : TableId}
    {v : Value} (hself : w.heap.closures.get s.self.index = .script p ups)
    (hup : w.heap.upvalues.get (ups.getD s.b default).index = .closed (.table g))
    (hget : (w.heap.tables.get g.index).get (s.p.constant s.c) = v) (hv : v.isNil = false) :
    Returns (s.perform host t) w true (w.setThread t ((w.thread t).setSlot (s.base + s.a) v)) := by
  have hclosure : Returns (closure s.self) w (.script p ups) w := by
    rw [← hself]
    exact fun _ => rfl
  have hups : Returns (upvalueOf s.self s.b) w (ups.getD s.b default) w :=
    Returns.bind (Returns.bind hclosure (Returns.pure ups w)) (Returns.pure _ w)
  have hopened : Returns (upvalue (ups.getD s.b default)) w (.closed (.table g)) w := by
    rw [← hup]
    exact fun _ => rfl
  have hread : Returns (readUpvalue (ups.getD s.b default)) w (.table g) w :=
    Returns.bind hopened (Returns.pure _ w)
  have hplain : Returns (plainIndex (.table g) (s.p.constant s.c)) w v w := by
    rw [← hget]
    exact fun _ => rfl
  have hfield : Returns (s.readField t (.table g) (s.p.constant s.c) (.upvalue s.b)) w ()
      (w.setThread t ((w.thread t).setSlot (s.base + s.a) v)) := by
    refine Returns.bind hplain ?_
    rw [if_neg (by rw [hv]; exact Bool.false_ne_true)]
    exact returns_modifyThread w t _
  unfold perform
  simp only [hop]
  exact Returns.bind (Returns.bind hups (Returns.bind hread hfield)) (Returns.pure _ _)

/-- A variadic function without parameters moves above its arguments. -/
theorem returns_varargPrep (hop : s.i.opcode = .varargPrep) (hnone : s.a = 0)
    (hlive : w.liveThread t = true) (hquiet : (w.thread t).hook.active = false)
    (hready : (w.thread t).Ready (s.p.maxStack + 1)) (hsmall : s.p.maxStack + 1 < maxStack) :
    Returns (s.perform host t) w true
      (w.setThread t (((w.thread t).grown (s.p.maxStack + 1)).spread s.base)) := by
  let th := (w.thread t).grown (s.p.maxStack + 1)
  have hthread (th' : Thread) : (w.setThread t th').thread t = th' := World.thread_setThread hlive th'
  have hadjust : Returns (s.adjustVarargs t) w () (w.setThread t (th.spread s.base)) := by
    refine Returns.bind (returns_top w t) (Returns.bind (returns_needStack hready hsmall) ?_)
    rw [hnone]
    refine returns_modifyThread_into ?_
    unfold Thread.spread
    rw [Thread.top_grown]
    rfl
  have hsilent : ¬ (th.spread s.base).hook.active = true := by
    rw [show (th.spread s.base).hook = (w.thread t).hook from
      (((Thread.steady_grown 0 hready).trans (Thread.steady_push th (Nat.zero_le _) _)).trans
        (Thread.steady_modifyFrame 0 _ _)).hook_eq, hquiet]
    exact Bool.false_ne_true
  unfold perform
  simp only [hop]
  refine Returns.bind (a := ()) (Returns.bind hadjust (Returns.bind (returns_thread _ t) ?_))
    (Returns.pure _ _)
  rw [hthread, if_neg hsilent]
  exact Returns.pure () _

end Site

/-!
# Returns
-/

theorem returns_finishCall_quiet (host : Host) (hlive : w.liveThread t = true)
    (hquiet : (w.thread t).hook.active = false) (n : Nat) :
    Returns (finishCall host t n) w () (w.setThread t ((w.thread t).finished n)) := by
  refine Returns.bind (returns_thread w t) ?_
  rw [if_neg (by rw [hquiet]; exact Bool.false_ne_true)]
  exact returns_handOver hlive n

theorem Site.returns_finish (host : Host) (hlive : w.liveThread t = true) (hquiet : (w.thread t).hook.active = false)
    (first n : Nat) :
    Returns (finish host t first n) w (!(w.thread t).frame.fresh)
      (w.setThread t (((w.thread t).withTop (first + n)).finished n)) := by
  let th := (w.thread t).withTop (first + n)
  have hthread : (w.setThread t th).thread t = th := World.thread_setThread hlive th
  have hlive' : (w.setThread t th).liveThread t = true :=
    (World.liveThread_setThread w t t th).trans hlive
  have hframe := returns_frame (w.setThread t th) t
  have hfinish := returns_finishCall_quiet host hlive' (by rw [hthread]; exact hquiet) n
  rw [hthread] at hframe hfinish
  rw [World.setThread_setThread] at hfinish
  exact Returns.bind (returns_modifyThread w t _)
    (Returns.bind hframe (Returns.bind hfinish (Returns.pure _ _)))

namespace Site

/-- A variadic function moves back to where it was called, and returns without results. -/
theorem returns_ret (hop : s.i.opcode = .ret) (hnone : s.b = 1) (hplain : s.i.k = false)
    (hvararg : s.c ≠ 0) (hlive : w.liveThread t = true)
    (hquiet : (w.thread t).hook.active = false) {th : Thread}
    (hth : th = (w.thread t).modifyFrame (·.gathered s.c)) :
    Returns (s.perform host t) w (!th.frame.fresh)
      (w.setThread t ((th.withTop (s.base + s.a)).finished 0)) := by
  have hthread : (w.setThread t th).thread t = th := World.thread_setThread hlive th
  have hlive' : (w.setThread t th).liveThread t = true :=
    (World.liveThread_setThread w t t th).trans hlive
  have hfinish := returns_finish host hlive' (by rw [hthread, hth]; exact hquiet)
    (s.base + s.a) 0
  rw [hthread, World.setThread_setThread] at hfinish
  unfold perform
  simp only [hop]
  unfold returnMany
  rw [hnone, hplain]
  refine Returns.bind (Returns.pure _ w) ?_
  dsimp only
  rw [if_neg Bool.false_ne_true, if_pos (bne_iff_ne.mpr hvararg)]
  exact Returns.bind (Interface.returns_modifyThread_eq hth.symm) hfinish

end Site

/-!
# Calls
-/

theorem returns_callNative {fn : Native} {func n : Nat} {wanted : Int}
    (hlive : w.liveThread t = true) (hready : (w.thread t).Ready minStack)
    (hquiet : (w.thread t).hook.active = false)
    (hbody : Returns (host.native fn t) (w.setThread t ((w.thread t).entering func wanted)) n w')
    (hlive' : w'.liveThread t = true) (hquiet' : (w'.thread t).hook.active = false) :
    Returns (callNative host t func wanted fn) w n (w'.setThread t ((w'.thread t).finished n)) := by
  intro E
  refine (callNative_eq hlive hready (Hook.onCall_of_inactive hquiet) func wanted fn).trans ?_
  exact ok_andThen (hbody E) ((returns_finishCall_quiet host hlive' hquiet' n).andThen rfl)

/-- The running function calls a native one for no results. -/
theorem Site.returns_call {fn : Native} (hop : s.i.opcode = .call) (hargs : s.b ≠ 0)
    (hwanted : s.c = 1) (hlive : w.liveThread t = true)
    (hslot : (w.thread t).slot (s.base + s.a) = .native fn)
    (hready : ((w.thread t).withTop (s.base + s.a + s.b)).Ready minStack)
    (hquiet : (w.thread t).hook.active = false)
    (hbody : Returns (host.native fn t)
      (w.setThread t (((w.thread t).withTop (s.base + s.a + s.b)).entering (s.base + s.a) 0)) 0 w')
    (hlive' : w'.liveThread t = true) (hquiet' : (w'.thread t).hook.active = false) :
    Returns (s.perform host t) w true (w'.setThread t ((w'.thread t).finished 0)) := by
  let th := (w.thread t).withTop (s.base + s.a + s.b)
  have hthread : (w.setThread t th).thread t = th := World.thread_setThread hlive th
  have hlive₁ : (w.setThread t th).liveThread t = true :=
    (World.liveThread_setThread w t t th).trans hlive
  have hcall : Returns (callNative host t (s.base + s.a) 0 fn) (w.setThread t th) 0
      (w'.setThread t ((w'.thread t).finished 0)) := by
    refine returns_callNative hlive₁ (by rw [hthread]; exact hready) (by rw [hthread]; exact hquiet)
      ?_ hlive' hquiet'
    rw [hthread, World.setThread_setThread]
    exact hbody
  have hbegin : Returns (beginCall host t (s.base + s.a) ((s.c : Int) - 1)) (w.setThread t th) false
      (w'.setThread t ((w'.thread t).finished 0)) := by
    rw [hwanted]
    intro E
    exact (beginCall_light (by rw [hthread]; exact hslot) 0).trans (hcall.andThen rfl)
  unfold perform
  simp only [hop]
  refine Returns.bind (a := ()) ?_ (Returns.pure _ _)
  unfold callRegister
  rw [if_pos (bne_iff_ne.mpr hargs)]
  refine Returns.bind (returns_modifyThread w t _) (Returns.bind hbegin ?_)
  rw [if_neg Bool.false_ne_true]
  exact Returns.pure () _

/-!
# Statements
-/

/-- Code that does nothing but call a global function with one value, for no results: this is what a
chunk with such a statement is compiled to. -/
structure Invokes (p : Prototype) (name : Bytes) (v : Value) : Prop where
  parameters_eq : p.parameters = 0
  maxStack_le : p.maxStack ≤ minStack
  prepares : (p.instruction 0).opcode = .varargPrep ∧ (p.instruction 0).a = 0
  reads : (p.instruction 1).opcode = .getTabUp ∧ (p.instruction 1).a = 0 ∧
    (p.instruction 1).b = 0 ∧ p.constant (p.instruction 1).c = .str name
  loads : (p.instruction 2).opcode = .loadK ∧ (p.instruction 2).a = 1 ∧
    p.constant (p.instruction 2).bx = v
  calls : (p.instruction 3).opcode = .call ∧ (p.instruction 3).a = 0 ∧ (p.instruction 3).b = 2 ∧
    (p.instruction 3).c = 1
  returns : (p.instruction 4).opcode = .ret ∧ (p.instruction 4).a = 0 ∧ (p.instruction 4).b = 1 ∧
    (p.instruction 4).c = 1 ∧ (p.instruction 4).k = false

instance (p : Prototype) (name : Bytes) (v : Value) : Decidable (Invokes p name v) :=
  decidable_of_iff (p.parameters = 0 ∧ p.maxStack ≤ minStack ∧
    ((p.instruction 0).opcode = .varargPrep ∧ (p.instruction 0).a = 0) ∧
    ((p.instruction 1).opcode = .getTabUp ∧ (p.instruction 1).a = 0 ∧
      (p.instruction 1).b = 0 ∧ p.constant (p.instruction 1).c = .str name) ∧
    ((p.instruction 2).opcode = .loadK ∧ (p.instruction 2).a = 1 ∧
      p.constant (p.instruction 2).bx = v) ∧
    ((p.instruction 3).opcode = .call ∧ (p.instruction 3).a = 0 ∧ (p.instruction 3).b = 2 ∧
      (p.instruction 3).c = 1) ∧
    ((p.instruction 4).opcode = .ret ∧ (p.instruction 4).a = 0 ∧ (p.instruction 4).b = 1 ∧
      (p.instruction 4).c = 1 ∧ (p.instruction 4).k = false))
    ⟨fun ⟨h₁, h₂, h₃, h₄, h₅, h₆, h₇⟩ => ⟨h₁, h₂, h₃, h₄, h₅, h₆, h₇⟩,
      fun ⟨h₁, h₂, h₃, h₄, h₅, h₆, h₇⟩ => ⟨h₁, h₂, h₃, h₄, h₅, h₆, h₇⟩⟩

/-- The closure finds a native function in its table of globals. -/
def Finds (w : World) (p : Prototype) (c : ClosureId) (name : Bytes) (fn : Native) : Prop :=
  exists ups g, w.heap.closures.get c.index = .script p ups ∧
    w.heap.upvalues.get (ups.getD 0 default).index = .closed (.table g) ∧
    (w.heap.tables.get g.index).get (.str name) = .native fn

/-- The world `w₀` with its thread in a call in the frame `f`, with some values in the registers. -/
structure Executes (w₀ : World) (t : ThreadId) (n : Nat) (th₀ : Thread) (f : Frame)
    (registers : List Value) (w : World) : Prop where
  live : w₀.liveThread t = true
  rest_eq : w = w₀.setThread t (w.thread t)
  executing : Thread.Executing n th₀ f (w.thread t)
  register_eq : forall k v, registers[k]? = some v -> (w.thread t).slot (f.func + 1 + k) = v

section Statement

variable {name : Bytes} {v : Value} {fn : Native} {w₀ : World} {n : Nat} {th₀ th : Thread}
  {f : Frame} {registers : List Value}

namespace Executes

theorem liveThread (h : Executes w₀ t n th₀ f registers w) : w.liveThread t = true := by
  rw [h.rest_eq, World.liveThread_setThread]
  exact h.live

theorem silent (h : Executes w₀ t n th₀ f registers w) (hquiet : th₀.hook.active = false) :
    (w.thread t).hook.active = false := by
  rw [h.executing.hook_eq]
  exact hquiet

theorem changes (h : Executes w₀ t n th₀ f registers w) {f' : Frame} {registers' : List Value}
    (hexecuting : Thread.Executing n th₀ f' th)
    (hregister : forall k v, registers'[k]? = some v -> th.slot (f'.func + 1 + k) = v) :
    Executes w₀ t n th₀ f' registers' (w.setThread t th) := by
  have hthread := World.thread_setThread h.liveThread th
  refine ⟨h.live, ?_, ?_, ?_⟩
  · rw [hthread, h.rest_eq, World.setThread_setThread]
  · rw [hthread]
    exact hexecuting
  · rw [hthread]
    exact hregister

theorem finds (h : Executes w₀ t n th₀ f registers w) (hfinds : Finds w₀ p c name fn) :
    Finds w p c name fn := by
  rw [h.rest_eq]
  exact hfinds

theorem put (h : Executes w₀ t n th₀ f registers w) (hfunc : n ≤ f.func) (v : Value) :
    Executes w₀ t n th₀ f (registers ++ [v])
      (w.setThread t ((w.thread t).setSlot (f.func + 1 + registers.length) v)) := by
  refine h.changes (h.executing.setSlot (by omega) v) fun k u hu => ?_
  rw [Thread.slot_setSlot]
  rw [List.getElem?_append] at hu
  split at hu
  · rw [if_neg (by omega)]
    exact h.register_eq k u hu
  · rcases List.getElem?_eq_some_iff.mp hu with ⟨hk, rfl⟩
    rw [List.length_singleton] at hk
    rw [if_pos (by omega), List.getElem_singleton]

theorem advanced (h : Executes w₀ t n th₀ f registers w) :
    Executes w₀ t n th₀ { f with pc := f.pc + 1 } registers (w.setThread t (w.thread t).advanced) :=
  h.changes h.executing.advanced h.register_eq

theorem step (h : Executes w₀ t n th₀ f registers w) (hquiet : th₀.hook.active = false)
    (hkind : f.kind = .script p c) {go : Bool}
    (hperform : Returns ((Site.of f p c).perform host t)
      (w.setThread t (w.thread t).advanced) go w') : Returns (step host t) w go w' := by
  have hframe := h.executing.frame_eq
  refine returns_step (h.silent hquiet) (hframe.symm ▸ hkind) ?_
  rw [hframe]
  exact hperform

/-- The function moves above its arguments, of which there are none. -/
theorem prepares (h : Executes w₀ t n th₀ f [] w) (hp : Invokes p name v)
    (hquiet : th₀.hook.active = false) (hkind : f.kind = .script p c) (hpc : f.pc = 0)
    (hfunc : f.func = n) (htop : (w.thread t).top = n + 1) (hroom : n + 3 * minStack ≤ th₀.limit) :
    exists w', Returns (Machine.step host t) w true w' ∧
      Executes w₀ t n th₀ ({ f with pc := 1 }.spread 0) [] w' := by
  have hnext := h.advanced
  have hthread := World.thread_setThread h.liveThread (w.thread t).advanced
  have hhigh : (w.thread t).advanced.top = n + 1 := htop
  have hsmall := hp.maxStack_le
  have hready : (w.thread t).advanced.Ready (p.maxStack + 1) := by
    refine Thread.ready_iff.mpr ?_
    rw [h.executing.advanced.limit_eq, hhigh]
    unfold minStack at *
    omega
  have hspread := (h.executing.advanced.grown hready).spread
    (by rw [Thread.top_grown, hhigh]; omega) (n + 1)
  rw [Thread.top_grown, hhigh, Nat.sub_self, hpc] at hspread
  have hi : (Site.of f p c).i = p.instruction 0 := congrArg p.instruction hpc
  have hprep : Returns ((Site.of f p c).perform host t) _ true _ :=
    Site.returns_varargPrep (by rw [hi]; exact hp.prepares.1)
      (by unfold Site.a; rw [hi]; exact hp.prepares.2) hnext.liveThread (hnext.silent hquiet)
      (by rw [hthread]; exact hready)
      (show p.maxStack + 1 < maxStack by unfold minStack maxStack at *; omega)
  rw [hthread, show (Site.of f p c).base = n + 1 from congrArg (· + 1) hfunc] at hprep
  exact ⟨_, h.step hquiet hkind hprep, hnext.changes hspread nofun⟩

theorem reads (h : Executes w₀ t n th₀ f [] w) (hp : Invokes p name v)
    (hquiet : th₀.hook.active = false) (hkind : f.kind = .script p c) (hpc : f.pc = 1)
    (hfunc : n ≤ f.func) (hfinds : Finds w₀ p c name fn) :
    exists w', Returns (Machine.step host t) w true w' ∧
      Executes w₀ t n th₀ { f with pc := 2 } [.native fn] w' := by
  have hnext := h.advanced
  rw [hpc] at hnext
  have hi : (Site.of f p c).i = p.instruction 1 := congrArg p.instruction hpc
  rcases hp.reads with ⟨hop, ha, hb, hname⟩
  rcases hnext.finds hfinds with ⟨ups, g, hself, hup, hget⟩
  have hkey : (Site.of f p c).p.constant (Site.of f p c).c = .str name := by
    unfold Site.c
    rw [hi]
    exact hname
  have hread : Returns ((Site.of f p c).perform host t) (w.setThread t (w.thread t).advanced) true _ :=
    Site.returns_getTabUp (v := .native fn) (by rw [hi]; exact hop) hself (by unfold Site.b; rw [hi, hb]; exact hup)
      (by rw [hkey, hget]) rfl
  rw [show (Site.of f p c).a = 0 by unfold Site.a; rw [hi]; exact ha] at hread
  exact ⟨_, h.step hquiet hkind hread, hnext.put hfunc (.native fn)⟩

theorem loads {u : Value} (h : Executes w₀ t n th₀ f [u] w) (hp : Invokes p name v)
    (hquiet : th₀.hook.active = false) (hkind : f.kind = .script p c) (hpc : f.pc = 2)
    (hfunc : n ≤ f.func) :
    exists w', Returns (Machine.step host t) w true w' ∧
      Executes w₀ t n th₀ { f with pc := 3 } [u, v] w' := by
  have hnext := h.advanced
  rw [hpc] at hnext
  have hi : (Site.of f p c).i = p.instruction 2 := congrArg p.instruction hpc
  rcases hp.loads with ⟨hop, ha, hconstant⟩
  have hload : Returns ((Site.of f p c).perform host t) (w.setThread t (w.thread t).advanced) true _ :=
    Site.returns_loadK (by rw [hi]; exact hop)
  rw [show (Site.of f p c).a = 1 by unfold Site.a; rw [hi]; exact ha,
    show (Site.of f p c).p.constant (Site.of f p c).i.bx = v by rw [hi]; exact hconstant] at hload
  exact ⟨_, h.step hquiet hkind hload, hnext.put hfunc v⟩

theorem shows_entering {base : Nat} (hready : (th.withTop (base + 2)).Ready minStack)
    (hslot : th.slot (base + 1) = v) :
    ((th.withTop (base + 2)).entering base 0).Shows (base + 1) [v] := by
  have hentering : Thread.Executing 0 _ { kind := .native, func := base, top := _, wanted := 0 }
      ((th.withTop (base + 2)).entering base 0) := Thread.executing_entering 0 hready
  refine ⟨?_, ?_, fun k u hu => ?_⟩
  · unfold Thread.base
    rw [hentering.frame_eq]
  · exact Thread.top_grown (th.withTop (base + 2)) minStack
  · rw [Thread.slot_entering]
    rcases List.getElem?_eq_some_iff.mp hu with ⟨hk, rfl⟩
    cases k with
    | zero => exact hslot
    | succ k => exact absurd hk (Nat.not_lt_of_le (Nat.succ_le_succ (Nat.zero_le k)))

theorem calls {said : World} (h : Executes w₀ t n th₀ f [.native fn, v] w) (hp : Invokes p name v)
    (hquiet : th₀.hook.active = false) (hkind : f.kind = .script p c) (hpc : f.pc = 3)
    (hfunc : f.func = n + 1) (hroom : n + 3 * minStack ≤ th₀.limit) (hsaid : said.liveThread t = true)
    (hbody : forall th base, th.Shows base [v] ->
      Returns (host.native fn t) (w₀.setThread t th) 0 (said.setThread t th)) :
    exists w', Returns (Machine.step host t) w true w' ∧
      Executes said t n th₀ { f with pc := 4 } [] w' := by
  have hnext := h.advanced
  rw [hpc] at hnext
  have hi : (Site.of f p c).i = p.instruction 3 := congrArg p.instruction hpc
  rcases hp.calls with ⟨hop, ha, hb, hc⟩
  have hplace : (Site.of f p c).base + (Site.of f p c).a = f.func + 1 := by
    unfold Site.a
    rw [hi, ha]
    rfl
  have htwo : (Site.of f p c).b = 2 := by
    unfold Site.b
    rw [hi]
    exact hb
  have hstep : forall {w'}, Returns ((Site.of f p c).perform host t) _ true w' -> _ :=
    fun hperform => h.step hquiet hkind hperform
  -- the call is made from behind its own instruction
  generalize w.setThread t (w.thread t).advanced = w₁ at hnext hstep
  let th := ((w₁.thread t).withTop (f.func + 1 + 2)).entering (f.func + 1) 0
  have hready : ((w₁.thread t).withTop (f.func + 1 + 2)).Ready minStack := by
    refine Thread.ready_iff.mpr ?_
    rw [(hnext.executing.withTop (f.func + 1 + 2)).limit_eq]
    show f.func + 1 + 2 + minStack ≤ _
    unfold minStack at *
    omega
  have hentering : Thread.Executing n _ { kind := .native, func := f.func + 1, top := _, wanted := 0 }
      th := Thread.executing_entering n hready
  have hbegun := hnext.executing.withTop (f.func + 1 + 2)
  have hthread : (said.setThread t th).thread t = th := World.thread_setThread hsaid th
  have hslot : (w₁.thread t).slot ((Site.of f p c).base + (Site.of f p c).a) = .native fn := by
    rw [hplace]
    exact hnext.register_eq 0 _ rfl
  have hcall : Returns ((Site.of f p c).perform host t) w₁ true
      ((said.setThread t th).setThread t (((said.setThread t th).thread t).finished 0)) := by
    refine Site.returns_call (by rw [hi]; exact hop) (by rw [htwo]; decide)
      (by unfold Site.c; rw [hi, hc]) hnext.liveThread hslot ?_ (hnext.silent hquiet) ?_
      ((World.liveThread_setThread said t t th).trans hsaid) ?_
    · rw [hplace, htwo]
      exact hready
    · rw [hplace, htwo, hnext.rest_eq, World.setThread_setThread, ← hnext.rest_eq]
      exact hbody th _ (shows_entering hready (hnext.register_eq 1 v rfl))
    · rw [hthread, hentering.hook_eq, hbegun.hook_eq]
      exact hquiet
  rw [hthread, World.setThread_setThread] at hcall
  rcases hentering.finished rfl with ⟨hsteady, hframes, _⟩
  have hback := World.thread_setThread hsaid (th.finished 0)
  refine ⟨_, hstep hcall, hsaid, by rw [hback], ?_, nofun⟩
  rw [hback]
  exact hbegun.steps hsteady hframes

theorem returns (h : Executes w₀ t n th₀ f [] w) (hp : Invokes p name v)
    (hquiet : th₀.hook.active = false) (hkind : f.kind = .script p c) (hpc : f.pc = 4)
    (hfunc : f.func = n + 1) (hextra : f.extraArgs = 0) (hfresh : f.fresh = true)
    (hwanted : f.wanted = 0) :
    exists th, Returns (Machine.step host t) w false (w₀.setThread t th) ∧ th₀.Steady n th ∧
      th.frames = th₀.frames ∧ th.top = n := by
  have hnext := h.advanced
  have hi : (Site.of f p c).i = p.instruction 4 := congrArg p.instruction hpc
  rcases hp.returns with ⟨hop, ha, hb, hc, hk⟩
  have hthread := World.thread_setThread h.liveThread (w.thread t).advanced
  let th := (w.thread t).advanced.modifyFrame (·.gathered 1)
  have hgathered : Thread.Executing n th₀ ({ f with pc := f.pc + 1 }.gathered 1) th :=
    h.executing.advanced.modifyFrame (·.gathered 1)
  have hret : Returns ((Site.of f p c).perform host t) (w.setThread t (w.thread t).advanced)
      (!th.frame.fresh) _ :=
    Site.returns_ret (by rw [hi]; exact hop) (by unfold Site.b; rw [hi]; exact hb)
      (by rw [hi]; exact hk) (by unfold Site.c; rw [hi, hc]; decide) hnext.liveThread
      (hnext.silent hquiet) (by rw [hthread]; unfold Site.c; rw [hi, hc])
  have hgo : (!th.frame.fresh) = false := by
    rw [hgathered.frame_eq]
    show (!f.fresh) = false
    rw [hfresh]
    rfl
  rw [World.setThread_setThread, hgo] at hret
  rcases (hgathered.withTop ((Site.of f p c).base + (Site.of f p c).a)).finished hwanted with
    ⟨hsteady, hframes, htop⟩
  refine ⟨_, ?_, hsteady, hframes, ?_⟩
  · have hrun := h.step hquiet hkind hret
    rw [h.rest_eq, World.setThread_setThread, ← h.rest_eq] at hrun
    exact hrun
  · rw [htop]
    show f.func - (f.extraArgs + 1) = n
    omega

end Executes

end Statement

end Machine

end LuaHost
