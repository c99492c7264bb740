import LuaHost.Proofs.Interface.Balance
import LuaHost.Proofs.Interface.Handling
import LuaHost.Proofs.Interface.Standing

/-!
# Work on a stack

What a computation does to the thread in which it works is a relation between
the thread before and after it.  An operation on the stack changes nothing about
the thread but its stack, and how far up the running call reaches.
-/

namespace LuaHost

namespace Thread

/-- A thread that goes on with other values from slot `n` on, and with other calls: nothing else has
changed about it. -/
structure Steady (n : Nat) (th th' : Thread) : Prop where
  rest_eq : th'.rest = th.rest
  limit_eq : th'.limit = th.limit
  slot_eq : forall i, i < n -> th'.slot i = th.slot i

variable {n : Nat} {th th' th'' : Thread}

theorem Steady.refl (n : Nat) (th : Thread) : th.Steady n th := ⟨rfl, rfl, fun _ _ => rfl⟩

theorem Steady.trans (h : th.Steady n th') (h' : th'.Steady n th'') : th.Steady n th'' :=
  ⟨h'.rest_eq.trans h.rest_eq, h'.limit_eq.trans h.limit_eq,
    fun i hi => (h'.slot_eq i hi).trans (h.slot_eq i hi)⟩

theorem Steady.mono {m : Nat} (h : th.Steady n th') (hm : m ≤ n) : th.Steady m th' :=
  ⟨h.rest_eq, h.limit_eq, fun i hi => h.slot_eq i (Nat.lt_of_lt_of_le hi hm)⟩

theorem Steady.hook_eq (h : th.Steady n th') : th'.hook = th.hook := by
  have hrest := congrArg Thread.hook h.rest_eq
  exact hrest

theorem Steady.nesting_eq (h : th.Steady n th') : th'.nesting = th.nesting := by
  have hrest := congrArg Thread.nesting h.rest_eq
  exact hrest

theorem steady_setSlot (th : Thread) {i : Nat} (h : n ≤ i) (v : Value) :
    th.Steady n (th.setSlot i v) := by
  refine ⟨rest_setSlot th i v, limit_congr (room_setSlot th i v), fun j hj => ?_⟩
  rw [slot_setSlot, if_neg (by omega)]

theorem steady_withTop (n : Nat) (th : Thread) (m : Nat) : th.Steady n (th.withTop m) :=
  ⟨rfl, rfl, fun _ _ => rfl⟩

theorem steady_push (th : Thread) (h : n ≤ th.top) (v : Value) : th.Steady n (th.push v) :=
  (steady_setSlot th h v).trans (steady_withTop n _ _)

theorem steady_putSlots (vs : List Value) :
    forall (th : Thread) {i : Nat}, n ≤ i -> th.Steady n (th.putSlots i vs) := by
  induction vs with
  | nil => exact fun th _ _ => Steady.refl n th
  | cons v vs ih => exact fun th _ hi => (steady_setSlot th hi v).trans (ih _ (Nat.le_succ_of_le hi))

theorem steady_modifyFrame (n : Nat) (th : Thread) (g : Frame → Frame) :
    th.Steady n (th.modifyFrame g) :=
  ⟨rfl, rfl, fun _ _ => rfl⟩

theorem steady_pushFrame (n : Nat) (th : Thread) (f : Frame) : th.Steady n (th.pushFrame f) :=
  ⟨rfl, rfl, fun _ _ => rfl⟩

theorem limit_grown {k : Nat} (h : th.Ready k) : (th.grown k).limit = th.limit := by
  unfold grown
  split
  · next hfull =>
      rcases h with hroom | hroom
      · exact absurd hroom (Nat.not_le_of_lt hfull)
      · have hmost : th.limit = Machine.maxStack := if_pos hroom.room_le
        have hsize : max (min (2 * th.room) Machine.maxStack) (th.top + k) ≤ Machine.maxStack :=
          Nat.max_le.mpr ⟨Nat.min_le_right _ _, hroom.top_le⟩
        exact (if_pos hsize).trans hmost.symm
  · rfl

theorem steady_grown (n : Nat) {k : Nat} (h : th.Ready k) : th.Steady n (th.grown k) := by
  refine ⟨?_, limit_grown h, fun i _ => ?_⟩
  · rw [grown_eq]
    rfl
  · unfold slot
    rw [stack_grown]

end Thread

instance : Std.Refl Thread.Worked := ⟨Thread.Worked.refl⟩

instance : IsTrans Thread Thread.Worked := ⟨fun _ _ _ => Thread.Worked.trans⟩

instance {n : Nat} : Std.Refl (Thread.Steady n) := ⟨Thread.Steady.refl n⟩

instance {n : Nat} : IsTrans Thread (Thread.Steady n) := ⟨fun _ _ _ => Thread.Steady.trans⟩

namespace Machine

/-!
# What becomes of a thread
-/

/-- When the computation returns, the thread is related to what it was. -/
structure Moves (R : Thread → Thread → Prop) (t : ThreadId) {α : Type} (x : M α) : Prop where
  run : forall {E w a w'}, w.liveThread t = true -> x E w = .ok a w' ->
    w'.liveThread t = true ∧ R (w.thread t) (w'.thread t)

/-- When the computation returns, it has worked in the running call of the thread. -/
abbrev Works (t : ThreadId) {α : Type} (x : M α) : Prop := Moves Thread.Worked t x

/-- When the computation returns, nothing has changed about the thread but its stack and its calls. -/
abbrev Steadies (t : ThreadId) {α : Type} (x : M α) : Prop := Moves (Thread.Steady 0) t x

section Moves

variable {R : Thread → Thread → Prop} {α β : Type} {t : ThreadId}

theorem Moves.bind [IsTrans Thread R] {x : M α} {f : α → M β} (hx : Moves R t x)
    (hf : forall a, Moves R t (f a)) : Moves R t (x >>= f) := by
  refine ⟨fun hlive h => ?_⟩
  rcases ok_bind h with ⟨a, w₁, hfirst, h⟩
  rcases hx.run hlive hfirst with ⟨hlive₁, hmoved₁⟩
  rcases (hf a).run hlive₁ h with ⟨hlive₂, hmoved₂⟩
  exact ⟨hlive₂, IsTrans.trans _ _ _ hmoved₁ hmoved₂⟩

theorem Still.moves [Std.Refl R] {x : M α} (h : Still x) : Moves R t x := by
  refine ⟨fun {E w a w'} hlive hx => ?_⟩
  have hthreads := h.threads_eq hx
  have hthread : w'.thread t = w.thread t := by
    unfold World.thread
    rw [hthreads]
  refine ⟨?_, hthread.symm ▸ Std.Refl.refl (w.thread t)⟩
  unfold World.liveThread
  rw [hthreads]
  exact hlive

theorem Moves.pure [Std.Refl R] (a : α) : Moves R t (pure a) := (Still.pure a).moves

theorem moves_modifyThread {f : Thread → Thread} (h : forall th : Thread, R th (f th)) :
    Moves R t (modifyThread t f) := by
  refine ⟨fun {E w a w'} hlive hx => ?_⟩
  rcases (returns_modifyThread w t f).ok_eq hx with ⟨_, rfl⟩
  rw [World.thread_setThread hlive]
  exact ⟨(World.liveThread_setThread w t t _).trans hlive, h _⟩

end Moves

end Machine

namespace Interface

open Machine

variable {t : ThreadId} {w w' : World} {E : Engine}

/-!
# Operations on the stack
-/

/-- Making room changes only how much room there is, and how far up the running call reaches. -/
theorem ok_reserve_claimed {n : Nat} (hlive : w.liveThread t = true)
    (h : reserve t n E w = .ok () w') :
    exists room, w' = w.setThread t (claimed { w.thread t with room } n) := by
  have hclaim : forall room, (do
      modifyThread t fun th => th.modifyFrame fun f => { f with top := max f.top (th.top + n) }
      return true : M Bool) E (w.setThread t { w.thread t with room }) =
        .ok true (w.setThread t (claimed { w.thread t with room } n)) := by
    intro room
    have hmodify := returns_modifyThread (w.setThread t { w.thread t with room }) t fun th =>
      th.modifyFrame fun f => { f with top := max f.top (th.top + n) }
    rw [World.setThread_setThread, World.thread_setThread hlive] at hmodify
    exact hmodify.andThen rfl
  rcases ok_bind h with ⟨ok, w₁, hcheck, hrest⟩
  cases ok with
  | false => cases hrest
  | true =>
      cases hrest
      have hcheck := (returns_thread w t).ok_bind hcheck
      split at hcheck
      · have hown := hclaim (w.thread t).room
        rw [show w.setThread t { w.thread t with room := (w.thread t).room } = w from
          World.setThread_thread w t] at hown
        cases hown.symm.trans hcheck
        exact ⟨_, rfl⟩
      · rcases ok_bind hcheck with ⟨ok, w₂, hgrow, hcheck⟩
        rcases ok_growStack hgrow with ⟨room, rfl, _⟩
        cases ok with
        | false => cases hcheck
        | true =>
            cases (hclaim room).symm.trans hcheck
            exact ⟨room, rfl⟩

theorem works_reserve (n : Nat) : Works t (reserve t n) := by
  refine ⟨fun {E w a w'} hlive h => ?_⟩
  rcases ok_reserve_claimed hlive h with ⟨room, rfl⟩
  rw [World.thread_setThread hlive]
  refine ⟨(World.liveThread_setThread w t t _).trans hlive, ?_⟩
  have hroomy : (w.thread t).Worked { w.thread t with room } := Thread.worked_of_frames rfl rfl
  exact hroomy.trans (Thread.worked_modifyFrame _ fun _ => rfl)

theorem steadies_reserve {n : Nat} (hn : n < maxStack) : Steadies t (reserve t n) := by
  refine ⟨fun {E w a w'} hlive h => ?_⟩
  have hlimit := ((needs_reserve hlive hn).of_ok h).raised.limit_eq
  rcases ok_reserve_claimed hlive h with ⟨room, rfl⟩
  rw [World.thread_setThread hlive] at hlimit ⊢
  exact ⟨(World.liveThread_setThread w t t _).trans hlive, rfl, hlimit, nofun⟩

theorem works_push (v : Value) : Works t (push t v) :=
  moves_modifyThread fun th => Thread.worked_of_frames (Thread.rest_setSlot th _ v) (Thread.frames_setSlot th _ v)

theorem steadies_push (v : Value) : Steadies t (push t v) :=
  moves_modifyThread fun th => Thread.steady_push th (Nat.zero_le _) v

theorem works_pushNew (v : Value) : Works t (pushNew t v) :=
  (works_reserve 1).bind fun _ => works_push v

theorem steadies_pushNew (v : Value) : Steadies t (pushNew t v) :=
  (steadies_reserve (by decide)).bind fun _ => steadies_push v

theorem steadies_drop (n : Nat) : Steadies t (drop t n) :=
  moves_modifyThread fun th => Thread.steady_withTop 0 th _

theorem steadies_rotate (idx n : Int) : Steadies t (rotate t idx n) := by
  refine (still_checkIndex t idx).moves.bind fun _ => ?_
  refine (still_reads (reads_place t idx)).moves.bind fun p => ?_
  cases p with
  | slot i => exact moves_modifyThread fun th => Thread.steady_putSlots _ th (Nat.zero_le i)
  | _ => exact Moves.pure _

theorem steadies_pushFunction (f : HostFn) : Steadies t (pushFunction t f) := by
  refine (steadies_pushNew _).bind fun _ => (steadies_reserve (by decide)).bind fun _ => ?_
  rw [if_neg (by decide)]
  refine (still_thread t).moves.bind fun th => (steadies_drop 1).bind fun _ => ?_
  exact (still_newClosure _).moves.bind fun c => steadies_push _

end Interface

end LuaHost
