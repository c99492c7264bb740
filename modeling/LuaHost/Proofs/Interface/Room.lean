import LuaHost.Interface.CopyOut
import LuaHost.Proofs.Machine.Running

/-!
# Room on a stack

Values are pushed into slots that are made for them.  Making room changes how
much of it there is, and pushing changes the slots from the top on; the slots
below and the place of the running call stay.
-/

namespace LuaHost

/-!
# Slots
-/

namespace Thread

theorem slot_setSlot (th : Thread) (i j : Nat) (v : Value) :
    (th.setSlot i v).slot j = if i = j then v else th.slot j := by
  unfold setSlot slot
  by_cases hi : i < th.stack.size
  · rw [if_pos hi]
    simp only [Array.getD_eq_getD_getElem?, Array.set!_eq_setIfInBounds,
      Array.getElem?_setIfInBounds]
    by_cases hij : i = j
    · rw [if_pos hij, if_pos hij, if_pos hi]
      rfl
    · rw [if_neg hij, if_neg hij]
  · rw [if_neg hi]
    have hsize : (th.stack ++ Array.replicate (i - th.stack.size) Value.nil).size = i := by
      rw [Array.size_append, Array.size_replicate]
      omega
    simp only [Array.getD_eq_getD_getElem?, Array.getElem?_push, hsize, Array.getElem?_append,
      Array.getElem?_replicate]
    by_cases hij : i = j
    · rw [if_pos hij, if_pos hij.symm]
      rfl
    · rw [if_neg hij, if_neg (Ne.symm hij)]
      by_cases hj : j < th.stack.size
      · rw [if_pos hj]
      · rw [if_neg hj, Array.getElem?_eq_none (Nat.le_of_not_lt hj)]
        split <;> rfl

theorem base_setSlot (th : Thread) (i : Nat) (v : Value) : (th.setSlot i v).base = th.base := by
  unfold setSlot
  split <;> rfl

theorem room_setSlot (th : Thread) (i : Nat) (v : Value) : (th.setSlot i v).room = th.room := by
  unfold setSlot
  split <;> rfl

theorem base_modifyFrame (th : Thread) {f : Frame → Frame} (hf : forall x, (f x).func = x.func) :
    (th.modifyFrame f).base = th.base := by
  have hback : (th.frames.modify (th.frames.size - 1) f).back? = th.frames.back?.map f := by
    unfold Array.back?
    rw [Array.size_modify, Array.getElem?_modify, if_pos rfl]
  unfold base frame modifyFrame
  rw [hback]
  cases th.frames.back? with
  | none => rfl
  | some x => exact congrArg (· + 1) (hf x)

/-- Two states of a thread with the same running call and the same first `n`
slots. -/
structure SameBelow (n : Nat) (th th' : Thread) : Prop where
  base_eq : th'.base = th.base
  slot_eq : forall i, i < n -> th'.slot i = th.slot i

theorem SameBelow.refl (n : Nat) (th : Thread) : SameBelow n th th := ⟨rfl, fun _ _ => rfl⟩

theorem SameBelow.trans {m n : Nat} {th th' th'' : Thread} (h : SameBelow m th th')
    (h' : SameBelow n th' th'') (hmn : m ≤ n) : SameBelow m th th'' :=
  ⟨h'.base_eq.trans h.base_eq,
    fun i hi => (h'.slot_eq i (Nat.lt_of_lt_of_le hi hmn)).trans (h.slot_eq i hi)⟩

theorem SameBelow.values_eq {th th' : Thread} (h : SameBelow th.top th th')
    (htop : th'.top = th.top) : th'.values = th.values := by
  unfold values slots height
  rw [h.base_eq, htop]
  apply List.map_congr_left
  intro k hk
  have hk' := List.mem_range.mp hk
  exact h.slot_eq _ (by omega)

/-- Two states of a thread with the same slots and the same running call. -/
structure Alike (th th' : Thread) : Prop where
  stack_eq : th'.stack = th.stack
  top_eq : th'.top = th.top
  base_eq : th'.base = th.base

theorem Alike.refl (th : Thread) : th.Alike th := ⟨rfl, rfl, rfl⟩

theorem Alike.trans {th th' th'' : Thread} (h : th.Alike th') (h' : th'.Alike th'') :
    th.Alike th'' :=
  ⟨h'.stack_eq.trans h.stack_eq, h'.top_eq.trans h.top_eq, h'.base_eq.trans h.base_eq⟩

theorem Alike.slot_eq {th th' : Thread} (h : th.Alike th') (i : Nat) : th'.slot i = th.slot i := by
  unfold slot
  rw [h.stack_eq]

theorem Alike.sameBelow {th th' : Thread} (h : th.Alike th') (n : Nat) : th.SameBelow n th' :=
  ⟨h.base_eq, fun i _ => h.slot_eq i⟩

/-- Room for `n` more values, on a stack that may have to grow. -/
structure Room (th : Thread) (n : Nat) : Prop where
  room_le : th.room ≤ Machine.maxStack
  top_le : th.top + n ≤ Machine.maxStack

theorem Room.mono {th : Thread} {m n : Nat} (h : th.Room n) (hmn : m ≤ n) : th.Room m :=
  ⟨h.room_le, Nat.le_trans (Nat.add_le_add_left hmn _) h.top_le⟩

/-- A stack on which `n` more values find room, whether it has to grow or not. -/
def Ready (th : Thread) (n : Nat) : Prop := th.top + n + 1 ≤ th.room ∨ th.Room n

/-- Two states of a thread with the same values, the second of them ready for
`n` more. -/
structure Granted (n : Nat) (th th' : Thread) : Prop extends th.Alike th' where
  ready : th'.Ready n

end Thread

/-!
# Threads of a world
-/

namespace World

def thread (w : World) (t : ThreadId) : Thread := w.heap.threads.get t.index

def setThread (w : World) (t : ThreadId) (th : Thread) : World :=
  { w with heap := { w.heap with threads := w.heap.threads.modify t.index fun _ => th } }

def setLog (w : World) (log : List LogRecord) : World := { w with log }

def liveThread (w : World) (t : ThreadId) : Bool := w.heap.threads.live t.index

theorem thread_setThread {w : World} {t : ThreadId} (h : w.liveThread t = true) (th : Thread) :
    (w.setThread t th).thread t = th :=
  Store.get_modify_self h _

theorem thread_setThread_ne {w : World} {t o : ThreadId} (h : o ≠ t) (th : Thread) :
    (w.setThread t th).thread o = w.thread o := by
  apply Store.get_modify_ne
  intro heq
  cases o
  cases t
  exact h (congrArg ThreadId.mk heq.symm)

theorem setThread_of_dead {w : World} {t : ThreadId} (h : w.liveThread t = false) (th : Thread) :
    w.setThread t th = w := by
  unfold setThread
  rw [Store.modify_of_not_live h]

theorem liveThread_setThread (w : World) (t t' : ThreadId) (th : Thread) :
    (w.setThread t th).liveThread t' = w.liveThread t' :=
  Store.live_modify _ _ _ _

theorem setThread_setThread (w : World) (t : ThreadId) (th th' : Thread) :
    (w.setThread t th).setThread t th' = w.setThread t th' := by
  unfold setThread
  rw [Store.write_write]

theorem setThread_thread (w : World) (t : ThreadId) : w.setThread t (w.thread t) = w := by
  unfold setThread thread
  rw [← Store.modify_eq_write w.heap.threads t.index fun th => th, Store.modify_id]

end World

/-!
# Making room
-/

namespace Machine

theorem returns_thread (w : World) (t : ThreadId) : Returns (thread t) w (w.thread t) w :=
  fun _ => rfl

theorem returns_height (w : World) (t : ThreadId) : Returns (height t) w (w.thread t).height w :=
  fun _ => rfl

theorem returns_modifyThread (w : World) (t : ThreadId) (f : Thread → Thread) :
    Returns (modifyThread t f) w () (w.setThread t (f (w.thread t))) := by
  intro E
  show EStateM.Result.ok () _ = EStateM.Result.ok () _
  unfold World.setThread World.thread
  rw [← Store.modify_eq_write]

theorem returns_push (w : World) (t : ThreadId) (v : Value) :
    Returns (push t v) w () (w.setThread t ((w.thread t).push v)) :=
  returns_modifyThread w t _

theorem returns_drop (w : World) (t : ThreadId) (n : Nat) :
    Returns (drop t n) w () (w.setThread t ((w.thread t).drop n)) :=
  returns_modifyThread w t _

theorem returns_registryValue (w : World) (k : Value) :
    Returns (registryValue k) w ((w.heap.tables.get w.registry.index).get k) w :=
  fun _ => rfl

theorem returns_growStack {w : World} {t : ThreadId} {n : Nat} (h : (w.thread t).Room n)
    (hn : n < maxStack) :
    exists room, room ≤ maxStack ∧
      Returns (growStack t n) w true (w.setThread t { w.thread t with room }) := by
  have hroom := h.room_le
  have hsize : max (min (2 * (w.thread t).room) maxStack) ((w.thread t).top + n) ≤ maxStack :=
    Nat.max_le.mpr ⟨Nat.min_le_right _ _, h.top_le⟩
  refine ⟨_, hsize, ?_⟩
  unfold growStack
  refine Returns.bind (returns_thread w t) ?_
  rw [if_neg (by omega), if_pos (by rw [decide_eq_true hn, decide_eq_true hsize]; rfl)]
  exact Returns.bind (returns_modifyThread w t _) (Returns.pure _ _)

/-- A thread with more room, and no other change that its values show. -/
structure Widened (th th' : Thread) : Prop extends th.Alike th' where
  room_le : th'.room ≤ maxStack

/-- The running call may use `n` more slots. -/
def claimed (th : Thread) (n : Nat) : Thread :=
  th.modifyFrame fun f => { f with top := max f.top (th.top + n) }

theorem alike_claimed (th : Thread) (n : Nat) : th.Alike (claimed th n) :=
  ⟨rfl, rfl, Thread.base_modifyFrame th fun _ => rfl⟩

theorem returns_checkStack {w : World} {t : ThreadId} (hlive : w.liveThread t = true) {n : Nat}
    (h : (w.thread t).Ready n) (hn : n < maxStack) :
    exists th, (w.thread t).Alike th ∧ th.room ≤ max (w.thread t).room maxStack ∧
      Returns (checkStack t n) w true (w.setThread t th) := by
  unfold checkStack
  by_cases hroom : (w.thread t).room ≥ (w.thread t).top + n + 1
  · refine ⟨claimed (w.thread t) n, alike_claimed (w.thread t) n, Nat.le_max_left _ _, ?_⟩
    refine Returns.bind (returns_thread w t) ?_
    rw [if_pos hroom]
    refine Returns.bind (Returns.pure true w) ?_
    exact Returns.bind (returns_modifyThread w t _) (Returns.pure _ _)
  · have hgrows : (w.thread t).Room n := by
      rcases h with hfits | hgrows
      · exact absurd hfits hroom
      · exact hgrows
    rcases returns_growStack hgrows hn with ⟨room, hle, hgrow⟩
    have halike : (w.thread t).Alike { w.thread t with room } := ⟨rfl, rfl, rfl⟩
    refine ⟨claimed { w.thread t with room } n, halike.trans (alike_claimed _ n),
      Nat.le_trans hle (Nat.le_max_right _ _), ?_⟩
    refine Returns.bind (returns_thread w t) ?_
    rw [if_neg hroom]
    refine Returns.bind hgrow ?_
    have hclaim := returns_modifyThread (w.setThread t { w.thread t with room }) t fun th =>
      th.modifyFrame fun f => { f with top := max f.top (th.top + n) }
    rw [World.setThread_setThread, World.thread_setThread hlive] at hclaim
    exact Returns.bind hclaim (Returns.pure _ _)

/-- Growing a stack changes nothing but how much room there is. -/
theorem ok_growStack {w w' : World} {t : ThreadId} {n : Nat} {ok : Bool} {E : Engine}
    (h : growStack t n E w = .ok ok w') :
    exists room, w' = w.setThread t { w.thread t with room } ∧
      (ok = true -> room ≤ maxStack ∧ (w.thread t).top + n ≤ maxStack) := by
  have hkeep : w = w.setThread t { w.thread t with room := (w.thread t).room } :=
    (World.setThread_thread w t).symm
  unfold growStack at h
  have h := (returns_thread w t).ok_bind h
  split at h
  · cases h
    exact ⟨_, hkeep, nofun⟩
  · dsimp only at h
    split at h
    · next hfits =>
        rcases ok_bind h with ⟨_, w₁, hmodify, hpure⟩
        rcases (returns_modifyThread w t _).ok_eq hmodify with ⟨_, rfl⟩
        cases hpure
        rw [Bool.and_eq_true, decide_eq_true_eq, decide_eq_true_eq] at hfits
        exact ⟨_, rfl, fun _ => ⟨hfits.2, Nat.le_trans (Nat.le_max_right _ _) hfits.2⟩⟩
    · rcases ok_bind h with ⟨_, w₁, hmodify, hpure⟩
      rcases (returns_modifyThread w t _).ok_eq hmodify with ⟨_, rfl⟩
      cases hpure
      exact ⟨_, rfl, nofun⟩

theorem ok_checkStack {w w' : World} {t : ThreadId} {n : Nat} {E : Engine}
    (h : checkStack t n E w = .ok true w') :
    exists th, (w.thread t).Granted n th ∧ w' = w.setThread t th := by
  -- the stack was large enough, or it has grown; the room is claimed in the same way then
  have hgrown : exists room, exists ok : Bool, ((w.thread t).top + n + 1 ≤ room ∨
      (ok = true -> room ≤ maxStack ∧ (w.thread t).top + n ≤ maxStack)) ∧
      (do
        if ok then
          modifyThread t fun th => th.modifyFrame fun f => { f with top := max f.top (th.top + n) }
        return ok : M Bool) E (w.setThread t { w.thread t with room }) = .ok true w' := by
    unfold checkStack at h
    have h := (returns_thread w t).ok_bind h
    split at h
    · next hroom =>
        refine ⟨(w.thread t).room, true, Or.inl hroom, ?_⟩
        rw [show w.setThread t { w.thread t with room := (w.thread t).room } = w from
          World.setThread_thread w t]
        exact h
    · rcases ok_bind h with ⟨ok, w₁, hgrow, h⟩
      rcases ok_growStack hgrow with ⟨room, rfl, hfits⟩
      exact ⟨room, ok, Or.inr hfits, h⟩
  rcases hgrown with ⟨room, ok, hfits, h⟩
  cases ok with
  | false => cases h
  | true =>
      rcases ok_bind h with ⟨_, w₁, hmodify, hpure⟩
      cases hpure
      have halike : (w.thread t).Alike { w.thread t with room } := ⟨rfl, rfl, rfl⟩
      have hready : (claimed { w.thread t with room } n).Ready n := by
        rcases hfits with hroom | hgrows
        · exact Or.inl hroom
        · exact Or.inr ⟨(hgrows rfl).1, (hgrows rfl).2⟩
      rcases (returns_modifyThread _ t _).ok_eq hmodify with ⟨_, rfl⟩
      refine ⟨_, ⟨halike.trans (alike_claimed _ n), hready⟩, ?_⟩
      cases hlive : w.liveThread t with
      | true => rw [World.thread_setThread hlive, World.setThread_setThread]; rfl
      | false =>
          rw [World.setThread_of_dead hlive, World.setThread_of_dead hlive,
            World.setThread_of_dead hlive]

end Machine

/-!
# Pushing into new slots
-/

namespace Thread

theorem slot_push (th : Thread) (v : Value) (i : Nat) :
    (th.push v).slot i = if th.top = i then v else th.slot i :=
  slot_setSlot th th.top i v

theorem top_push (th : Thread) (v : Value) : (th.push v).top = th.top + 1 := rfl

theorem base_push (th : Thread) (v : Value) : (th.push v).base = th.base :=
  base_setSlot th th.top v

theorem room_push (th : Thread) (v : Value) : (th.push v).room = th.room :=
  room_setSlot th th.top v

/-- A thread with one more value. -/
structure Topped (th : Thread) (v : Value) (th' : Thread) : Prop where
  top_eq : th'.top = th.top + 1
  slot_top : th'.slot th.top = v
  below : th.SameBelow th.top th'

theorem SameBelow.topped {th th' : Thread} (h : th.SameBelow th.top th')
    (htop : th'.top = th.top) (v : Value) : th.Topped v (th'.push v) := by
  constructor
  · rw [top_push, htop]
  · rw [slot_push, if_pos htop]
  · refine ⟨(base_push th' v).trans h.base_eq, ?_⟩
    intro i hi
    rw [slot_push, if_neg (by rw [htop]; exact Nat.ne_of_gt hi)]
    exact h.slot_eq i hi

theorem Alike.topped {th th' : Thread} (h : th.Alike th') (v : Value) : th.Topped v (th'.push v) :=
  (h.sameBelow th.top).topped h.top_eq v

/-- A thread with one more value, within bounds. -/
structure Pushed (th : Thread) (v : Value) (th' : Thread) : Prop extends th.Topped v th' where
  room_le : th'.room ≤ Machine.maxStack

theorem Pushed.values_eq {th th' : Thread} {v : Value} (h : Pushed th v th')
    (hbase : th.base ≤ th.top) : th'.values = th.values ++ [v] := by
  have hheight : th'.height = th.height + 1 := by
    unfold height
    rw [h.top_eq, h.below.base_eq]
    omega
  have htop : th.base + th.height = th.top := by
    unfold height
    omega
  unfold values slots
  rw [hheight, List.range_succ, List.map_append, h.below.base_eq]
  congr 1
  · apply List.map_congr_left
    intro k hk
    have hk' := List.mem_range.mp hk
    exact h.below.slot_eq _ (by omega)
  · rw [List.map_singleton, htop, h.slot_top]

end Thread

namespace Interface

open Machine

theorem returns_reserve_ready {w : World} {t : ThreadId} (hlive : w.liveThread t = true) {n : Nat}
    (h : (w.thread t).Ready n) (hn : n < maxStack) :
    exists th, (w.thread t).Alike th ∧ th.room ≤ max (w.thread t).room maxStack ∧
      Returns (reserve t n) w () (w.setThread t th) := by
  rcases returns_checkStack hlive h hn with ⟨th, halike, hle, hrun⟩
  exact ⟨th, halike, hle, Returns.bind hrun (Returns.pure _ _)⟩

theorem returns_reserve {w : World} {t : ThreadId} (hlive : w.liveThread t = true) {n : Nat}
    (h : (w.thread t).Room n) (hn : n < maxStack) :
    exists th, Widened (w.thread t) th ∧ Returns (reserve t n) w () (w.setThread t th) := by
  rcases returns_reserve_ready hlive (Or.inr h) hn with ⟨th, halike, hle, hrun⟩
  exact ⟨th, ⟨halike, Nat.le_trans hle (Nat.max_le.mpr ⟨h.room_le, Nat.le_refl _⟩)⟩, hrun⟩

/-- Making room that did not end the host code changed no value. -/
theorem ok_reserve {w w' : World} {t : ThreadId} {n : Nat} {E : Engine}
    (h : reserve t n E w = .ok () w') :
    exists th, (w.thread t).Granted n th ∧ w' = w.setThread t th := by
  rcases ok_bind h with ⟨ok, w₁, hcheck, h⟩
  cases ok with
  | false => cases h
  | true =>
      cases h
      exact ok_checkStack hcheck

theorem returns_pushNew {w : World} {t : ThreadId} (hlive : w.liveThread t = true)
    (h : (w.thread t).Room 1) (v : Value) :
    exists th, (w.thread t).Pushed v th ∧ Returns (pushNew t v) w () (w.setThread t th) := by
  rcases returns_reserve hlive h (by decide) with ⟨th, hth, hrun⟩
  refine ⟨th.push v, ?_, ?_⟩
  · refine ⟨hth.topped v, ?_⟩
    rw [Thread.room_push]
    exact hth.room_le
  · have hpush := returns_push (w.setThread t th) t v
    rw [World.thread_setThread hlive, World.setThread_setThread] at hpush
    exact Returns.bind hrun hpush

theorem ok_pushNew {w w' : World} {t : ThreadId} {v : Value} {E : Engine}
    (h : pushNew t v E w = .ok () w') :
    exists th, (w.thread t).Topped v th ∧ w' = w.setThread t th := by
  rcases ok_bind h with ⟨_, w₁, hreserve, h⟩
  rcases ok_reserve hreserve with ⟨th, hgranted, rfl⟩
  rcases (returns_push _ t v).ok_eq h with ⟨_, rfl⟩
  refine ⟨th.push v, hgranted.topped v, ?_⟩
  cases hlive : w.liveThread t with
  | true => rw [World.thread_setThread hlive, World.setThread_setThread]
  | false =>
      rw [World.setThread_of_dead hlive, World.setThread_of_dead hlive,
        World.setThread_of_dead hlive]

/-- Pushing `n` times and dropping what was pushed leaves the values. -/
theorem returns_needRoom {w : World} {t : ThreadId} (hlive : w.liveThread t = true) {n : Nat}
    (h : (w.thread t).Room n) :
    exists th, th.top = (w.thread t).top ∧ (w.thread t).SameBelow (w.thread t).top th ∧
      th.room ≤ maxStack ∧ Returns (needRoom t n) w () (w.setThread t th) := by
  -- what is pushed is the same each time, so that the induction is on how often
  have hpushes : forall (ks : List Nat) (w : World), w.liveThread t = true ->
      (w.thread t).Room ks.length ->
      exists th, th.top = (w.thread t).top + ks.length ∧
        (w.thread t).SameBelow (w.thread t).top th ∧ th.room ≤ maxStack ∧
        Returns (ks.forM fun _ => pushNil t) w () (w.setThread t th) := by
    intro ks
    induction ks with
    | nil =>
        intro w _ hroom
        refine ⟨w.thread t, rfl, Thread.SameBelow.refl _ _, hroom.room_le, ?_⟩
        rw [World.setThread_thread]
        exact Returns.pure _ _
    | cons k ks ih =>
        intro w hlive hroom
        have hlen : (k :: ks).length = ks.length + 1 := rfl
        have htop := hroom.top_le
        rcases returns_pushNew hlive (hroom.mono (by omega)) .nil with ⟨th, hth, hrun⟩
        have hroom' : ((w.setThread t th).thread t).Room ks.length := by
          rw [World.thread_setThread hlive]
          refine ⟨hth.room_le, ?_⟩
          rw [hth.top_eq]
          omega
        rcases ih (w.setThread t th) (by rw [World.liveThread_setThread, hlive]) hroom' with
          ⟨th', htop', hbelow', hle', hrun'⟩
        rw [World.thread_setThread hlive] at htop' hbelow'
        rw [World.setThread_setThread] at hrun'
        refine ⟨th', ?_, ?_, hle', Returns.bind hrun hrun'⟩
        · rw [htop', hth.top_eq, hlen]
          omega
        · exact hth.below.trans hbelow' (by rw [hth.top_eq]; omega)
  have hlength : (List.range n).length = n := List.length_range
  rcases hpushes (List.range n) w hlive (by rw [hlength]; exact h) with
    ⟨th, htop, hbelow, hle, hrun⟩
  refine ⟨th.drop n, ?_, ⟨hbelow.base_eq, hbelow.slot_eq⟩, hle, ?_⟩
  · show th.top - n = _
    rw [htop, hlength]
    omega
  · have hdrop := returns_drop (w.setThread t th) t n
    rw [World.thread_setThread hlive, World.setThread_setThread] at hdrop
    exact Returns.bind hrun hdrop

end Interface

end LuaHost
