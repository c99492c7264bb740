import LuaHost.Proofs.Handle.Registering
import LuaHost.Proofs.Interface.Copying

/-!
# Shares in the flag of handles

The registry holds the address of the flag.  Taking a share reads the address
from a stack that has room for one more value, and counts the new owner; giving
one up counts back, and frees the flag with the last owner.
-/

namespace LuaHost

/-!
# The flag
-/

namespace Liveness

/-- The flag with a number of owners; without owners there is none. -/
def owned (alive : Bool) (n : Nat) : Option Liveness := if n = 0 then none else some ⟨alive, n⟩

/-- One owner more, as far as there is a flag. -/
def more (l : Option Liveness) : Option Liveness := l.map fun l => { l with owners := l.owners + 1 }

/-- One owner less. -/
def less (l : Option Liveness) : Option Liveness :=
  l.bind fun l => if l.owners ≤ 1 then none else some { l with owners := l.owners - 1 }

/-- Nobody can read the flag any more. -/
def ended (l : Option Liveness) : Option Liveness := l.map fun l => { l with alive := false }

theorem more_owned (alive : Bool) {n : Nat} (h : n ≠ 0) :
    more (owned alive n) = owned alive (n + 1) := by
  unfold owned
  rw [if_neg h, if_neg (Nat.succ_ne_zero n)]
  rfl

theorem less_owned (alive : Bool) (n : Nat) : less (owned alive (n + 1)) = owned alive n := by
  unfold owned
  rw [if_neg (Nat.succ_ne_zero n)]
  show (if n + 1 ≤ 1 then none else some (Liveness.mk alive (n + 1 - 1))) = _
  by_cases h : n = 0
  · rw [if_pos h, if_pos (by omega)]
  · rw [if_neg h, if_neg (by omega), Nat.add_sub_cancel]

theorem ended_owned (alive : Bool) (n : Nat) : ended (owned alive n) = owned false n := by
  unfold owned
  split <;> rfl

theorem owned_eq_none (alive : Bool) (n : Nat) : owned alive n = none ↔ n = 0 := by
  unfold owned
  split <;> simp_all

end Liveness

namespace World

def withLiveness (w : World) (l : Option Liveness) : World := { w with liveness := l }

/-- One share more was taken in the flag, and nothing was written to the registry. -/
structure Shared (w w' : World) : Prop extends w.Spared w' where
  liveness_eq : w'.liveness = Liveness.more w.liveness

theorem spared_withLiveness (w : World) (l : Option Liveness) : w.Spared (w.withLiveness l) :=
  spared_of_tables rfl rfl

/-- A thread on which one more value can be pushed and looked at. -/
structure Roomy (w : World) (t : ThreadId) : Prop where
  live : w.liveThread t = true
  ready : (w.thread t).Ready 1
  based : (w.thread t).base ≤ (w.thread t).top

end World

namespace Machine

/-!
# Reading the registry
-/

theorem returns_index_plain {w : World} {m : TableId}
    (hplain : (w.heap.tables.get m.index).metatable = none) (t : ThreadId) (k : Value) :
    Returns (index t (.table m) k) w ((w.heap.tables.get m.index).get k) w := by
  have htable : Returns (table m) w (w.heap.tables.get m.index) w := fun _ => rfl
  unfold index indexFrom maxChain
  rw [show 2000 = 1999 + 1 from rfl, indexLoop]
  refine Returns.bind htable ?_
  dsimp only
  generalize (w.heap.tables.get m.index).get k = x
  cases x with
  | nil =>
      rw [if_neg (by decide), hplain]
      exact Returns.pure _ w
  | _ => exact Returns.pure _ w

theorem returns_value_registry (w : World) (t : ThreadId) :
    Returns (value t registryIndex) w (.table w.registry) w := by
  refine Returns.bind (returns_place w t registryIndex) ?_
  unfold World.placeOf
  rw [if_neg (by decide), if_neg (by decide), if_pos rfl]
  exact Returns.bind (returns_get w) (Returns.pure _ w)

theorem returns_modifyThread_set {w : World} {t : ThreadId} {th : Thread} (f : Thread → Thread) :
    Returns (modifyThread t f) (w.setThread t th) () (w.setThread t (f th)) := by
  have hmodify := returns_modifyThread (w.setThread t th) t f
  cases hlive : w.liveThread t with
  | true =>
      rw [World.thread_setThread hlive, World.setThread_setThread] at hmodify
      exact hmodify
  | false =>
      rw [World.setThread_of_dead hlive] at hmodify
      rw [World.setThread_of_dead hlive] at hmodify
      rw [World.setThread_of_dead hlive, World.setThread_of_dead hlive]
      exact hmodify

theorem returns_modifyThread_into {w : World} {t : ThreadId} {f : Thread → Thread} {th th' : Thread}
    (h : f th = th') : Returns (modifyThread t f) (w.setThread t th) () (w.setThread t th') :=
  h ▸ returns_modifyThread_set f

end Machine

namespace Interface

open Machine

variable {es : List (RefId × Value)} {w w' : World} {t : ThreadId} {E : Engine}

/-- Room for one more value does not fail to be found on a thread that has it. -/
theorem ends_pushNew (w : World) (t : ThreadId) (v : Value) (E : Engine) :
    Ends (pushNew t v) E w (fun _ w' => exists th, (w.thread t).Topped v th ∧ w' = w.setThread t th)
      fun w' => w.Kept w' ∧ ¬w.Roomy t := by
  refine ends_iff.mpr ⟨fun _ _ hok => ok_pushNew hok, fun r w' herror => ⟨?_, ?_⟩⟩
  · exact (ends_iff.mp ((keeps_pushNew t v).run E w)).2 r w' herror
  · intro hroomy
    rcases returns_reserve_ready hroomy.live hroomy.ready (by decide) with ⟨th, _, _, hrun⟩
    have hpush : Returns (pushNew t v) w () _ :=
      Returns.bind hrun (returns_push (w.setThread t th) t v)
    rw [hpush E] at herror
    cases herror

/-- Replacing a key on top of the stack by what a registry without a metatable has under it. -/
theorem returns_replaceKey_registry (hplain : w.registryTable.metatable = none) (t : ThreadId) :
    let i := (w.thread t).top - 1
    let v := w.registryTable.get ((w.thread t).slot i)
    Returns (replaceKey t registryIndex) w v.kind (w.setThread t ((w.thread t).setSlot i v)) := by
  refine Returns.bind (returns_value_registry _ t) ?_
  refine Returns.bind (Returns.bind (returns_thread _ t) (Returns.pure _ _)) ?_
  refine Returns.bind (Returns.bind (returns_thread _ t) (Returns.pure _ _)) ?_
  refine Returns.bind (returns_index_plain hplain t _) ?_
  exact Returns.bind (returns_modifyThread w t _) (Returns.pure _ _)

theorem returns_replaceKey_flag (h : Ledger es w) {th : Thread}
    (htopped : (w.thread t).Topped (.ofText aliveField) th) :
    exists k th', (w.thread t).Topped (.light flagAddress) th' ∧
      Returns (replaceKey t registryIndex) (w.setThread t th) k (w.setThread t th') := by
  have hget : w.registryTable.get (.ofText aliveField) = .light flagAddress := by
    rcases h.whole with ⟨n, hwhole⟩
    exact hwhole.flagged
  have hrun := returns_replaceKey_registry (w := w.setThread t th) h.plain t
  dsimp only at hrun
  cases hlive : w.liveThread t with
  | true =>
      rw [World.setThread_setThread, World.thread_setThread hlive, htopped.top_eq,
        Nat.add_sub_cancel, htopped.slot_top] at hrun
      have htable : (w.setThread t th).registryTable = w.registryTable := rfl
      rw [htable, hget] at hrun
      refine ⟨_, _, ?_, hrun⟩
      refine ⟨(Thread.top_setSlot _ _ _).trans htopped.top_eq, ?_, ?_, ?_⟩
      · rw [Thread.slot_setSlot, if_pos rfl]
      · rw [Thread.base_setSlot, htopped.below.base_eq]
      · intro i hi
        rw [Thread.slot_setSlot, if_neg (Nat.ne_of_gt hi), htopped.below.slot_eq i hi]
  | false =>
      simp only [World.setThread_of_dead hlive] at hrun ⊢
      exact ⟨_, (w.thread t).push (.light flagAddress), (Thread.Alike.refl _).topped _, hrun⟩

theorem ends_getFlag (h : Ledger es w) (t : ThreadId) (E : Engine) :
    Ends (getField t registryIndex aliveField) E w
      (fun _ w' => exists th, (w.thread t).Topped (.light flagAddress) th ∧ w' = w.setThread t th)
      fun w' => w.Kept w' ∧ ¬w.Roomy t := by
  have hvalid : validIndex (w.thread t).height registryIndex = true := by
    unfold validIndex registryIndex
    simp
  refine Ends.after (returns_checkIndex hvalid) ?_
  refine Ends.after (a := registryIndex) (Returns.pure registryIndex w) ?_
  refine (ends_pushNew w t _ E).bind ?_
  intro _ w₁ hpushed
  rcases hpushed with ⟨th, htopped, rfl⟩
  rcases returns_replaceKey_flag h htopped with ⟨k, th', htopped', hrun⟩
  exact hrun.ends ⟨th', htopped', rfl⟩

/-!
# Taking a share and giving one up
-/

/-- Taking a share succeeds unless there is no room to look for the flag. -/
theorem ends_shareFlag (h : Ledger es w) (t : ThreadId) (E : Engine) :
    Ends (shareFlag t) E w (fun b w' => b = true ∧ w.Shared w')
      fun w' => w.Kept w' ∧ ¬w.Roomy t := by
  refine (ends_getFlag h t E).bind ?_
  intro _ w₁ hflag
  rcases hflag with ⟨th, htopped, rfl⟩
  have hkept := w.kept_setThread t th
  -- the flag is looked for on the stack, where an index is refused only if no value could be pushed
  by_cases hheight : ((w.setThread t th).thread t).height = 0
  · refine Ends.bind (P := fun _ _ => False) ?_ fun _ _ hfalse => hfalse.elim
    refine Ends.bind (P := fun _ _ => False) ?_ fun _ _ hfalse => hfalse.elim
    refine Ends.after (returns_height _ t) ?_
    rw [hheight]
    refine ⟨hkept, ?_⟩
    intro hroomy
    rw [World.thread_setThread hroomy.live] at hheight
    unfold Thread.height at hheight
    rw [htopped.top_eq, htopped.below.base_eq] at hheight
    have hbased := hroomy.based
    omega
  · have hlive : w.liveThread t = true := by
      by_contra hdead
      apply hheight
      have hgone := (World.liveThread_setThread w t t th).trans (Bool.not_eq_true _ ▸ hdead)
      exact height_of_dead hgone
    have hpop := returns_pop_one hheight
    rw [World.thread_setThread hlive] at hheight
    have hvalid : validIndex ((w.setThread t th).thread t).height (-1) = true := by
      rw [World.thread_setThread hlive]
      unfold validIndex registryIndex
      simp
      omega
    have hvalue := returns_value_below (w.setThread t th) t (n := 1) (by decide)
    rw [World.thread_setThread hlive, htopped.top_eq, Nat.add_sub_cancel,
      htopped.slot_top] at hvalue
    have hlook : Returns (toLightUserData t (-1)) (w.setThread t th) (some flagAddress)
        (w.setThread t th) :=
      Returns.bind (returns_checkIndex hvalid) (Returns.bind hvalue (Returns.pure _ _))
    refine Ends.after hlook ?_
    refine Ends.after hpop ?_
    refine Ends.after (returns_modify _ _) ?_
    exact ⟨rfl, World.spared_of_tables rfl rfl, rfl⟩

theorem returns_dropShare (w : World) :
    Returns dropShare w () (w.withLiveness (Liveness.less w.liveness)) :=
  fun _ => rfl

theorem returns_isAlive (w : World) :
    Returns isAlive w (match w.liveness with | some l => l.alive | none => false) w :=
  fun _ => rfl

end Interface

end LuaHost
