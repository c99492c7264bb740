import LuaHost.Proofs.Handle.Lasting
import LuaHost.Proofs.Handle.Ownership
import LuaHost.Proofs.Handle.Threads

/-!
# Handles that outlive their threads

A handle keeps its value alive, but not the thread that it works through.  The
thread is there for as long as every cycle finds it reachable.  After a cycle
that does not, the handle works through a thread that is gone.
-/

namespace LuaHost

namespace Attachment

open Interface Machine Session World

open Ownership (openedWorld ok_openedWorld)

/-!
# Runs
-/

/-- A live handle. -/
structure Holding where
  handle : Handle
  /-- Whether a cycle has found the thread unreachable since the handle, or the one that it was
  made from, was created. -/
  parted : Prop

/-- An open machine with the handles that are live. -/
structure State where
  world : World
  held : List Holding := []

/-- A handle after a cycle that runs on behalf of a thread. -/
def Holding.collected (w : World) (running : ThreadId) (x : Holding) : Holding :=
  { x with parted := x.parted ∨ exists t, x.handle.through? = some t ∧
      ¬w.heap.Reachable (roots w running) (.thread t) }

/-- One step of a run.  Handles are created from the stacks of threads that there are.  Scripts may
do anything but give a metatable to the registry; the cycles that they cause are steps of their
own. -/
inductive Step : State → State → Prop where
  | newThread {s : State} {t c : ThreadId} {E : Engine} {w : World} :
      s.world.liveThread t = true -> Interface.newThread t E s.world = .ok c w ->
      Step s { s with world := w }
  | create {s : State} {t : ThreadId} {c : CreateStep} {E : Engine} {x : Handle} {w : World} :
      s.world.liveThread t = true -> createHandle t c E s.world = .ok x w ->
      Step s { s with world := w, held := ⟨x, False⟩ :: s.held }
  | createFails {s : State} {t : ThreadId} {c : CreateStep} {E : Engine} {r : Raise} {w : World} :
      createHandle t c E s.world = .error r w -> Step s { s with world := w }
  | copy {s : State} {x : Holding} {E : Engine} {y : Handle} {w : World} : x ∈ s.held ->
      x.handle.copy E s.world = .ok y w ->
      Step s { s with world := w, held := ⟨y, x.parted⟩ :: s.held }
  | copyFails {s : State} {x : Holding} {E : Engine} {r : Raise} {w : World} : x ∈ s.held ->
      x.handle.copy E s.world = .error r w -> Step s { s with world := w }
  | push {s : State} {t : ThreadId} {x : Holding} {E : Engine} {w : World} : x ∈ s.held ->
      Leads (x.handle.push t) E s.world w -> Step s { s with world := w }
  | turn {s : State} {before after : List Holding} {x : Holding} {a : Turn} {E : Engine}
      {y : Handle} {w : World} : s.held = before ++ x :: after ->
      a.run x.handle E s.world = .ok (some y) w ->
      Step s { s with world := w, held := before ++ ⟨y, x.parted⟩ :: after }
  | gone {s : State} {before after : List Holding} {x : Holding} {a : Turn} {E : Engine}
      {w : World} : s.held = before ++ x :: after -> a.run x.handle E s.world = .ok none w ->
      Step s { s with world := w, held := before ++ after }
  | turnFails {s : State} {x : Holding} {a : Turn} {E : Engine} {r : Raise} {w : World} :
      x ∈ s.held -> a.run x.handle E s.world = .error r w -> Step s { s with world := w }
  | stack {s : State} {t : ThreadId} {c : StackStep} {b : Book} {E : Engine} {w : World} :
      Leads (runStack t c b) E s.world w -> Step s { s with world := w }
  | script {s : State} {w : World} : s.world.Lasting w -> Step s { s with world := w }
  | collect {s : State} {t : ThreadId} : SoundWorld t s.world ->
      Step s ⟨cycle s.world t, s.held.map (Holding.collected s.world t)⟩

abbrev Run : State → State → Prop := Relation.ReflTransGen Step

/-!
# The invariant
-/

/-- The thread is the main one, or it is there. -/
def Present (w : World) (t : ThreadId) : Prop := t = w.mainThread ∨ w.liveThread t = true

/-- A handle that no cycle has parted from its thread works through a thread that is there. -/
def Holding.Attached (w : World) (x : Holding) : Prop :=
  ¬x.parted -> forall t, x.handle.through? = some t -> Present w t

/-- What every run keeps. -/
structure Inv (s : State) : Prop where
  plain : s.world.PlainRegistry
  attached : forall x, x ∈ s.held -> x.Attached s.world

variable {s s' : State}

theorem present_lasting {w w' : World} {t : ThreadId} (hplain : w.PlainRegistry)
    (h : w.Lasting w') (ht : Present w t) : Present w' t := by
  rcases ht with hmain | hlive
  · exact Or.inl (hmain.trans (h.main_eq hplain).symm)
  · exact Or.inr (h.live hplain t hlive)

theorem Inv.lasting (h : Inv s) {w : World} (hw : s.world.Lasting w) :
    Inv { s with world := w } :=
  ⟨hw.plain h.plain, fun x hx hparted t ht =>
    present_lasting h.plain hw (h.attached x hx hparted t ht)⟩

/-- Other handles, each of which was there or comes from one that was. -/
theorem Inv.replaced (h : Inv s) {w : World} (hw : s.world.Lasting w) {held : List Holding}
    (hheld : forall y, y ∈ held -> exists x, x ∈ s.held ∧ y.parted = x.parted ∧
      Through x.handle.through? y.handle) :
    Inv { s with world := w, held } := by
  refine ⟨hw.plain h.plain, ?_⟩
  intro y hy hparted t ht
  rcases hheld y hy with ⟨x, hx, heq, hthrough⟩
  rw [heq] at hparted
  exact present_lasting h.plain hw (h.attached x hx hparted t (hthrough t ht))

theorem inv_step (h : Inv s) (hstep : Step s s') : Inv s' := by
  have hkept {x : Holding} (hx : x ∈ s.held) : exists y, y ∈ s.held ∧ x.parted = y.parted ∧
      Through y.handle.through? x.handle :=
    ⟨x, hx, rfl, through_self x.handle⟩
  -- handles come from handles that work through the same thread; only creating one names a thread,
  -- and that is live
  cases hstep with
  | newThread _ hok => exact h.lasting ((lasting_pushNewThread _).leads (.ok _ hok))
  | @create t c E x w hlive hok =>
      have hw := (lasting_createHandle t c).leads (.ok _ hok)
      refine ⟨hw.plain h.plain, ?_⟩
      intro y hy hparted u hu
      cases hy with
      | head =>
          cases yields_createHandle t c E s.world x w hok u hu
          exact Or.inr (hw.live h.plain t hlive)
      | tail _ hy => exact present_lasting h.plain hw (h.attached y hy hparted u hu)
  | createFails herror => exact h.lasting ((lasting_createHandle _ _).leads (.error _ herror))
  | @copy x E y w hx hok =>
      refine h.replaced ((lasting_copy _).leads (.ok _ hok)) ?_
      intro z hz
      cases hz with
      | head => exact ⟨x, hx, rfl, yields_copy _ E s.world y w hok⟩
      | tail _ hz => exact hkept hz
  | copyFails _ herror => exact h.lasting ((lasting_copy _).leads (.error _ herror))
  | push _ hleads => exact h.lasting ((lasting_push _ _).leads hleads)
  | @turn before after x a E y w hheld hok =>
      refine h.replaced ((lasting_turn _ _).leads (.ok _ hok)) ?_
      intro z hz
      rw [hheld] at hkept ⊢
      rcases List.mem_append.mp hz with hz | hz
      · exact hkept (List.mem_append_left _ hz)
      · cases hz with
        | head =>
            refine ⟨x, List.mem_append_right _ (List.mem_cons_self ..), rfl, ?_⟩
            exact yields_turn a _ E s.world (some y) w hok y rfl
        | tail _ hz => exact hkept (List.mem_append_right _ (List.mem_cons_of_mem _ hz))
  | gone hheld hok =>
      refine h.replaced ((lasting_turn _ _).leads (.ok _ hok)) ?_
      intro z hz
      rw [hheld] at hkept ⊢
      rcases List.mem_append.mp hz with hz | hz
      · exact hkept (List.mem_append_left _ hz)
      · exact hkept (List.mem_append_right _ (List.mem_cons_of_mem _ hz))
  | turnFails _ herror => exact h.lasting ((lasting_turn _ _).leads (.error _ herror))
  | stack hleads => exact h.lasting ((keeps_runStack _ _ _).leads hleads)
  | script hw => exact h.lasting hw
  | collect hsound =>
      rcases Lifetimes.collected_shared (cycle_collected hsound) h.plain.live h.plain.plain with
        ⟨hlive, htable, _⟩
      refine ⟨⟨hlive, (congrArg Table.metatable htable).trans h.plain.plain⟩, ?_⟩
      intro y hy hparted t ht
      rcases List.mem_map.mp hy with ⟨x, hx, rfl⟩
      -- the cycle has parted those handles whose thread it did not reach; the thread of any other
      -- is still there
      have hboth := not_or.mp hparted
      rcases h.attached x hx hboth.1 t ht with hmain | hpresent
      · exact Or.inl hmain
      · refine Or.inr (live_cycle hsound ?_ hpresent)
        by_contra hunreachable
        exact hboth.2 ⟨t, ht, hunreachable⟩

/-- In every run of an open machine, a handle works through the main thread or through one that has
not been collected, as long as no cycle has found its thread unreachable. -/
theorem run_attached {libraries : Bool} {E : Engine} {w : World}
    (hopen : openMachine libraries E freshWorld = .ok () w) (hrun : Run { world := w } s)
    {x : Holding} (hx : x ∈ s.held) (hparted : ¬x.parted) {t : ThreadId}
    (ht : x.handle.through? = some t) : t = s.world.mainThread ∨ s.world.liveThread t = true := by
  have hledger := (ledger_opened hopen).1
  have hbegin : Inv { world := w } :=
    ⟨⟨hledger.tracks.1, hledger.plain⟩, fun _ hx => absurd hx List.not_mem_nil⟩
  have hinv : Inv s := by
    clear hx
    induction hrun with
    | refl => exact hbegin
    | tail _ hstep ih => exact inv_step ih hstep
  exact hinv.attached x hx hparted t ht

/-- A new thread was pushed on the main stack. -/
@[irreducible] def spawnedWorld : World := after (Interface.newThread ⟨0⟩) openedWorld

/-- A number was pushed on the stack of the thread. -/
@[irreducible] def filledWorld : World := after (pushInteger ⟨1⟩ 42) spawnedWorld

/-- A handle was created from it. -/
@[irreducible] def heldWorld : World := after (OwnedRef.popFrom ⟨1⟩) filledWorld

/-- The thread was popped from the main stack. -/
@[irreducible] def droppedWorld : World := after (Interface.pop ⟨0⟩ 1) heldWorld

theorem answered_held :
    answer? (Interface.newThread ⟨0⟩) openedWorld = some ⟨1⟩ ∧
      answer? (pushInteger ⟨1⟩ 42) spawnedWorld = some () ∧
      answer? (OwnedRef.popFrom ⟨1⟩) filledWorld = some ⟨⟨1⟩, 4, true⟩ ∧
      answer? (Interface.pop ⟨0⟩ 1) heldWorld = some () ∧
      answer? (OwnedRef.drop ⟨⟨1⟩, 4, true⟩) (cycle droppedWorld ⟨0⟩) = some () := by
  decide +kernel

theorem facts_held : openedWorld.liveThread ⟨0⟩ = true ∧ filledWorld.liveThread ⟨1⟩ = true ∧
    SoundWorld ⟨0⟩ heldWorld ∧ SoundWorld ⟨0⟩ droppedWorld ∧
    ObjectId.thread ⟨0⟩ ∈ roots heldWorld ⟨0⟩ ∧
    ObjectId.thread ⟨1⟩ ∈ heldWorld.heap.successors (.thread ⟨0⟩) := by
  decide +kernel

/-- A run that creates a handle through a thread that is on the main stack. -/
theorem run_held :
    Run { world := openedWorld }
      { world := heldWorld, held := [⟨.ownedRef ⟨⟨1⟩, 4, true⟩, False⟩] } := by
  rcases answered_held with ⟨hspawned, hfilled, hheld, _⟩
  have hspawn : Step { world := openedWorld } { world := spawnedWorld } := by
    unfold spawnedWorld
    exact .newThread facts_held.1 (ok_after hspawned)
  have hfill : Step { world := spawnedWorld } { world := filledWorld } := by
    unfold filledWorld
    exact .script ((keeps_pushNew ⟨1⟩ (.int 42)).leads (.ok () (ok_after hfilled)))
  have hcreate : Step { world := filledWorld }
      { world := heldWorld, held := [⟨.ownedRef ⟨⟨1⟩, 4, true⟩, False⟩] } := by
    unfold heldWorld
    exact .create (c := .ownedPop) facts_held.2.1 (bind_of_ok (ok_after hheld) _)
  exact ((Relation.ReflTransGen.single hspawn).tail hfill).tail hcreate

theorem reachable_held : heldWorld.heap.Reachable (roots heldWorld ⟨0⟩) (.thread ⟨1⟩) := by
  rcases facts_held with ⟨_, _, _, _, hroot, hsuccessor⟩
  exact .held (.root hroot) hsuccessor

theorem run_attached_held :
    exists s x, Run { world := openedWorld } s ∧ x ∈ s.held ∧ ¬x.parted ∧
      x.handle.through? = some ⟨1⟩ ∧
      ((⟨1⟩ : ThreadId) = s.world.mainThread ∨ s.world.liveThread ⟨1⟩ = true) := by
  have hcollect := run_held.tail (.collect facts_held.2.2.1)
  have hparted : ¬(Holding.collected heldWorld ⟨0⟩ ⟨.ownedRef ⟨⟨1⟩, 4, true⟩, False⟩).parted := by
    rintro (hfalse | ⟨_, ⟨⟩, hunreachable⟩)
    · exact hfalse
    · exact hunreachable reachable_held
  have hmem := List.mem_singleton_self
    (Holding.collected heldWorld ⟨0⟩ ⟨.ownedRef ⟨⟨1⟩, 4, true⟩, False⟩)
  exact ⟨_, _, hcollect, hmem, hparted, rfl,
    run_attached ok_openedWorld hcollect hmem hparted rfl⟩

/-- The last reference to the thread of a handle is popped, and a cycle runs: the handle works
through a thread that has been collected, and can still be released through it. -/
theorem outlives_thread :
    exists s x, Run { world := openedWorld } s ∧ x ∈ s.held ∧ x.handle.through? = some ⟨1⟩ ∧
      (⟨1⟩ : ThreadId) ≠ s.world.mainThread ∧ s.world.liveThread ⟨1⟩ = false ∧
      exists w, x.handle.drop idle s.world = .ok () w := by
  rcases answered_held with ⟨_, _, _, hpopped, hreleased⟩
  have hpop : Step { world := heldWorld, held := [⟨.ownedRef ⟨⟨1⟩, 4, true⟩, False⟩] }
      { world := droppedWorld, held := [⟨.ownedRef ⟨⟨1⟩, 4, true⟩, False⟩] } := by
    unfold droppedWorld
    exact .script ((keeps_pop ⟨0⟩ 1).leads (.ok () (ok_after hpopped)))
  have hcollect := (run_held.tail hpop).tail (.collect facts_held.2.2.2.1)
  have hgone : (⟨1⟩ : ThreadId) ≠ (cycle droppedWorld ⟨0⟩).mainThread ∧
      (cycle droppedWorld ⟨0⟩).liveThread ⟨1⟩ = false := by
    decide +kernel
  exact ⟨_, _, hcollect, List.mem_singleton_self _, rfl, hgone.1, hgone.2, _, ok_after hreleased⟩

end Attachment

end LuaHost
