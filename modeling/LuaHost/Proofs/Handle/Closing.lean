import LuaHost.Proofs.Handle.Ownership

/-!
# Handles and the end of their machine

Handles may be dropped before their machine is closed, while it is being closed
and later.  Up to the start of the closing a dropped handle releases its number;
from then on it only gives up its share in the flag, which lasts as long as
anything can read it.
-/

namespace LuaHost

namespace Ownership

open Interface Machine Session

/-!
# Closing as a part of a run
-/

/-- Closing a machine is a run when what its finalizers do is one. -/
theorem Run.close {s s' : State} {E : Engine} {w₁ w : World} (hrunning : s.phase = .running)
    (hbegin : beginClose E s.world = .ok () w₁) (hshut : shutDown E w₁ = .ok () s'.world)
    (hfinalizers : Run { s with world := w₁, phase := .closing } s')
    (hclosing : s'.phase = .closing) (hend : endClose E s'.world = .ok () w) :
    closeMachine E s.world = .ok () w ∧
      Run s { s' with world := w, phase := .closed, lapsed := [] } := by
  refine ⟨?_, ?_⟩
  · rw [closeMachine_eq, bind_of_ok hbegin, bind_of_ok hshut]
    exact hend
  · have hstart : Step s { s with world := w₁, phase := .closing } := .beginClose hrunning hbegin
    exact ((Relation.ReflTransGen.single hstart).trans hfinalizers).tail (.endClose hclosing hend)

/-!
# What holds before and after the end
-/

/-- How the flag and the registry stand to the handles of a state. -/
structure Settled (s : State) : Prop where
  /-- The owners of the flag are the owned handles, and until the machine is closed the machine and
  the registry; it says whether the machine still runs. -/
  owners_eq : s.world.liveness = Liveness.owned s.phase.alive (sharesOf s.held + s.phase.shares)
  /-- The flag is freed once all of them are gone, and not before. -/
  freed_iff : s.world.liveness = none ↔
    s.phase = .closed ∧ forall x, x ∈ s.held -> x.handle.owned? = none
  /-- The registry points to the flag until the machine is closed. -/
  pointed : s.phase ≠ .closed ->
    s.world.registryTable.getStr aliveField.toUTF8 = .light flagAddress
  /-- Every owned handle has its share in the flag. -/
  flagged : forall x, x ∈ s.held -> forall r, x.handle.owned? = some r -> r.flagged = true
  /-- While the machine runs, the numbers that are taken are those of the handles. -/
  ledger : s.phase = .running -> Ledger (entriesOf s.held) s.world
  /-- An owned handle that is dropped while the machine runs releases its number and no other. -/
  early : s.phase = .running -> forall before x after, s.held = before ++ x :: after ->
    x.handle.owned?.isSome = true -> exists w, Returns x.handle.drop s.world () w ∧
      Ledger (entriesOf (before ++ after)) w ∧
      w.liveness = Liveness.owned true (sharesOf (before ++ after) + 2)
  /-- One that is dropped later gives up its share in the flag, and does nothing else. -/
  late : s.phase ≠ .running -> forall before x after, s.held = before ++ x :: after ->
    x.handle.owned?.isSome = true ->
      Returns x.handle.drop s.world ()
        (s.world.withLiveness (Liveness.owned false (sharesOf (before ++ after) + s.phase.shares)))

theorem sharesOf_eq_zero {xs : List Holding} :
    sharesOf xs = 0 ↔ forall x, x ∈ xs -> x.handle.owned? = none := by
  induction xs with
  | nil => exact Iff.intro (fun _ _ hx => absurd hx List.not_mem_nil) fun _ => rfl
  | cons x xs ih =>
      have hcons : sharesOf (x :: xs) = x.handle.shares + sharesOf xs := rfl
      have hshares : x.handle.shares = 0 ↔ x.handle.owned? = none := by
        unfold Handle.shares
        cases x.handle.owned? <;> simp
      rw [hcons, Nat.add_eq_zero_iff, ih, hshares, List.forall_mem_cons]

theorem Phase.shares_eq_zero {p : Phase} : p.shares = 0 ↔ p = .closed := by
  cases p <;> decide

variable {s : State}

/-- An owned handle that is dropped when the machine does not run any longer. -/
theorem Sound.late (h : Sound s) (hphase : s.phase ≠ .running) {before after : List Holding}
    {x : Holding} (hheld : s.held = before ++ x :: after)
    (howned : x.handle.owned?.isSome = true) :
    Returns x.handle.drop s.world ()
      (s.world.withLiveness
        (Liveness.owned false (sharesOf (before ++ after) + s.phase.shares))) := by
  rcases Option.isSome_iff_exists.mp howned with ⟨r, hr⟩
  have halive : s.phase.alive = false := by
    rw [← Bool.not_eq_true, Phase.alive_eq]
    exact hphase
  have hliveness := h.liveness_eq
  rw [halive, hheld, sharesOf_append, Handle.shares_of_owned hr, Nat.add_right_comm] at hliveness
  rw [Handle.drop_eq, hr]
  exact returns_drop_late ((h.suits_of hheld).flagged r hr) hliveness

/-- In every run from a machine that has just been opened, handles can be dropped at any time
before, during and after the closing. -/
theorem run_settled {libraries : Bool} {E : Engine} {w : World}
    (hopen : openMachine libraries E freshWorld = .ok () w) (hrun : Run { world := w } s) :
    Settled s := by
  have hsound := sound_run (sound_opened hopen) hrun
  refine ⟨hsound.liveness_eq, ?_, ?_, fun x hx => (hsound.suits x hx).flagged, ?_, ?_, ?_⟩
  · rw [hsound.liveness_eq, Liveness.owned_eq_none, Nat.add_eq_zero_iff, sharesOf_eq_zero,
      Phase.shares_eq_zero]
    exact and_comm
  · intro hphase
    rcases (hsound.ledger hphase).whole with ⟨n, hwhole⟩
    exact hwhole.flagged
  · intro hrunning
    have hledger := hsound.ledger (hrunning ▸ nofun)
    unfold State.entries at hledger
    rw [hsound.lapsed hrunning, List.append_nil] at hledger
    exact hledger
  · intro hrunning before x after hheld howned
    rcases returns_dropHandle (hsound.standing (hrunning ▸ nofun) hheld) howned with
      ⟨w', hdrop, hledger, hliveness⟩
    rw [remainder_running hrunning, hsound.lapsed hrunning, List.nil_append,
      List.append_nil] at hledger
    rw [hrunning] at hliveness
    exact ⟨w', hdrop, hledger, hliveness⟩
  · intro hphase before x after hheld howned
    exact hsound.late hphase hheld howned

/-- The machine begins to close, the handle that is left is dropped, and the machine is closed. -/
@[irreducible] def closingWorld : World := after beginClose droppedWorld

@[irreducible] def lateWorld : World := after (OwnedRef.drop ⟨⟨0⟩, 5, true⟩) closingWorld

@[irreducible] def closedWorld : World := after endClose lateWorld

theorem answered_closed :
    answer? beginClose droppedWorld = some () ∧
      answer? (OwnedRef.drop ⟨⟨0⟩, 5, true⟩) closingWorld = some () ∧
      answer? endClose lateWorld = some () := by
  decide +kernel

theorem run_settled_closed :
    exists s, Run { world := openedWorld } s ∧ s.phase = .closed ∧ s.held = [] ∧
      s.world.liveness = none ∧ Settled s := by
  let y : Holding := ⟨.ownedRef ⟨⟨0⟩, 5, true⟩, pushedWorld.valueAt ⟨0⟩ (-1)⟩
  rcases answered_closed with ⟨hclosing, hdropped, hclosed⟩
  have hbegin : Step { world := droppedWorld, held := [y] }
      { world := closingWorld, phase := .closing, held := [y] } := by
    unfold closingWorld
    exact .beginClose rfl (ok_after hclosing)
  have hlate : Step { world := closingWorld, phase := .closing, held := [y] }
      { world := lateWorld, phase := .closing, lapsed := y.entries } := by
    unfold lateWorld
    exact @Step.gone { world := closingWorld, phase := .closing, held := [y] } [] [] y .drop idle _
      nofun rfl (bind_of_ok (ok_after hdropped) _)
  have hend : Step { world := lateWorld, phase := .closing, lapsed := y.entries }
      { world := closedWorld, phase := .closed } := by
    unfold closedWorld
    exact .endClose rfl (ok_after hclosed)
  have hrun := ((run_dropped.tail hbegin).tail hlate).tail hend
  have hsettled := run_settled ok_openedWorld hrun
  have hfreed := hsettled.freed_iff.mpr ⟨rfl, fun _ hx => absurd hx List.not_mem_nil⟩
  exact ⟨_, hrun, rfl, rfl, hfreed, hsettled⟩

end Ownership

end LuaHost
