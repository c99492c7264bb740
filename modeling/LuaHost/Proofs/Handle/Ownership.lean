import LuaHost.Handle.Typed
import LuaHost.Proofs.Handle.Runs
import LuaHost.Proofs.UserData.Lifetimes

/-!
# Ownership of registered values

While a machine runs, the numbers that are taken are those of the live handles,
each with the value that it was taken for.  So two handles share no number, the
value behind a handle has the handle's type, and each handle can be released.
-/

namespace LuaHost

namespace Interface

open Machine Session

variable {es : List (RefId × Value)} {w w' : World} {E : Engine} {v : Value}

/-!
# Handles of a known type
-/

end Interface

namespace Ownership

open Interface Machine Session

/-!
# What is owned
-/

variable {s : State}

theorem entries_of_id {x : Holding} {id : RefId} (hid : x.handle.id? = some id)
    (hne : id ≠ nilRef) : x.entries = [(id, x.origin)] := by
  unfold Holding.entries Handle.entries
  rw [hid]
  exact entry_of_ne hne _

theorem Sound.distinct (h : Sound s) (hopen : s.phase ≠ .closed) :
    s.held.Pairwise fun x y =>
      forall id, x.handle.id? = some id -> y.handle.id? = some id -> id = nilRef := by
  have hnodup := (h.ledger hopen).tracks.nodup
  unfold State.entries entriesOf at hnodup
  rw [List.map_append, List.map_flatMap] at hnodup
  have hpairwise := (List.nodup_flatMap.mp (List.Nodup.of_append_left hnodup)).2
  refine hpairwise.imp ?_
  intro x y hdisjoint id hx hy
  by_contra hne
  have hx' : id ∈ x.entries.map Prod.fst := by
    rw [entries_of_id hx hne]
    exact List.mem_singleton_self id
  have hy' : id ∈ y.entries.map Prod.fst := by
    rw [entries_of_id hy hne]
    exact List.mem_singleton_self id
  exact hdisjoint hx' hy'

theorem Sound.registered (h : Sound s) (hopen : s.phase ≠ .closed) {x : Holding}
    (hx : x ∈ s.held) {id : RefId} (hid : x.handle.id? = some id) (hne : id ≠ nilRef) :
    s.world.registered id = x.origin := by
  refine (h.ledger hopen).registered id x.origin (List.mem_append_left _ ?_)
  refine entries_of_mem hx ?_
  rw [entries_of_id hid hne]
  exact List.mem_singleton_self _

theorem Sound.typed (h : Sound s) {x : Holding} (hx : x ∈ s.held) {k : RefKind} {r : OwnedRef}
    (hhandle : x.handle = .typed k r) :
    entry r.id x.origin ⊆ s.entries ∧ (r.id = nilRef -> x.origin = .nil) ∧
      x.origin.kind = k.kind := by
  have hsuits := h.suits x hx
  rw [hhandle] at hsuits
  refine ⟨?_, (hsuits.nil_iff r.id rfl).mp, hsuits.kind_eq k rfl⟩
  have hsub := List.Subset.trans (entries_of_mem hx) (List.subset_append_left _ s.lapsed)
  unfold Holding.entries at hsub
  rw [hhandle] at hsub
  exact hsub

/-- A machine was opened. -/
@[irreducible] def openedWorld : World := after (openMachine false) freshWorld

/-- The registry was pushed on the main stack. -/
@[irreducible] def pushedWorld : World := after (Interface.pushValue ⟨0⟩ registryIndex) openedWorld

/-- A handle was created from it. -/
@[irreducible] def createdWorld : World := after (OwnedRef.popFrom ⟨0⟩) pushedWorld

/-- The handle was copied, and then dropped. -/
@[irreducible] def copiedWorld : World := after (OwnedRef.copy ⟨⟨0⟩, 4, true⟩) createdWorld

@[irreducible] def droppedWorld : World := after (OwnedRef.drop ⟨⟨0⟩, 4, true⟩) copiedWorld

theorem answered_dropped :
    answer? (openMachine false) freshWorld = some () ∧
      answer? (Interface.pushValue ⟨0⟩ registryIndex) openedWorld = some () ∧
      answer? (OwnedRef.popFrom ⟨0⟩) pushedWorld = some ⟨⟨0⟩, 4, true⟩ ∧
      answer? (OwnedRef.copy ⟨⟨0⟩, 4, true⟩) createdWorld = some ⟨⟨0⟩, 5, true⟩ ∧
      answer? (OwnedRef.drop ⟨⟨0⟩, 4, true⟩) copiedWorld = some () := by
  decide +kernel

theorem ok_openedWorld : openMachine false idle freshWorld = .ok () openedWorld := by
  unfold openedWorld
  exact ok_after answered_dropped.1

/-- A run that pushes the registry, creates a handle from it, copies the handle and drops it. -/
theorem run_dropped :
    Run { world := openedWorld }
      { world := droppedWorld
        held := [⟨.ownedRef ⟨⟨0⟩, 5, true⟩, pushedWorld.valueAt ⟨0⟩ (-1)⟩] } := by
  let v := pushedWorld.valueAt ⟨0⟩ (-1)
  let x : Holding := ⟨.ownedRef ⟨⟨0⟩, 4, true⟩, v⟩
  let y : Holding := ⟨.ownedRef ⟨⟨0⟩, 5, true⟩, v⟩
  rcases answered_dropped with ⟨_, hpushed, hcreated, hcopied, hdropped⟩
  have hpush : Step { world := openedWorld } { world := pushedWorld } := by
    unfold pushedWorld
    exact .stack (c := .pushValue registryIndex) (b := {}) nofun
      (.ok (.nothing, {}) ((bind_of_ok (bind_of_ok (ok_after hpushed) _) _).trans rfl))
  have hcreate : Step { world := pushedWorld } { world := createdWorld, held := [x] } := by
    unfold createdWorld
    exact .create (c := .ownedPop) nofun rfl (by decide) (bind_of_ok (ok_after hcreated) _)
  have hcopy : Step { world := createdWorld, held := [x] }
      { world := copiedWorld, held := [y, x] } := by
    unfold copiedWorld
    exact .copy (x := x) nofun (List.mem_singleton_self _) (by decide)
      (bind_of_ok (ok_after hcopied) _)
  have hdrop : Step { world := copiedWorld, held := [y, x] }
      { world := droppedWorld, held := [y] } := by
    unfold droppedWorld
    exact @Step.gone { world := copiedWorld, held := [y, x] } [y] [] x .drop idle _ nofun rfl
      (bind_of_ok (ok_after hdropped) _)
  exact (((Relation.ReflTransGen.single hpush).tail hcreate).tail hcopy).tail hdrop

end Ownership

end LuaHost
