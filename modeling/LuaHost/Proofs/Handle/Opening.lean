import LuaHost.Proofs.Interface.Launching

/-!
# Opening a machine

Opening puts the address of the flag into the registry.  The standard library is
installed beside it: none of its names is the one of the flag.
-/

namespace LuaHost

namespace World

variable {w w' : World}

theorem spared_withTables {s : Store Table} (n : Nat)
    (hlive : w.registryLive = true -> s.live w.registry.index = true)
    (huntouched : w.registryLive = true ->
      Interface.Untouched w.registryTable (s.get w.registry.index)) :
    w.Kept (w.withTables s n) :=
  ⟨⟨rfl, hlive, huntouched⟩, rfl⟩

/-- Installing a library keeps the slots of the registry and the flag. -/
theorem Installed.kept (h : w.Installed w') : w.Kept w' := by
  refine ⟨⟨h.registry_eq, fun hlive => ?_, fun hlive => ?_⟩, h.liveness_eq⟩
  · unfold registryLive
    rw [h.registry_eq]
    exact (h.get hlive).1
  · unfold registryTable
    rw [h.registry_eq]
    exact (h.get hlive).2.untouched

end World

theorem Machine.keeps_newTable (T : Table) : Keeps World.Kept (newTable T) := by
  refine ⟨fun E w => ?_⟩
  rcases (installs_newTable T).run w with ⟨_, w', hrun, hinstalled⟩
  exact hrun.ends hinstalled.kept

namespace Interface

open Machine

/-!
# The registry of a new machine
-/

theorem whole_openedTable : Whole openedTable 2 := by
  refine ⟨⟨by decide, ?_⟩, ⟨by decide, by decide +kernel, by decide +kernel⟩, ?_, ?_⟩
  · intro i
    have hone : mainThreadPlace = i ↔ i.toInt = 1 := by
      rw [← Int64.toInt_inj, show mainThreadPlace.toInt = 1 by decide]
      exact eq_comm
    have htwo : globalsPlace = i ↔ i.toInt = 2 := by
      rw [← Int64.toInt_inj, show globalsPlace.toInt = 2 by decide]
      exact eq_comm
    rw [getInt_openedTable]
    by_cases h₂ : globalsPlace = i
    · rw [if_pos h₂, htwo.mp h₂]
      exact ⟨fun _ => by decide, fun _ => nofun⟩
    · by_cases h₁ : mainThreadPlace = i
      · rw [if_neg h₂, if_pos h₁, hone.mp h₁]
        exact ⟨fun _ => by decide, fun _ => nofun⟩
      · rw [if_neg h₂, if_neg h₁]
        rw [htwo] at h₂
        rw [hone] at h₁
        refine ⟨fun h => absurd rfl h, fun h => ?_⟩
        omega
  · exact (Table.find_put _ _ _ _).trans (if_pos rfl)
  · exact (Table.metatable_put _ _ _).trans metatable_freshTable

/-- No number is taken yet, and none was released. -/
theorem slots_openedTable : Slots openedTable [] [] 2 := by
  have hfree : openedTable.getInt freeSlot = .nil := by
    rw [getInt_openedTable, if_neg (by decide), if_neg (by decide)]
  refine ⟨whole_openedTable, Nat.le_refl 2, fun h => absurd h (by decide), List.Perm.refl _, ?_⟩
  unfold FreeList
  rw [hfree]

/-- In a machine that has just been opened, with or without the standard library, no number is
taken, and the machine and the registry share the flag. -/
theorem ledger_opened {libraries : Bool} {E : Engine} {w : World}
    (h : openMachine libraries E freshWorld = .ok () w) :
    Ledger [] w ∧ w.liveness = Liveness.owned true 2 := by
  rcases openMachine_eq libraries default with ⟨w₀, hequipped, hopen⟩
  have hslots : Ledger [] w₀ := by
    refine ⟨⟨hequipped.registry_live, [], 2, by decide, ?_⟩, fun _ _ hmem => nomatch hmem⟩
    rw [hequipped.registry_eq]
    exact slots_openedTable
  have hlibraries : Installs (if libraries then Library.openAll else pure () : M Unit) := by
    cases libraries with
    | true => exact Library.installs_openAll
    | false => exact Installs.pure ()
  rcases hlibraries.run w₀ with ⟨_, w', hrun, hinstalled⟩
  rcases hrun.ok_eq ((hopen E).symm.trans h) with ⟨_, rfl⟩
  have hkept := hinstalled.kept
  exact ⟨hslots.spared hkept.toSpared, hkept.liveness_eq.trans hequipped.liveness_eq⟩

end Interface

end LuaHost
