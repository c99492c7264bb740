import LuaHost.Proofs.Handle.Sharing
import LuaHost.Proofs.Interface.Installing
import LuaHost.Proofs.Interface.Working

/-!
# Opening a machine

A machine that is opened gets the flag of handles, and then its libraries.  Both
come to an end, whatever surrounds the machine, and leave nothing on the stack.
-/

namespace LuaHost

namespace Interface

open Machine World

/-- A machine in its surroundings, before it is opened. -/
def worldIn (surroundings : Outside) : World := { freshWorld with outside := surroundings }

/-- The registry before its machine is opened. -/
def freshTable : Table :=
  ((Table.withRoom 2 0).setInt mainThreadPlace (.thread ⟨0⟩)).setInt globalsPlace (.table ⟨1⟩)

/-- The registry when its machine has been opened, without a library. -/
def openedTable : Table := freshTable.put (.ofText aliveField) (.light flagAddress)

theorem metatable_freshTable : freshTable.metatable = none :=
  (Table.metatable_put _ _ _).trans (Table.metatable_put _ _ _)

theorem getInt_openedTable (i : Int64) :
    openedTable.getInt i =
      if globalsPlace = i then .table ⟨1⟩
      else if mainThreadPlace = i then .thread ⟨0⟩
      else .nil := by
  unfold openedTable freshTable Table.getInt Table.setInt
  rw [Table.find_put, if_neg nofun, Table.find_put, Table.find_put, Table.find_withRoom]
  simp only [Value.int.injEq]

section Flag

variable {t : ThreadId} {w w' : World} {E : Engine}

theorem ok_setField_registry (hlive : w.liveThread t = true) (hpos : 1 ≤ (w.thread t).top)
    (hplain : w.registryTable.metatable = none) {name : String}
    (h : setField t registryIndex name E w = .ok () w') :
    exists th, (w.thread t).Steady 0 th ∧ w' = (w.setRegistry (w.registryTable.put (.ofText name)
      ((w.thread t).slot ((w.thread t).top - 1)))).setThread t th := by
  have hvalid : validIndex (w.thread t).height registryIndex = true := by
    unfold validIndex registryIndex
    simp
  unfold setField at h
  have h := (returns_checkIndex hvalid).ok_bind h
  have habs : Returns (absIndex t registryIndex) w registryIndex w := Returns.pure _ w
  have h := habs.ok_bind h
  rcases ok_bind h with ⟨_, w₁, hpush, h⟩
  have hsteady := ((steadies_pushNew _).run hlive hpush).2
  rcases ok_pushNew hpush with ⟨th, htopped, rfl⟩
  have htop := htopped.top_eq
  have hth : (w.setThread t th).thread t = th := World.thread_setThread hlive th
  rw [hth] at hsteady
  rcases ok_bind h with ⟨_, w₂, hinsert, h⟩
  have hw₂ := ok_insert hinsert
  rw [hth, World.setThread_setThread] at hw₂
  subst hw₂
  -- the name stands below the value now
  have hswap : (w.setThread t th.swapTop).thread t = th.swapTop := World.thread_setThread hlive _
  have hname : th.swapTop.slot (th.swapTop.top - 2) = .str name.toUTF8 := by
    rw [Thread.top_swapTop, Thread.slot_swapTop, if_neg (by omega), if_pos rfl,
      show th.top - 2 + 1 = (w.thread t).top by omega, htopped.slot_top]
    rfl
  have hvalue : th.swapTop.slot (th.swapTop.top - 1) =
      (w.thread t).slot ((w.thread t).top - 1) := by
    rw [Thread.top_swapTop, Thread.slot_swapTop, if_pos (by omega),
      htopped.below.slot_eq _ (by omega), show th.top - 2 = (w.thread t).top - 1 by omega]
  have hread := returns_value_registry (w.setThread t th.swapTop) t
  have hwrite := returns_writePair hread hplain (by rw [hswap, hname]; exact ⟨nofun, nofun⟩)
  rw [hswap, hname, hvalue] at hwrite
  refine ⟨th.swapTop.drop 2, (hsteady.trans (Thread.steady_putSlots _ th (Nat.zero_le _))).trans
    (Thread.steady_withTop 0 _ _), ?_⟩
  unfold World.setRegistry World.registryTable
  rw [← (hwrite.ok_eq h).2, ← Store.modify_eq_write w.heap.tables w.registry.index fun T =>
    T.put (.ofText name) ((w.thread t).slot ((w.thread t).top - 1))]
  exact World.setThread_setThread (w.withTables _ _) t _ _

theorem stands_withTables {base : Nat} {vs : List Value} (h : w.Stands t base vs) (s : Store Table)
    (n : Nat) : (w.withTables s n).Stands t base vs :=
  ⟨h.live, h.shows⟩

theorem stands_lowered {base : Nat} {us : List Value} {v : Value} (h : w.Stands t base (us ++ [v])) :
    (w.lowered t).Stands t base us := by
  refine World.stands_setThread h.live ?_
  unfold Thread.drop
  rw [h.shows.top_eq, List.length_append, List.length_singleton, ← Nat.add_assoc, Nat.add_sub_cancel]
  exact h.shows.withTop

/-- The registry gets the address of the flag. -/
def giveFlag (t : ThreadId) : M Unit := do
  pushLightUserData t flagAddress
  setField t registryIndex aliveField

theorem returns_giveFlag (h : w.Stands t 1 []) (hroom : 3 ≤ (w.thread t).limit)
    (htable : w.registryTable = freshTable) :
    exists th, Returns (giveFlag t) w () ((w.setRegistry openedTable).setThread t th) ∧
      (w.thread t).Steady 0 th ∧ th.Shows 1 [] := by
  have htop : (w.thread t).top = 1 := h.shows.top_eq
  rcases (needs_pushNew h.live (.light flagAddress)).returns (by omega) with ⟨_, w₁, hpush, hpushed⟩
  have hstands : w₁.Stands t 1 ([] ++ [.light flagAddress]) := h.loaded hpushed
  have htop₁ : (w₁.thread t).top = 2 := hstands.shows.top_eq
  have hbase : (w₁.thread t).base = 1 := hstands.shows.base_eq
  have htable₁ : w₁.registryTable = freshTable := by
    rw [hpushed.rest_eq]
    exact htable
  have hplain : w₁.registryTable.metatable = none := by
    rw [htable₁]
    exact metatable_freshTable
  have hdenotes : w₁.Denotes t registryIndex (.table w₁.registry) := ⟨validIndex_registry _, rfl⟩
  rcases (needs_setField_plain hdenotes hstands.live (by omega) nofun hplain aliveField).returns
    (by rw [hpushed.raised.limit_eq]; omega) with ⟨_, w₂, hset, hwritten⟩
  have hlowered := (stands_withTables (stands_lowered hstands) _ _).loaded hwritten
  rcases ok_setField_registry hstands.live (by omega) hplain (hset idle) with ⟨th, hsteady, rfl⟩
  have hvalue : (w₁.thread t).slot ((w₁.thread t).top - 1) = .light flagAddress := by
    rw [htop₁]
    exact hstands.shows.slot_last
  have hworld : (w₁.setRegistry openedTable).setThread t th = (w.setRegistry openedTable).setThread t th := by
    conv => lhs; rw [hpushed.rest_eq]
    exact World.setThread_setThread (w.setRegistry openedTable) t _ _
  rw [htable₁, hvalue, show freshTable.put (.ofText aliveField) (.light flagAddress) = openedTable from rfl,
    hworld] at hset hlowered
  refine ⟨th, Returns.bind hpush hset, ?_, ?_⟩
  · exact ((steadies_pushNew _).run h.live (hpush idle)).2.trans hsteady
  · have hthread : ((w.setRegistry openedTable).setThread t th).thread t = th :=
      World.thread_setThread h.live th
    have hshows := hlowered.shows
    rw [hthread] at hshows
    exact hshows

end Flag

/-!
# Machines that are open
-/

/-- A machine before its libraries are installed. -/
structure Equipped (w : World) : Prop where
  main_eq : w.mainThread = ⟨0⟩
  liveness_eq : w.liveness = Liveness.owned true 2
  registry_live : w.registryLive = true
  registry_eq : w.registryTable = openedTable
  stands : w.Stands ⟨0⟩ 1 []
  limit_eq : (w.thread ⟨0⟩).limit = maxStack
  nesting_eq : (w.thread ⟨0⟩).nesting = 0
  quiet : (w.thread ⟨0⟩).hook.active = false
  live : w.heap.tables.live 1 = true
  plain : (w.heap.tables.get 1).metatable = none

/-- Opening a machine equips it, and then installs its libraries. -/
theorem openMachine_eq (libraries : Bool) (surroundings : Outside) :
    exists w, Equipped w ∧ forall E, openMachine libraries E (worldIn surroundings) =
      (if libraries then Library.openAll else pure () : M Unit) E w := by
  let message := "opened lua state " ++ Value.addressText (Value.thread ⟨0⟩).address
  let w₀ := ((worldIn surroundings).setLog [⟨.debug, message⟩]).withLiveness (Liveness.owned true 2)
  have hlog : Returns (log .debug message) (worldIn surroundings) ()
      ((worldIn surroundings).setLog [⟨.debug, message⟩]) := returns_modify _ _
  have hflag : Returns (modify fun w => { w with liveness := some { alive := true, owners := 2 } })
      ((worldIn surroundings).setLog [⟨.debug, message⟩]) () w₀ := returns_modify _ _
  have hempty : w₀.Stands ⟨0⟩ 1 [] := ⟨rfl, rfl, rfl, nofun⟩
  have hlimit : (w₀.thread ⟨0⟩).limit = maxStack := rfl
  rcases returns_giveFlag hempty (by rw [hlimit]; decide) rfl with ⟨th, hgive, hsteady, hshows⟩
  have hthread : ((w₀.setRegistry openedTable).setThread ⟨0⟩ th).thread ⟨0⟩ = th :=
    World.thread_setThread hempty.live th
  have hregistered : (w₀.setRegistry openedTable).Stands ⟨0⟩ 1 [] := stands_withTables hempty _ _
  refine ⟨(w₀.setRegistry openedTable).setThread ⟨0⟩ th, ?_, fun E => ?_⟩
  · refine ⟨rfl, rfl, rfl, registryTable_setRegistry rfl _,
      World.stands_setThread hregistered.live hshows, ?_, ?_, ?_, rfl, rfl⟩
    · rw [hthread, hsteady.limit_eq]
      exact hlimit
    · rw [hthread, hsteady.nesting_eq]
      rfl
    · rw [hthread, hsteady.hook_eq]
      rfl
  · refine (returns_get (worldIn surroundings)).andThen (hlog.andThen (hflag.andThen ?_))
    rcases ok_bind (hgive E) with ⟨_, w₁, hpush, hset⟩
    exact ok_andThen hpush (ok_andThen hset rfl)

theorem Equipped.global {w : World} (h : Equipped w) : w.Global ⟨1⟩ := by
  refine ⟨h.registry_live, ?_, h.live, h.plain⟩
  rw [h.registry_eq, getInt_openedTable, if_pos rfl]

/-- A machine with the standard library, of which nothing has been asked yet. -/
structure Launched (w : World) : Prop where
  main_eq : w.mainThread = ⟨0⟩
  stands : w.Stands ⟨0⟩ 1 []
  limit_eq : (w.thread ⟨0⟩).limit = maxStack
  nesting_eq : (w.thread ⟨0⟩).nesting = 0
  quiet : (w.thread ⟨0⟩).hook.active = false
  global : w.Global ⟨1⟩
  warns : w.Warns ⟨1⟩

theorem Equipped.launched {w w' : World} (h : Equipped w) (hinstalled : w.Installed w')
    (hglobal : w'.Global ⟨1⟩) (hwarns : w'.Warns ⟨1⟩) : Launched w' := by
  have hthread : w'.thread ⟨0⟩ = w.thread ⟨0⟩ :=
    congrArg (fun s : Store Thread => s.get 0) hinstalled.threads_eq
  have hlive : w'.liveThread ⟨0⟩ = w.liveThread ⟨0⟩ :=
    congrArg (fun s : Store Thread => s.live 0) hinstalled.threads_eq
  refine ⟨hinstalled.main_eq.trans h.main_eq, ⟨hlive.trans h.stands.live, ?_⟩, ?_, ?_, ?_, hglobal, hwarns⟩
  · rw [hthread]
    exact h.stands.shows
  · rw [hthread]
    exact h.limit_eq
  · rw [hthread]
    exact h.nesting_eq
  · rw [hthread]
    exact h.quiet

/-- A machine can be opened with the standard library in any surroundings. -/
theorem returns_openMachine (surroundings : Outside) :
    exists w, Returns (openMachine true) (worldIn surroundings) () w ∧ Launched w := by
  rcases openMachine_eq true surroundings with ⟨w₀, hequipped, hopen⟩
  rcases Library.returns_openAll hequipped.global with ⟨w, hlibraries, hinstalled, hglobal, hwarns⟩
  exact ⟨w, fun E => (hopen E).trans (hlibraries E), hequipped.launched hinstalled hglobal hwarns⟩

theorem launched_opened {E : Engine} {surroundings : Outside} {w : World}
    (h : openMachine true E (worldIn surroundings) = .ok () w) : Launched w := by
  rcases returns_openMachine surroundings with ⟨w', hopen, hlaunched⟩
  rcases hopen.ok_eq h with ⟨_, rfl⟩
  exact hlaunched

end Interface

end LuaHost
