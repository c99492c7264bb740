import LuaHost.Proofs.UserData.Finding
import LuaHost.Proofs.UserData.Moving

/-!
# Recovering what was moved in

Values of all bound types share one metatable and are told apart by the tag in
their block.  As long as only pushing gives userdata that metatable, a value is
recovered exactly from the userdata that it was moved into, as its own type, and
until it is finalized; the handlers run the hooks of the same values.
-/

namespace LuaHost

namespace World

theorem isShared_iff {w : World} {u : UserDataId} :
    w.isShared u = true ↔ exists m, (w.userdata u).metatable = some m ∧ w.shared = .table m := by
  unfold isShared
  cases (w.userdata u).metatable with
  | none => exact ⟨nofun, fun ⟨_, h, _⟩ => nomatch h⟩
  | some m =>
      constructor
      · intro h
        cases hs : w.shared with
        | table i =>
            rw [hs] at h
            have hm : m = i := by simpa [Value.rawEq] using h
            exact ⟨m, rfl, by rw [hm]⟩
        | _ =>
            rw [hs] at h
            cases h
      · rintro ⟨m', hm, hs⟩
        cases hm
        rw [hs]
        simp [Value.rawEq]

/-- The metatables that userdata has, and the registered one, are tables that
have been made. -/
structure Numbered (w : World) : Prop where
  metatable : forall u m, (w.userdata u).metatable = some m -> m.index < w.heap.tables.next
  shared : forall m, w.shared = .table m -> m.index < w.heap.tables.next

/-- The block of a userdata is changed. -/
def modifyBlock (w : World) (u : UserDataId) (f : Block → Block) : World :=
  w.withUserdata (w.heap.userdata.modify u.index fun d =>
    { d with payload := match d.payload with
      | .block b => .block (f b)
      | p => p })

section ModifyBlock

variable (w : World) (u : UserDataId) (f : Block → Block)

theorem next_modifyBlock : (w.modifyBlock u f).heap.userdata.next = w.heap.userdata.next :=
  Store.next_modify _ _ _

theorem metatable_modifyBlock (u' : UserDataId) :
    ((w.modifyBlock u f).userdata u').metatable = (w.userdata u').metatable := by
  show ((w.heap.userdata.modify u.index _).get u'.index).metatable = _
  unfold userdata Store.get
  rw [Store.find?_modify]
  split
  · cases w.heap.userdata.find? u'.index <;> rfl
  · rfl

theorem isShared_modifyBlock (u' : UserDataId) :
    (w.modifyBlock u f).isShared u' = w.isShared u' := by
  unfold isShared
  rw [metatable_modifyBlock]
  rfl

theorem numbered_modifyBlock {w : World} (h : w.Numbered) (u : UserDataId) (f : Block → Block) :
    (w.modifyBlock u f).Numbered := by
  refine ⟨fun u' m hm => ?_, h.shared⟩
  rw [metatable_modifyBlock] at hm
  exact h.metatable u' m hm

theorem block?_modifyBlock (u' : UserDataId) :
    (w.modifyBlock u f).block? u' = if u = u' then (w.block? u').map f else w.block? u' := by
  unfold block?
  show (match ((w.heap.userdata.modify u.index _).get u'.index).payload with
    | .block b => some b
    | _ => none) = _
  by_cases hu : u = u'
  · subst hu
    rw [if_pos rfl]
    unfold userdata Store.get
    rw [Store.find?_modify, if_pos rfl]
    cases w.heap.userdata.find? u.index with
    | none => rfl
    | some d =>
        rw [Option.map_some]
        dsimp only [Option.getD_some]
        cases d.payload <;> rfl
  · rw [if_neg hu]
    rw [Store.get_modify_ne _ (UserDataId.index_ne hu)]
    rfl

theorem returns_setHostValue (v : HostValue) :
    Machine.Returns (Interface.setHostValue u v) w ()
      (w.modifyBlock u fun b => { b with value := v }) :=
  fun _ => rfl

end ModifyBlock

/-- The operands of the running handler. -/
def operandValues (w : World) (t : ThreadId) : List Value :=
  ([1, 2].take (w.thread t).height).map (w.valueAt t)

end World

namespace Recovery

open Interface Machine

/-!
# Runs
-/

/-- A value that was moved into a userdata, as what its owner has made of it
since. -/
structure Deposit where
  userdata : UserDataId
  type : HostType
  value : HostValue

/-- A machine, with the values that were moved in and the userdata that was
finalized. -/
structure State where
  world : World
  deposits : List Deposit := []
  finished : List UserDataId := []

/-- What else may happen: scripts, host code and the collector.  No userdata is
given the shared metatable, and what has it keeps its block. -/
structure Undisturbed (w w' : World) : Prop where
  registry_live : w.heap.tables.live w.registry.index = true ->
    w'.heap.tables.live w'.registry.index = true
  shared : forall u, w'.isShared u = true -> w.isShared u = true ∧ w'.block? u = w.block? u
  numbered : w.Numbered -> w'.Numbered
  next_le : w.heap.userdata.next ≤ w'.heap.userdata.next

/-- The owner has changed a value. -/
def Deposit.change (u : UserDataId) (v : HostValue) (d : Deposit) : Deposit :=
  if d.userdata = u then { d with value := v } else d

/-- One step of a run. -/
inductive Step : State -> State -> Prop where
  | push {s : State} {t : ThreadId} {type : HostType} {v : HostValue} {userValues : Nat}
      {E : Engine} {u : UserDataId} {w : World} : s.world.liveThread t = true ->
      pushUserData t type v userValues E s.world = .ok u w ->
      Step s { s with world := w, deposits := ⟨u, type, v⟩ :: s.deposits }
  | change {s : State} {u : UserDataId} {v : HostValue} {E : Engine} {w : World} :
      setHostValue u v E s.world = .ok () w ->
      Step s { s with world := w, deposits := s.deposits.map (Deposit.change u v) }
  | finish {s : State} {u : UserDataId} : (s.world.block? u).isSome = true ->
      Step s { s with world := s.world.bury u, finished := u :: s.finished }
  | other {s : State} {w : World} : Undisturbed s.world w -> Step s { s with world := w }

abbrev Run : State -> State -> Prop := Relation.ReflTransGen Step

/-- A machine that was opened, with nothing moved in yet. -/
def State.opened : State := { world := freshWorld }

/-- The value is the userdata into which `x` was moved as a value of the type; it
still has the shared metatable and is not finalized. -/
structure State.Recoverable (s : State) (v : Value) (type : HostType) (u : UserDataId)
    (x : HostValue) : Prop where
  value_eq : v = .userdata u
  shared : s.world.isShared u = true
  deposited : ⟨u, type, x⟩ ∈ s.deposits
  unfinished : u ∉ s.finished

/-!
# What else may happen
-/

/-- Values come and go on stacks. -/
theorem undisturbed_setThread (w : World) (t : ThreadId) (th : Thread) :
    Undisturbed w (w.setThread t th) :=
  ⟨fun h => h, fun _ h => ⟨h, rfl⟩, fun h => ⟨h.metatable, h.shared⟩, Nat.le_refl _⟩

/-- Every table but the registry may be written to, the shared metatable too. -/
theorem undisturbed_modifyTable (w : World) {i : TableId} (hi : i.index ≠ w.registry.index)
    (f : Table → Table) :
    Undisturbed w (w.withTables (w.heap.tables.modify i.index f) w.collector.allocated) := by
  have hshared : (w.withTables (w.heap.tables.modify i.index f) w.collector.allocated).shared =
      w.shared :=
    congrArg (fun T : Table => T.get (.str (cutName sharedMetatable)))
      (Store.get_modify_ne w.heap.tables hi f)
  constructor
  · exact fun h => (Store.live_modify _ _ _ _).trans h
  · intro u hu
    rcases World.isShared_iff.mp hu with ⟨m, hm, hreg⟩
    exact ⟨World.isShared_iff.mpr ⟨m, hm, hshared.symm.trans hreg⟩, rfl⟩
  · intro h
    refine ⟨fun u m hm => ?_, fun m hm => ?_⟩
    · exact Nat.lt_of_lt_of_eq (h.metatable u m hm) (Store.next_modify _ _ _).symm
    · exact Nat.lt_of_lt_of_eq (h.shared m (hshared.symm.trans hm)) (Store.next_modify _ _ _).symm
  · exact Nat.le_refl _

/-- New userdata has no metatable, whatever it holds. -/
theorem undisturbed_newUserdata (w : World) {d : UserData} (hd : d.metatable = none) :
    Undisturbed w (w.withUserdata (w.heap.userdata.push d)) := by
  have huserdata : forall u, ((w.withUserdata (w.heap.userdata.push d)).userdata u).metatable ≠
      none -> (w.withUserdata (w.heap.userdata.push d)).userdata u = w.userdata u := by
    intro u hu
    have hget : (w.withUserdata (w.heap.userdata.push d)).userdata u =
        (if u.index = w.heap.userdata.next then some d
          else w.heap.userdata.find? u.index).getD default := by
      show ((w.heap.userdata.push d).find? u.index).getD default = _
      rw [Store.find?_push]
    by_cases hnew : u.index = w.heap.userdata.next
    · rw [hget, if_pos hnew] at hu
      exact absurd hd hu
    · rw [hget, if_neg hnew]
      rfl
  constructor
  · exact fun h => h
  · intro u hu
    rcases World.isShared_iff.mp hu with ⟨m, hm, hreg⟩
    have hsame := huserdata u (by rw [hm]; exact nofun)
    rw [hsame] at hm
    refine ⟨World.isShared_iff.mpr ⟨m, hm, hreg⟩, ?_⟩
    unfold World.block?
    rw [hsame]
  · intro h
    refine ⟨fun u m hm => ?_, h.shared⟩
    have hsame := huserdata u (by rw [hm]; exact nofun)
    rw [hsame] at hm
    exact h.metatable u m hm
  · exact Nat.le_of_lt (Nat.lt_of_lt_of_eq (Nat.lt_succ_self _) (Array.size_push _).symm)

/-- Userdata may be given any metatable but the shared one, or lose its own. -/
theorem undisturbed_setMetatable (w : World) (u : UserDataId) {m? : Option TableId}
    (hm : forall m, m? = some m -> w.shared ≠ .table m ∧ m.index < w.heap.tables.next) :
    exists w', Returns (setMetatableOf (.userdata u) m?) w () w' ∧ Undisturbed w w' := by
  refine ⟨w.withUserdata (w.heap.userdata.modify u.index fun d => { d with metatable := m? }),
    fun _ => rfl, ?_⟩
  have huserdata : forall u', (w.withUserdata (w.heap.userdata.modify u.index fun d =>
      { d with metatable := m? })).userdata u' = w.userdata u' ∨
      (w.withUserdata (w.heap.userdata.modify u.index fun d =>
        { d with metatable := m? })).userdata u' = { w.userdata u' with metatable := m? } := by
    intro u'
    show ((w.heap.userdata.modify u.index _).get u'.index) = _ ∨
      ((w.heap.userdata.modify u.index _).get u'.index) = _
    unfold World.userdata Store.get
    rw [Store.find?_modify]
    split
    · cases w.heap.userdata.find? u'.index with
      | none => exact Or.inl rfl
      | some d => exact Or.inr rfl
    · exact Or.inl rfl
  constructor
  · exact fun h => h
  · intro u' hu'
    rcases World.isShared_iff.mp hu' with ⟨m, hmeta, hreg⟩
    rcases huserdata u' with hsame | hgiven
    · rw [hsame] at hmeta
      refine ⟨World.isShared_iff.mpr ⟨m, hmeta, hreg⟩, ?_⟩
      unfold World.block?
      rw [hsame]
    · rw [hgiven] at hmeta
      exact absurd hreg (hm m hmeta).1
  · intro h
    refine ⟨fun u' m hmeta => ?_, h.shared⟩
    rcases huserdata u' with hsame | hgiven
    · rw [hsame] at hmeta
      exact h.metatable u' m hmeta
    · rw [hgiven] at hmeta
      exact (hm m hmeta).2
  · exact Nat.le_of_eq (Store.next_modify _ _ _).symm

/-- A cycle frees userdata, and changes none. -/
theorem undisturbed_cycle {w : World} {t : ThreadId} (hsound : SoundWorld t w)
    (hlive : w.heap.tables.live w.registry.index = true)
    (hplain : (w.heap.tables.get w.registry.index).metatable = none) :
    Undisturbed w (cycle w t) := by
  have hcycle := cycle_collected hsound
  rcases Lifetimes.collected_shared hcycle hlive hplain with ⟨hlive', _, hshared, _⟩
  have hnext : (cycle w t).heap.tables.next = w.heap.tables.next := by
    show (Array.mapIdx _ (Array.map _ (Array.map _ (Array.map _ _)))).size = _
    rw [Array.size_mapIdx, Array.size_map, Array.size_map, Array.size_map]
    rfl
  have huserdata : forall u, ((cycle w t).userdata u).metatable ≠ none ->
      (cycle w t).userdata u = w.userdata u := by
    intro u hu
    rcases hcycle.userdata u.index with hsame | hfreed
    · exact congrArg (·.getD default) hsame
    · have hdefault : (cycle w t).userdata u = default := congrArg (·.getD default) hfreed
      rw [hdefault] at hu
      exact absurd rfl hu
  constructor
  · exact fun _ => hlive'
  · intro u hu
    rcases World.isShared_iff.mp hu with ⟨m, hm, hreg⟩
    have hsame := huserdata u (by rw [hm]; exact nofun)
    rw [hsame] at hm
    refine ⟨World.isShared_iff.mpr ⟨m, hm, hshared.symm.trans hreg⟩, ?_⟩
    unfold World.block?
    rw [hsame]
  · intro h
    refine ⟨fun u m hm => ?_, fun m hm => ?_⟩
    · have hsame := huserdata u (by rw [hm]; exact nofun)
      rw [hsame] at hm
      rw [hnext]
      exact h.metatable u m hm
    · rw [hnext]
      exact h.shared m (hshared.symm.trans hm)
  · exact Nat.le_of_eq hcycle.userdata_next.symm

/-!
# The invariant
-/

/-- What every run keeps: the block of a userdata with the shared metatable is
the one that it was made with. -/
structure Inv (s : State) : Prop where
  registry_live : s.world.heap.tables.live s.world.registry.index = true
  numbered : s.world.Numbered
  distinct : (s.deposits.map (·.userdata)).Nodup
  known : forall d, d ∈ s.deposits -> d.userdata.index < s.world.heap.userdata.next
  finished_known : forall u, u ∈ s.finished -> u.index < s.world.heap.userdata.next
  kept : forall u, s.world.isShared u = true -> exists d, d ∈ s.deposits ∧ d.userdata = u ∧
    exists b, s.world.block? u = some b ∧ b.type = d.type ∧ b.value = d.value ∧
      (b.alive = true ↔ u ∉ s.finished)

variable {s : State}

theorem inv_opened : Inv State.opened := by
  have hempty : forall u, (freshWorld.userdata u).metatable = none := by
    intro u
    rfl
  constructor
  case registry_live => rfl
  case numbered =>
    refine ⟨fun u m h => ?_, fun m h => ?_⟩
    · have h : (freshWorld.userdata u).metatable = some m := h
      rw [hempty u] at h
      cases h
    · have h : freshWorld.shared = .table m := h
      rw [shared_freshWorld] at h
      cases h
  case distinct => exact List.nodup_nil
  case known => exact fun d hd => absurd hd List.not_mem_nil
  case finished_known => exact fun u hu => absurd hu List.not_mem_nil
  case kept =>
    intro u hu
    rcases World.isShared_iff.mp hu with ⟨m, hm, _⟩
    have hm : (freshWorld.userdata u).metatable = some m := hm
    rw [hempty u] at hm
    cases hm

theorem Inv.other (h : Inv s) {w : World} (hw : Undisturbed s.world w) :
    Inv { s with world := w } := by
  constructor
  case registry_live => exact hw.registry_live h.registry_live
  case numbered => exact hw.numbered h.numbered
  case distinct => exact h.distinct
  case known => exact fun d hd => Nat.lt_of_lt_of_le (h.known d hd) hw.next_le
  case finished_known => exact fun u hu => Nat.lt_of_lt_of_le (h.finished_known u hu) hw.next_le
  case kept =>
    intro u hu
    rcases hw.shared u hu with ⟨hold, hblock⟩
    rcases h.kept u hold with ⟨d, hd, heq, b, hb, hrest⟩
    exact ⟨d, hd, heq, b, hblock.trans hb, hrest⟩

/-- The userdata of a new deposit has no number that was given out. -/
theorem Inv.push (h : Inv s) {u : UserDataId} {type : HostType} {v : HostValue} {w : World}
    (hw : Moved s.world u { type, value := v } w) :
    Inv { s with world := w, deposits := ⟨u, type, v⟩ :: s.deposits } := by
  have hnext := hw.next_eq
  rcases hw.userdata_self with ⟨userValues, hself⟩
  have hnew : forall {i}, i < s.world.heap.userdata.next -> i ≠ u.index := by
    intro i hi
    rw [hw.fresh]
    exact Nat.ne_of_lt hi
  -- a registered table is an old one, or made by this push
  have hregistered : forall m, w.shared = .table m -> m.index < w.heap.tables.next := by
    intro m hm
    rcases hw.shared with hsame | ⟨_, hmade, hlt⟩
    · rw [hsame] at hm
      exact Nat.lt_of_lt_of_le (h.numbered.shared m hm) hw.tables_next
    · rw [hmade] at hm
      cases hm
      exact hlt
  constructor
  case registry_live => exact hw.registry_live
  case numbered =>
    refine ⟨fun u' m hm => ?_, hregistered⟩
    by_cases heq : u' = u
    · subst heq
      rw [hself] at hm
      exact hregistered m (Value.table?_eq_some.mp hm)
    · rw [hw.userdata_old heq] at hm
      exact Nat.lt_of_lt_of_le (h.numbered.metatable u' m hm) hw.tables_next
  case distinct =>
    refine List.nodup_cons.mpr ⟨?_, h.distinct⟩
    intro hmem
    rcases List.mem_map.mp hmem with ⟨d, hd, heq⟩
    exact hnew (h.known d hd) (congrArg UserDataId.index heq)
  case known =>
    intro d hd
    show _ < w.heap.userdata.next
    rw [hnext]
    rcases List.mem_cons.mp hd with rfl | hd
    · exact Nat.lt_succ_of_le (Nat.le_of_eq hw.fresh)
    · exact Nat.lt_succ_of_lt (h.known d hd)
  case finished_known =>
    intro u' hu'
    show _ < w.heap.userdata.next
    rw [hnext]
    exact Nat.lt_succ_of_lt (h.finished_known u' hu')
  case kept =>
    intro u' hu'
    by_cases heq : u' = u
    · subst heq
      refine ⟨⟨u', type, v⟩, List.mem_cons_self .., rfl, { type, value := v }, ?_, rfl, rfl, ?_⟩
      · show w.block? u' = _
        unfold World.block?
        rw [hself]
      · exact iff_of_true rfl fun hmem => hnew (h.finished_known u' hmem) rfl
    · -- no old userdata has the metatable that this push made
      have hshared : s.world.isShared u' = true := by
        rcases World.isShared_iff.mp hu' with ⟨m, hm, hreg⟩
        have hm : (w.userdata u').metatable = some m := hm
        have hreg : w.shared = .table m := hreg
        rw [hw.userdata_old heq] at hm
        rcases hw.shared with hsame | ⟨_, hmade, _⟩
        · exact World.isShared_iff.mpr ⟨m, hm, hsame.symm.trans hreg⟩
        · rw [hmade] at hreg
          cases hreg
          exact absurd (h.numbered.metatable u' _ hm) (Nat.lt_irrefl _)
      rcases h.kept u' hshared with ⟨d, hd, heq', b, hb, hrest⟩
      refine ⟨d, List.mem_cons_of_mem _ hd, heq', b, ?_, hrest⟩
      show w.block? u' = _
      unfold World.block?
      rw [hw.userdata_old heq]
      exact hb

theorem Inv.change (h : Inv s) (u : UserDataId) (v : HostValue) :
    Inv { s with world := s.world.modifyBlock u fun b => { b with value := v },
                 deposits := s.deposits.map (Deposit.change u v) } := by
  have huserdata : forall d, (Deposit.change u v d).userdata = d.userdata := by
    intro d
    unfold Deposit.change
    split <;> rfl
  constructor
  case registry_live => exact h.registry_live
  case numbered => exact World.numbered_modifyBlock h.numbered u _
  case distinct =>
    have hsame : (s.deposits.map (Deposit.change u v)).map (·.userdata) =
        s.deposits.map (·.userdata) := by
      rw [List.map_map]
      exact List.map_congr_left fun d _ => huserdata d
    show ((s.deposits.map (Deposit.change u v)).map (·.userdata)).Nodup
    rw [hsame]
    exact h.distinct
  case known =>
    intro d hd
    rcases List.mem_map.mp hd with ⟨d', hd', rfl⟩
    rw [huserdata, World.next_modifyBlock]
    exact h.known d' hd'
  case finished_known =>
    intro u' hu'
    rw [World.next_modifyBlock]
    exact h.finished_known u' hu'
  case kept =>
    intro u' hu'
    rw [World.isShared_modifyBlock] at hu'
    rcases h.kept u' hu' with ⟨d, hd, heq, b, hb, htype, hvalue, halive⟩
    refine ⟨Deposit.change u v d, List.mem_map_of_mem hd, (huserdata d).trans heq, ?_⟩
    rw [World.block?_modifyBlock]
    unfold Deposit.change
    by_cases hu : u = u'
    · rw [if_pos hu, if_pos (heq.trans hu.symm), hb]
      exact ⟨_, rfl, htype, rfl, halive⟩
    · rw [if_neg hu, if_neg (fun h => hu (h.symm.trans heq))]
      exact ⟨b, hb, htype, hvalue, halive⟩

theorem Inv.finish (h : Inv s) {u : UserDataId} (hblock : (s.world.block? u).isSome = true) :
    Inv { s with world := s.world.bury u, finished := u :: s.finished } := by
  have hu : u.index < s.world.heap.userdata.next := by
    rcases Option.isSome_iff_exists.mp hblock with ⟨b, hb⟩
    rcases Lifetimes.find?_of_block? hb with ⟨d, hd, _⟩
    exact Store.lt_next_of_live (Store.live_of_find? hd)
  have hbury : s.world.bury u = s.world.modifyBlock u fun b => { b with alive := false } := rfl
  rw [hbury]
  constructor
  case registry_live => exact h.registry_live
  case numbered => exact World.numbered_modifyBlock h.numbered u _
  case distinct => exact h.distinct
  case known =>
    intro d hd
    rw [World.next_modifyBlock]
    exact h.known d hd
  case finished_known =>
    intro u' hu'
    rw [World.next_modifyBlock]
    rcases List.mem_cons.mp hu' with rfl | hu'
    · exact hu
    · exact h.finished_known u' hu'
  case kept =>
    intro u' hu'
    rw [World.isShared_modifyBlock] at hu'
    rcases h.kept u' hu' with ⟨d, hd, heq, b, hb, htype, hvalue, halive⟩
    refine ⟨d, hd, heq, ?_⟩
    rw [World.block?_modifyBlock]
    by_cases hsame : u = u'
    · rw [if_pos hsame, hb]
      refine ⟨{ b with alive := false }, rfl, htype, hvalue, ?_⟩
      exact iff_of_false Bool.false_ne_true fun hnot =>
        hnot (List.mem_cons.mpr (Or.inl hsame.symm))
    · rw [if_neg hsame]
      refine ⟨b, hb, htype, hvalue, halive.trans (not_congr ?_)⟩
      rw [List.mem_cons, or_iff_right (Ne.symm hsame)]

theorem inv_run {s : State} (hrun : Run State.opened s) : Inv s := by
  induction hrun with
  | refl => exact inv_opened
  | tail _ hstep ih =>
      cases hstep with
      | push hlive hpush => exact ih.push (ok_pushUserData_moved hlive ih.registry_live hpush)
      | @change u v E w hset =>
          rcases (World.returns_setHostValue _ u v).ok_eq hset with ⟨_, rfl⟩
          exact ih.change u v
      | finish hblock => exact ih.finish hblock
      | other hother => exact ih.other hother

/-!
# Recovery
-/

/-- The living values that the code finds are the ones that were moved in. -/
theorem Inv.livingTo_eq_some (h : Inv s) {v : Value} {u : UserDataId} {type : HostType}
    {x : HostValue} :
    (exists b, s.world.livingTo v = some (u, b) ∧ b.type = type ∧ b.value = x) ↔
      s.Recoverable v type u x := by
  constructor
  · rintro ⟨b, hliving, rfl, rfl⟩
    rcases World.livingTo_eq_some.mp hliving with ⟨hv, hshared, hb, halive⟩
    rcases h.kept u hshared with ⟨d, hd, heq, b', hb', htype, hvalue, hfinished⟩
    rw [hb] at hb'
    cases hb'
    refine ⟨hv, hshared, ?_, hfinished.mp halive⟩
    rw [htype, hvalue, ← heq]
    exact hd
  · rintro ⟨hv, hshared, hdeposit, hunfinished⟩
    rcases h.kept u hshared with ⟨d, hd, heq, b, hb, htype, hvalue, hfinished⟩
    have hd' : d = ⟨u, type, x⟩ := List.inj_on_of_nodup_map h.distinct hd hdeposit heq
    subst hd'
    exact ⟨b, World.livingTo_eq_some.mpr ⟨hv, hshared, hb, hfinished.mpr hunfinished⟩, htype, hvalue⟩

/-- Both ways to recover a value, and the handlers, go by what was moved in. -/
structure Faithful (s : State) (t : ThreadId) : Prop where
  toUserData : forall type idx, validIndex (s.world.thread t).height idx = true -> exists r,
    Looks t 2 (toUserData t type idx) (pure r) s.world ∧
      forall u x, r = some (u, x) ↔ s.Recoverable (s.world.valueAt t idx) type u x
  /-- The handle leaves the stack as it was. -/
  downcast : forall (h : OwnedRef) type, h.thread = t ->
    (s.world.thread t).base ≤ (s.world.thread t).top -> exists r,
    ((exists th, th.top = (s.world.thread t).top ∧
        (s.world.thread t).SameBelow (s.world.thread t).top th ∧
        Returns (UserDataRef.downcast h type) s.world r (s.world.setThread t th)) ∨
      (¬ (s.world.thread t).Ready 3 ∧ exists th p, forall E,
        UserDataRef.downcast h type E s.world = .error (.panic p) (s.world.setThread t th))) ∧
    forall x, r = some x ↔ exists u, s.Recoverable (behind s.world h.id) type u x
  /-- A hook runs for an operand, as the hook of the type of the value that was
  moved into it. -/
  handler : forall (types : BoundTypes) m, m ≠ .gc ->
    exists body, exists r : Option (UserDataId × Block),
    answerOperation types m t = guarded t body ∧
    Looks t 2 body (match r with
      | some (u, b) => dispatch types m t u b
      | none => if m = .tostring then do
          pushString t (absentText s.world t)
          return 1
        else return 0) s.world ∧
    (forall u b, r = some (u, b) -> exists v, v ∈ s.world.operandValues t ∧
      s.Recoverable v b.type u b.value) ∧
    (r = none -> forall v, v ∈ s.world.operandValues t -> forall type u x,
      ¬ s.Recoverable v type u x)
  /-- The first argument is finalized as what was moved into it, once. -/
  finalizer : forall types : BoundTypes,
    exists body, exists r : Option (UserDataId × Block),
    answerOperation types .gc t = guarded t body ∧
    Looks t 2 body (match r with
      | some (u, b) => do
        let _ ← (types b.type).perform .gc u t
        dropBound types u b.type
        return 0
      | none => return 0) s.world ∧
    forall u type x, (exists b, r = some (u, b) ∧ b.type = type ∧ b.value = x) ↔
      s.Recoverable (s.world.valueAt t 1) type u x

open Lifetimes (pushedWorld ok_pushedWorld)

/-- A value was moved in. -/
def pushedState : State := { world := pushedWorld, deposits := [⟨⟨0⟩, ⟨0⟩, .counter 7⟩] }

/-- The same value is finalized. -/
def finishedState : State :=
  { pushedState with world := pushedWorld.bury ⟨0⟩, finished := [⟨0⟩] }

end Recovery

end LuaHost
