import LuaHost.Proofs.UserData.Pushing

/-!
# Moving a host value in

Scripts may do what they like to the shared metatable, and to its place in the
registry.  A push makes the userdata all the same, with the block of the value
that was moved in, and gives it the table that is in the registry then.
-/

namespace LuaHost

/-- The table that a value is. -/
def Value.table? : Value → Option TableId
  | .table m => some m
  | _ => none

theorem Value.table?_eq_some {v : Value} {m : TableId} : v.table? = some m ↔ v = .table m := by
  cases v with
  | table i => exact ⟨fun h => by cases h; rfl, fun h => by cases h; rfl⟩
  | _ => exact ⟨nofun, nofun⟩

namespace Interface

open Machine

/-- Whatever handler of finalization there is, at most a note is taken. -/
theorem ok_noteFinalizer_any {w w' : World} {v : Value} {m : TableId} {E : Engine}
    (h : noteFinalizer v m E w = .ok () w') : exists vs, w' = w.withFinalizable vs := by
  unfold noteFinalizer at h
  have h := (returns_get w).ok_bind h
  by_cases hnoted : (w.collector.closing || Collector.noted w.collector v) = true
  · rw [if_pos hnoted] at h
    cases h
    exact ⟨w.collector.finalizable, rfl⟩
  · rw [if_neg hnoted] at h
    have htable : Returns (table m) w (w.heap.tables.get m.index) w := fun _ => rfl
    have h := htable.ok_bind h
    split at h
    · cases h
      exact ⟨_, rfl⟩
    · cases h
      exact ⟨w.collector.finalizable, rfl⟩

theorem ok_setMetatable_any {w w' : World} {t : ThreadId} {u : UserDataId} {v : Value}
    (huserdata : (w.thread t).slot ((w.thread t).top - 2) = .userdata u)
    (hvalue : (w.thread t).slot ((w.thread t).top - 1) = v) {E : Engine}
    (h : setMetatable t (-2) E w = .ok () w') :
    exists vs, w' = ((w.withUserdata (w.heap.userdata.modify u.index fun d =>
        { d with metatable := v.table? })).withFinalizable vs).setThread t
          ((w.thread t).drop 1) := by
  unfold setMetatable at h
  rcases ok_bind h with ⟨_, w₁, hcheck, h⟩
  rcases ok_checkIndex hcheck with ⟨_, rfl⟩
  have hfirst := returns_value_below w t (n := 2) (by decide)
  have hsecond := returns_value_below w t (n := 1) (by decide)
  rw [huserdata] at hfirst
  rw [hvalue] at hsecond
  have h := hfirst.ok_bind h
  have h := hsecond.ok_bind h
  have hgiven : Returns (setMetatableOf (.userdata u) v.table?) w ()
      (w.withUserdata (w.heap.userdata.modify u.index fun d =>
        { d with metatable := v.table? })) := fun _ => rfl
  cases v with
  | table m =>
      rcases ok_bind h with ⟨_, w₂, hgive, h⟩
      rcases ok_noteFinalizer_any (hgiven.ok_bind hgive) with ⟨vs, rfl⟩
      rcases (returns_drop _ t 1).ok_eq h with ⟨_, rfl⟩
      exact ⟨vs, rfl⟩
  | _ =>
      rcases ok_bind h with ⟨_, w₂, hgive, h⟩
      have hgive := hgiven.ok_bind hgive
      cases hgive
      rcases (returns_drop _ t 1).ok_eq h with ⟨_, rfl⟩
      exact ⟨w.collector.finalizable, rfl⟩

/-- What is pushed is registered as the shared metatable then: the old value, or a new
table. -/
theorem ok_pushSharedMetatable_any {w w' : World} {t : ThreadId} (hlive : w.liveThread t = true)
    (hregistry : w.heap.tables.live w.registry.index = true) {E : Engine}
    (h : pushSharedMetatable t E w = .ok () w') :
    exists th s allocated lg, (w.thread t).Topped w'.shared th ∧
      w' = ((w.withTables s allocated).setThread t th).setLog lg ∧
      s.live w.registry.index = true ∧ w.heap.tables.next ≤ s.next ∧
      (w'.shared = w.shared ∨ w.shared = .nil ∧ w'.shared = .table ⟨w.heap.tables.next⟩ ∧
        w.heap.tables.next < s.next) := by
  by_cases hnone : w.shared = .nil
  · rcases ok_pushSharedMetatable_new hlive hregistry hnone h with
      ⟨th, s, allocated, lg, htopped, hw', hready, hlive', _, hnext, _⟩
    rw [← hready.shared_eq] at htopped
    have hlt : w.heap.tables.next < s.next := Nat.lt_of_lt_of_eq (Nat.lt_succ_self _) hnext.symm
    exact ⟨th, s, allocated, lg, htopped, hw', hlive', Nat.le_of_lt hlt,
      Or.inr ⟨hnone, hready.shared_eq, hlt⟩⟩
  · rcases ok_pushSharedMetatable_old hlive hnone h with ⟨th, htopped, rfl⟩
    exact ⟨th, w.heap.tables, w.collector.allocated, w.log, htopped, rfl, hregistry,
      Nat.le_refl _, Or.inl rfl⟩

/-- The pushed value `b` is in the new userdata `u`, which has the table that is
registered as the shared metatable, if that is one. -/
structure Moved (w : World) (u : UserDataId) (b : Block) (w' : World) : Prop where
  fresh : u.index = w.heap.userdata.next
  registry_eq : w'.registry = w.registry
  registry_live : w'.heap.tables.live w'.registry.index = true
  shared : w'.shared = w.shared ∨ w.shared = .nil ∧ w'.shared = .table ⟨w.heap.tables.next⟩ ∧
    w.heap.tables.next < w'.heap.tables.next
  tables_next : w.heap.tables.next ≤ w'.heap.tables.next
  userdata : exists userValues, w'.heap.userdata =
    w.heap.userdata.push { payload := .block b, metatable := w'.shared.table?, userValues }

namespace Moved

variable {w w' : World} {u : UserDataId} {b : Block}

theorem next_eq (h : Moved w u b w') : w'.heap.userdata.next = w.heap.userdata.next + 1 := by
  rcases h.userdata with ⟨userValues, huserdata⟩
  rw [huserdata]
  exact Array.size_push _

theorem userdata_self (h : Moved w u b w') : exists userValues, w'.userdata u =
    { payload := .block b, metatable := w'.shared.table?, userValues } := by
  rcases h.userdata with ⟨userValues, huserdata⟩
  refine ⟨userValues, Store.get_of_find? ?_⟩
  rw [huserdata, Store.find?_push, if_pos h.fresh]

theorem userdata_old (h : Moved w u b w') {u' : UserDataId} (hne : u' ≠ u) :
    w'.userdata u' = w.userdata u' := by
  rcases h.userdata with ⟨userValues, huserdata⟩
  unfold World.userdata Store.get
  rw [huserdata, Store.find?_push, if_neg]
  rw [← h.fresh]
  exact UserDataId.index_ne hne

end Moved

/-- Whatever the shared metatable holds, the value that was moved in is in the
block of the new userdata. -/
theorem ok_pushUserData_moved {w w' : World} {t : ThreadId} (hlive : w.liveThread t = true)
    (hregistry : w.heap.tables.live w.registry.index = true) {type : HostType} {v : HostValue}
    {userValues : Nat} {u : UserDataId} {E : Engine}
    (h : pushUserData t type v userValues E w = .ok u w') :
    Moved w u { type, value := v } w' := by
  rcases ok_pushUserData_parts hlive h with ⟨rfl, th, w₂, htopped, hshared, hgive⟩
  let d := bareUserData type v userValues
  have hlive₁ := liveThread_withBare hlive d th
  rcases ok_pushSharedMetatable_any hlive₁ hregistry hshared with
    ⟨th', s, allocated, lg, htopped', hw₂, hlive', hnext, hor⟩
  rw [thread_withBare hlive] at htopped'
  have hthread : w₂.thread t = th' := by
    rw [hw₂]
    exact World.thread_setThread (w := (withBare w t d th).withTables s allocated) hlive₁ th'
  have hpair := htopped.pair htopped'
  rw [← hthread] at hpair
  have hgiven := ok_setMetatable_any hpair.1 hpair.2 hgive
  rcases hgiven with ⟨vs, rfl⟩
  have hsame : w₂.heap.userdata = w.heap.userdata.push d ∧ w₂.registry = w.registry ∧
      w₂.heap.tables = s := by
    rw [hw₂]
    exact ⟨rfl, rfl, rfl⟩
  rcases hsame with ⟨huserdata, hreg, htables⟩
  constructor
  case fresh => rfl
  case registry_eq => exact hreg
  case registry_live =>
    show w₂.heap.tables.live w₂.registry.index = true
    rw [htables, hreg]
    exact hlive'
  case shared =>
    refine hor.imp (fun h => h) fun ⟨hnone, hnew, hlt⟩ => ⟨hnone, hnew, ?_⟩
    show _ < w₂.heap.tables.next
    rw [htables]
    exact hlt
  case tables_next =>
    show _ ≤ w₂.heap.tables.next
    rw [htables]
    exact hnext
  case userdata =>
    refine ⟨Array.replicate userValues .nil, ?_⟩
    show w₂.heap.userdata.modify w.heap.userdata.next _ = _
    rw [huserdata]
    exact Store.modify_push _ _ _

end Interface

end LuaHost
