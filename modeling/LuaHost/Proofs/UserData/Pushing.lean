import LuaHost.Interface.Opening
import LuaHost.Proofs.Interface.Headroom
import LuaHost.Proofs.UserData.Finalizing
import LuaHost.Proofs.Machine.Contents

/-!
# Pushing a host value

The first value that is pushed fills the shared metatable.  The userdata gets
that metatable after its block is complete, and is noted for finalization then.
-/

namespace LuaHost

/-!
# Writing a field of the table below the top
-/

namespace Machine

/-- A key that a table can be written under: neither `nil` nor a `NaN`. -/
def Indexes (k : Value) : Prop := k ≠ .nil ∧ forall x, k = .float x -> x.isNaN = false

theorem returns_assign_plain {w : World} {m : TableId}
    (hplain : (w.heap.tables.get m.index).metatable = none) (t : ThreadId) {k : Value}
    (hk : Indexes k) (x : Value) :
    Returns (assign t (.table m) k x) w ()
      (w.withTables (w.heap.tables.modify m.index (·.set k x)) w.collector.allocated) := by
  have htable : Returns (table m) w (w.heap.tables.get m.index) w := fun _ => rfl
  have hset : Returns (rawSet t m k x) w ()
      (w.withTables (w.heap.tables.modify m.index (·.set k x)) w.collector.allocated) := by
    cases k with
    | nil => exact absurd rfl hk.1
    | float y =>
        unfold rawSet
        dsimp only
        rw [hk.2 y rfl, if_neg Bool.false_ne_true]
        exact returns_modifyTable w m _
    | _ => exact returns_modifyTable w m _
  unfold assign assignFrom maxChain
  rw [show 2000 = 1999 + 1 from rfl, assignLoop]
  refine Returns.bind htable ?_
  dsimp only
  split
  · exact returns_modifyTable w m _
  · rw [hplain]
    exact hset

end Machine

namespace Thread

/-- The two topmost values change places. -/
def swapTop (th : Thread) : Thread :=
  th.putSlots (th.top - 2) [th.slot (th.top - 2 + 1), th.slot (th.top - 2)]

theorem top_setSlot (th : Thread) (i : Nat) (v : Value) : (th.setSlot i v).top = th.top := by
  unfold setSlot
  split <;> rfl

theorem top_swapTop (th : Thread) : th.swapTop.top = th.top :=
  (top_setSlot _ _ _).trans (top_setSlot _ _ _)

theorem base_swapTop (th : Thread) : th.swapTop.base = th.base :=
  (base_setSlot _ _ _).trans (base_setSlot _ _ _)

theorem room_swapTop (th : Thread) : th.swapTop.room = th.room :=
  (room_setSlot _ _ _).trans (room_setSlot _ _ _)

theorem slot_swapTop (th : Thread) (i : Nat) :
    th.swapTop.slot i =
      if th.top - 2 + 1 = i then th.slot (th.top - 2)
      else if th.top - 2 = i then th.slot (th.top - 2 + 1) else th.slot i := by
  show ((th.setSlot _ _).setSlot _ _).slot i = _
  rw [slot_setSlot, slot_setSlot]

/-- Two values that were pushed stand on top of the stack. -/
theorem Topped.pair {th th' th'' : Thread} {v v' : Value} (h : th.Topped v th')
    (h' : th'.Topped v' th'') :
    th''.slot (th''.top - 2) = v ∧ th''.slot (th''.top - 1) = v' := by
  have htop := h.top_eq
  have htop' := h'.top_eq
  constructor
  · rw [show th''.top - 2 = th.top by omega, h'.below.slot_eq _ (by omega)]
    exact h.slot_top
  · rw [show th''.top - 1 = th'.top by omega]
    exact h'.slot_top

end Thread

namespace World

def withUserdata (w : World) (s : Store UserData) : World :=
  { w with heap := { w.heap with userdata := s } }

def withFinalizable (w : World) (vs : List Value) : World :=
  { w with collector := { w.collector with finalizable := vs } }

end World

namespace Interface

open Machine

theorem ok_checkIndex {w w' : World} {t : ThreadId} {idx : Int} {E : Engine}
    (h : checkIndex t idx E w = .ok () w') :
    validIndex (w.thread t).height idx = true ∧ w = w' := by
  have h := (returns_height w t).ok_bind h
  cases hvalid : validIndex (w.thread t).height idx with
  | false =>
      rw [hvalid] at h
      cases h
  | true =>
      rw [hvalid] at h
      cases h
      exact ⟨rfl, rfl⟩

theorem two_le_height {th : Thread} (h : validIndex th.height (-2) = true) :
    th.base + 2 ≤ th.top := by
  have hle : (2 : Int) ≤ (th.height : Int) := by
    simpa [validIndex, registryIndex] using h
  unfold Thread.height at hle
  omega

theorem returns_insert {w : World} {t : ThreadId} (htwo : (w.thread t).base + 2 ≤ (w.thread t).top) :
    Returns (insert t (-2)) w () (w.setThread t (w.thread t).swapTop) := by
  have hplace : Returns (place t (-2)) w (.slot ((w.thread t).top - 2)) w := by
    refine Returns.bind (returns_thread w t) ?_
    rw [if_neg (by decide), if_pos (by decide)]
    rw [show (((w.thread t).top : Int) + -2).toNat = (w.thread t).top - 2 by omega]
    exact Returns.pure _ w
  refine Returns.bind (returns_checkIndex_below (n := 2) (by decide) htwo) ?_
  refine Returns.bind hplace (returns_modifyThread_eq ?_)
  have hcount : (w.thread t).top - ((w.thread t).top - 2) = 2 := by omega
  simp only [hcount]
  rfl

theorem ok_insert {w w' : World} {t : ThreadId} {E : Engine}
    (h : insert t (-2) E w = .ok () w') : w' = w.setThread t (w.thread t).swapTop := by
  rcases ok_bind h with ⟨_, w₁, hcheck, _⟩
  have htwo := two_le_height (ok_checkIndex hcheck).1
  exact ((returns_insert htwo).ok_eq h).2.symm

theorem returns_writePair {w : World} {t : ThreadId} {idx : Int} {m : TableId}
    (htable : Returns (value t idx) w (.table m) w)
    (hplain : (w.heap.tables.get m.index).metatable = none)
    (hkey : Indexes ((w.thread t).slot ((w.thread t).top - 2))) :
    Returns (writePair t idx) w () ((w.withTables (w.heap.tables.modify m.index
      (·.set ((w.thread t).slot ((w.thread t).top - 2))
        ((w.thread t).slot ((w.thread t).top - 1))))
      w.collector.allocated).setThread t ((w.thread t).drop 2)) := by
  have htop : Returns (Machine.top t) w (w.thread t).top w := fun _ => rfl
  have hslot : forall i, Returns (slot t i) w ((w.thread t).slot i) w := fun _ _ => rfl
  refine Returns.bind htable (Returns.bind htop (Returns.bind (hslot _) (Returns.bind (hslot _) ?_)))
  exact Returns.bind (returns_assign_plain hplain t hkey _) (returns_drop _ t 2)

theorem needs_setField {w : World} {t : ThreadId} (hlive : w.liveThread t = true) {m : TableId}
    (htwo : (w.thread t).base + 2 ≤ (w.thread t).top)
    (hslot : (w.thread t).slot ((w.thread t).top - 2) = .table m)
    (hplain : (w.heap.tables.get m.index).metatable = none) (name : String) :
    Needs t (setField t (-2) name) w ((w.thread t).top + 1) fun _ w' =>
      exists th, th.top + 1 = (w.thread t).top ∧ th.limit = (w.thread t).limit ∧
        (w.thread t).SameBelow ((w.thread t).top - 1) th ∧
        w' = (w.withTables (w.heap.tables.modify m.index
          (·.set (.str name.toUTF8) ((w.thread t).slot ((w.thread t).top - 1))))
          w.collector.allocated).setThread t th := by
  have hheight : (w.thread t).height = (w.thread t).top - (w.thread t).base := rfl
  have habs : Returns (absIndex t (-2)) w (((w.thread t).height : Int) + 1 + -2) w :=
    Returns.bind (returns_height w t) (Returns.pure _ w)
  refine Needs.after (returns_checkIndex_below (n := 2) (by decide) htwo) rfl ?_
  refine Needs.after habs rfl ?_
  constructor
  · intro hfits
    rcases (needs_pushNew hlive (.ofText name)).returns hfits with ⟨_, w₁, hpush, hloaded⟩
    have hlive₁ := hloaded.live hlive
    have hraised := hloaded.raised
    have htop : (w₁.thread t).top = (w.thread t).top + 1 := hraised.top_eq
    have hbase₁ : (w₁.thread t).base = (w.thread t).base := hraised.below.base_eq
    have hinsert := returns_insert (w := w₁) (t := t) (by omega)
    -- the table stands where it stood, under the name and the value
    generalize hswapped : (w₁.thread t).swapTop = th at hinsert
    have hthread : (w₁.setThread t th).thread t = th := World.thread_setThread hlive₁ th
    have hbase : th.base = (w.thread t).base := by
      rw [← hswapped, Thread.base_swapTop, hbase₁]
    have htop' : th.top = (w.thread t).top + 1 := by
      rw [← hswapped, Thread.top_swapTop, htop]
    have hbelow : forall i, i < (w.thread t).top - 1 -> th.slot i = (w.thread t).slot i := by
      intro i hi
      rw [← hswapped, Thread.slot_swapTop, if_neg (by omega), if_neg (by omega)]
      exact hraised.below.slot_eq i (by omega)
    have hname : th.slot (th.top - 2) = .ofText name := by
      rw [htop', ← hswapped, Thread.slot_swapTop, if_neg (by omega), if_pos (by omega),
        show (w₁.thread t).top - 2 + 1 = (w.thread t).top + 0 by omega]
      exact hraised.slot_eq 0 _ rfl
    have hvalue : th.slot (th.top - 1) = (w.thread t).slot ((w.thread t).top - 1) := by
      rw [htop', ← hswapped, Thread.slot_swapTop, if_pos (by omega)]
      rw [show (w₁.thread t).top - 2 = (w.thread t).top - 1 by omega]
      exact hraised.below.slot_eq _ (by omega)
    have htable : th.argument ((((w.thread t).height : Int) + 1 + -2).toNat - 1) = .table m := by
      have hplace : (w.thread t).base + ((((w.thread t).height : Int) + 1 + -2).toNat - 1) =
          (w.thread t).top - 2 := by omega
      unfold Thread.argument
      rw [hbase, hplace, if_pos (by omega), hbelow _ (by omega), hslot]
    have hread : Returns (value t (((w.thread t).height : Int) + 1 + -2)) _ _ _ :=
      returns_argument (w₁.setThread t th) t (by omega)
    rw [hthread, htable] at hread
    have hwrite := returns_writePair hread
      (by
        show (w₁.heap.tables.get m.index).metatable = none
        rw [hloaded.heap_tables]
        exact hplain)
      (by rw [hthread, hname]; exact ⟨nofun, nofun⟩)
    rw [hthread, hname, hvalue] at hwrite
    refine ⟨(), _, Returns.bind hpush (Returns.bind hinsert hwrite), th.drop 2, ?_, ?_, ?_, ?_⟩
    · show th.top - 2 + 1 = _
      omega
    · show th.limit = _
      rw [← hswapped, Thread.limit_congr (Thread.room_swapTop _)]
      exact hraised.limit_eq
    · exact ⟨hbase, hbelow⟩
    · show ((w₁.setThread t th).withTables (w₁.heap.tables.modify _ _) w₁.collector.allocated).setThread
        t (th.drop 2) = _
      rw [hloaded.setThread_eq, hloaded.heap_tables, hloaded.collector_eq]
      exact World.setThread_setThread (w.withTables _ _) t _ _
  · intro hover E a w' h
    rcases ok_bind h with ⟨_, w₁, hpush, _⟩
    exact (needs_pushNew hlive _).stops hover E _ w₁ hpush

theorem ok_setField {w w' : World} {t : ThreadId} (hlive : w.liveThread t = true) {m : TableId}
    (hslot : (w.thread t).slot ((w.thread t).top - 2) = .table m)
    (hplain : (w.heap.tables.get m.index).metatable = none) {name : String} {E : Engine}
    (h : setField t (-2) name E w = .ok () w') :
    exists th, th.top + 1 = (w.thread t).top ∧
      (w.thread t).SameBelow ((w.thread t).top - 1) th ∧
      w' = (w.withTables (w.heap.tables.modify m.index
        (·.set (.str name.toUTF8) ((w.thread t).slot ((w.thread t).top - 1))))
        w.collector.allocated).setThread t th := by
  rcases ok_bind h with ⟨_, w₁, hcheck, _⟩
  have htwo := two_le_height (ok_checkIndex hcheck).1
  have hneeds := needs_setField hlive htwo hslot hplain name
  have hfits : (w.thread t).top + 1 ≤ (w.thread t).limit :=
    Nat.le_of_not_lt fun hover => hneeds.stops hover E () w' h
  rcases hneeds.returns hfits with ⟨_, w₂, hrun, th, htop, _, hbelow, hw₂⟩
  exact ⟨th, htop, hbelow, (hrun.ok_eq h).2.symm.trans hw₂⟩

/-!
# The shared metatable
-/

/-- The shared metatable is in its place, with the handler of finalization. -/
structure SharedReady (w : World) (m : TableId) : Prop where
  shared_eq : w.shared = .table m
  live : w.heap.tables.live m.index = true
  handler_eq : (w.heap.tables.get m.index).getStr Event.gc.field = .native (.metamethod .gc)

/-- The registry of a new machine has its first two places taken. -/
theorem registry_freshWorld : freshWorld.heap.tables.get freshWorld.registry.index =
    ((Table.withRoom 2 0).setInt mainThreadPlace (.thread ⟨0⟩)).setInt globalsPlace (.table ⟨1⟩) :=
  rfl

theorem shared_freshWorld : freshWorld.shared = .nil := by
  unfold World.shared
  rw [registry_freshWorld]
  unfold Table.get Table.setInt
  rw [Table.find_put, if_neg nofun, Table.find_put, if_neg nofun, Table.find_withRoom]

theorem plain_freshWorld :
    (freshWorld.heap.tables.get freshWorld.registry.index).metatable = none := by
  rw [registry_freshWorld]
  exact (Table.metatable_put _ _ _).trans (Table.metatable_put _ _ _)

theorem ok_pushNative {w w' : World} {t : ThreadId} {f : Native} {E : Engine}
    (h : pushNative t f 0 E w = .ok () w') :
    exists th, (w.thread t).Topped (.native f) th ∧ w' = w.setThread t th :=
  ok_pushNew h

theorem gc_field : MetaMethod.gc.field.toUTF8 = Event.gc.field := by
  decide +kernel

/-- No two operations have one field. -/
theorem field_injective {k k' : MetaMethod} (h : k.field.toUTF8 = k'.field.toUTF8) : k = k' := by
  have hall : forall k : MetaMethod, k ∈ MetaMethod.all := fun k => by cases k <;> decide
  have hnodup : (MetaMethod.all.map fun k => k.field.toUTF8).Nodup := by decide +kernel
  exact List.inj_on_of_nodup_map hnodup (hall k) (hall k') h

theorem getStr_set_field (T : Table) (k k' : MetaMethod) (v : Value) :
    (T.set (.str k.field.toUTF8) v).getStr k'.field.toUTF8 =
      if k = k' then v else T.getStr k'.field.toUTF8 := by
  unfold Table.getStr
  rw [Table.find_set]
  by_cases hk : k = k'
  · rw [if_pos hk, hk]
    exact if_pos rfl
  · rw [if_neg hk, if_neg]
    intro heq
    injection heq with heq
    exact hk (field_injective heq)

/-- One handler is put in the plain table on top of the stack. -/
theorem ok_fillHandler {w w' : World} {t : ThreadId} {m : TableId} {k : MetaMethod} {n : Nat}
    (hlive : w.liveThread t = true) (htop : (w.thread t).top = n + 1)
    (hslot : (w.thread t).slot n = .table m)
    (hplain : (w.heap.tables.get m.index).metatable = none) {E : Engine}
    (h : (do
      pushNative t (.metamethod k) 0
      setField t (-2) k.field : M Unit) E w = .ok () w') :
    exists th, th.top = n + 1 ∧ (w.thread t).SameBelow (n + 1) th ∧
      w' = (w.withTables (w.heap.tables.modify m.index
        (·.set (.str k.field.toUTF8) (.native (.metamethod k)))) w.collector.allocated).setThread
        t th := by
  rcases ok_bind h with ⟨_, w₁, hpush, hfield⟩
  rcases ok_pushNative hpush with ⟨th, htopped, rfl⟩
  have hth : (w.setThread t th).thread t = th := World.thread_setThread hlive th
  have htop₁ : th.top = n + 2 := by
    rw [htopped.top_eq, htop]
  have hslot₁ : ((w.setThread t th).thread t).slot (((w.setThread t th).thread t).top - 2) =
      .table m := by
    rw [hth, htop₁, htopped.below.slot_eq _ (by omega), show n + 2 - 2 = n by omega, hslot]
  have hvalue : th.slot (n + 1) = .native (.metamethod k) := by
    have hslot_top := htopped.slot_top
    rwa [htop] at hslot_top
  rcases ok_setField (by rw [World.liveThread_setThread, hlive]) hslot₁ hplain hfield with
    ⟨th', htop', hbelow', hw'⟩
  rw [hth, htop₁, show n + 2 - 1 = n + 1 by omega, hvalue] at hw'
  rw [hth, htop₁] at hbelow' htop'
  refine ⟨th', by omega, ⟨hbelow'.base_eq.trans htopped.below.base_eq, ?_⟩, ?_⟩
  · intro i hi
    rw [hbelow'.slot_eq i (by omega), htopped.below.slot_eq i (by omega)]
  · rw [hw']
    exact World.setThread_setThread (w.withTables _ _) t th th'

/-- Filling a plain table with the handlers of some operations. -/
theorem ok_fillHandlers {t : ThreadId} {m : TableId} {E : Engine} (ks : List MetaMethod) :
    forall {w w' : World}, w.liveThread t = true -> forall {n : Nat}, (w.thread t).top = n + 1 ->
      (w.thread t).slot n = .table m -> w.heap.tables.live m.index = true ->
      (w.heap.tables.get m.index).metatable = none ->
      (ks.forM fun k => do
        pushNative t (.metamethod k) 0
        setField t (-2) k.field) E w = .ok () w' ->
      exists th T, th.top = n + 1 ∧ (w.thread t).SameBelow (n + 1) th ∧
        w' = (w.withTables (w.heap.tables.modify m.index fun _ => T)
          w.collector.allocated).setThread t th ∧
        forall k : MetaMethod,
          (w.heap.tables.get m.index).getStr k.field.toUTF8 = .native (.metamethod k) ∨ k ∈ ks ->
            T.getStr k.field.toUTF8 = .native (.metamethod k) := by
  induction ks with
  | nil =>
      intro w w' hlive n htop hslot hm hplain h
      cases h
      refine ⟨w.thread t, w.heap.tables.get m.index, htop, Thread.SameBelow.refl _ _, ?_, ?_⟩
      · rw [← Store.modify_eq_write _ _ fun T => T, Store.modify_id]
        exact (World.setThread_thread w t).symm
      · intro k' hor
        rcases hor with hor | hor
        · exact hor
        · cases hor
  | cons k ks ih =>
      intro w w' hlive n htop hslot hm hplain h
      rcases ok_bind h with ⟨_, w₁, hfirst, h⟩
      rcases ok_fillHandler hlive htop hslot hplain hfirst with ⟨th, htop₁, hbelow, hw₁⟩
      rw [Store.modify_eq_write] at hw₁
      have hlive₁ : w₁.liveThread t = true := by
        rw [hw₁, World.liveThread_setThread]
        exact hlive
      have hthread : w₁.thread t = th := by
        rw [hw₁]
        exact World.thread_setThread (w := w.withTables _ _) hlive th
      have htable : w₁.heap.tables.get m.index =
          (w.heap.tables.get m.index).set (.str k.field.toUTF8) (.native (.metamethod k)) := by
        rw [hw₁]
        exact Store.get_modify_self hm _
      have hm₁ : w₁.heap.tables.live m.index = true := by
        rw [hw₁]
        exact (Store.live_modify _ _ _ _).trans hm
      rcases ih (n := n) hlive₁ (by rw [hthread, htop₁])
        (by rw [hthread, hbelow.slot_eq n (Nat.lt_succ_self n), hslot]) hm₁
        (by rw [htable]; exact (Table.metatable_put _ _ _).trans hplain) h with
        ⟨th', T, htop', hbelow', hw', hfields⟩
      rw [hthread] at hbelow'
      refine ⟨th', T, htop', hbelow.trans hbelow' (Nat.le_refl _), ?_, ?_⟩
      · rw [hw', hw₁]
        show ((w.withTables ((w.heap.tables.modify m.index fun _ => _).modify m.index fun _ => T)
          _).setThread t th).setThread t th' = _
        rw [World.setThread_setThread, Store.write_write]
        rfl
      · -- the field of `k` has its handler now, and the fields of the others are as they were
        intro k' hor
        apply hfields
        rw [htable, getStr_set_field]
        by_cases hk : k = k'
        · rw [if_pos hk, hk]
          exact Or.inl rfl
        · rw [if_neg hk]
          rcases hor with hor | hor
          · exact Or.inl hor
          · exact Or.inr ((List.mem_cons.mp hor).resolve_left (Ne.symm hk))

/-- The table that a name is given in the registry. -/
def namedTable (name : Bytes) : Table := (Table.withRoom 0 2).setStr "__name".toUTF8 (.str name)

/-- The tables with a new one, which the registry has under a name. -/
def enlisted (w : World) (name : Bytes) (T : Table) : Store Table :=
  (w.heap.tables.push T).modify w.registry.index
    (·.set (.str name) (.table ⟨w.heap.tables.next⟩))

section Enlisted

variable {w : World} (hregistry : w.heap.tables.live w.registry.index = true) (name : Bytes)
  (T : Table)

include hregistry

theorem find?_enlisted_new : (enlisted w name T).find? w.heap.tables.next = some T := by
  unfold enlisted
  rw [Store.find?_modify, if_neg (Nat.ne_of_lt (Store.lt_next_of_live hregistry)),
    Store.find?_push, if_pos rfl]

theorem find?_enlisted_registry : (enlisted w name T).find? w.registry.index =
    some ((w.heap.tables.get w.registry.index).set (.str name)
      (.table ⟨w.heap.tables.next⟩)) := by
  unfold enlisted
  rw [Store.find?_modify, if_pos rfl, Store.find?_push,
    if_neg (Nat.ne_of_lt (Store.lt_next_of_live hregistry)), Store.find?_of_live hregistry]
  rfl

theorem enlisted_filled (T' : Table) :
    (enlisted w name T).modify w.heap.tables.next (fun _ => T') = enlisted w name T' := by
  unfold enlisted
  rw [Store.modify_comm _ (Nat.ne_of_lt (Store.lt_next_of_live hregistry)), Store.modify_push]

theorem metatable_enlisted_registry :
    ((enlisted w name T).get w.registry.index).metatable =
      (w.heap.tables.get w.registry.index).metatable := by
  rw [Store.get_of_find? (find?_enlisted_registry hregistry name T)]
  exact Table.metatable_put _ _ _

/-- A table that is enlisted as the shared metatable, with the handler of finalization. -/
theorem sharedReady_enlisted {w' : World}
    (htables : w'.heap.tables = enlisted w (cutName sharedMetatable) T)
    (hregistry_eq : w'.registry = w.registry)
    (hhandler : T.getStr Event.gc.field = .native (.metamethod .gc)) :
    SharedReady w' ⟨w.heap.tables.next⟩ := by
  constructor
  case shared_eq =>
    unfold World.shared
    rw [htables, hregistry_eq, Store.get_of_find? (find?_enlisted_registry hregistry _ T)]
    exact (Table.find_set _ _ _ _).trans (if_pos rfl)
  case live =>
    rw [htables]
    exact Store.live_of_find? (find?_enlisted_new hregistry _ T)
  case handler_eq =>
    rw [htables, Store.get_of_find? (find?_enlisted_new hregistry _ T)]
    exact hhandler

end Enlisted

/-- The metatable of a name is the one in the registry, or a new one that is put
there. -/
theorem ok_newMetatable {w w' : World} {t : ThreadId} (hlive : w.liveThread t = true)
    {name : String} {new : Bool} {E : Engine} (h : newMetatable t name E w = .ok new w') :
    let v := (w.heap.tables.get w.registry.index).get (.str (cutName name))
    let m : TableId := ⟨w.heap.tables.next⟩
    (v.isNil = false ∧ new = false ∧
      exists th, (w.thread t).Topped v th ∧ w' = w.setThread t th) ∨
    (v.isNil = true ∧ new = true ∧
      exists th, (w.thread t).Topped (.table m) th ∧
        w' = (w.withTables (enlisted w (cutName name) (namedTable (cutName name)))
          (w.collector.allocated + 1)).setThread t th) := by
  unfold newMetatable at h
  rcases ok_bind h with ⟨_, w₁, hreserve, h⟩
  rcases ok_reserve hreserve with ⟨th, halike, rfl⟩
  have h := (returns_registryValue (w.setThread t th) (.str (cutName name))).ok_bind h
  rw [show ((w.setThread t th).heap.tables.get (w.setThread t th).registry.index).get
    (.str (cutName name)) = (w.heap.tables.get w.registry.index).get (.str (cutName name))
    from rfl] at h
  cases hnil : ((w.heap.tables.get w.registry.index).get (.str (cutName name))).isNil with
  | false =>
      rw [hnil] at h
      rcases ok_bind h with ⟨_, w₂, hpush, h⟩
      rcases (returns_push _ t _).ok_eq hpush with ⟨_, rfl⟩
      cases h
      rw [World.thread_setThread hlive, World.setThread_setThread]
      exact Or.inl ⟨hnil, rfl, _, halike.topped _, rfl⟩
  | true =>
      rw [hnil] at h
      let s := enlisted w (cutName name) (namedTable (cutName name))
      have h := (returns_newTable (w.setThread t th) (namedTable (cutName name))).ok_bind h
      rcases ok_bind h with ⟨_, w₂, hset, h⟩
      have hregister : Returns (setRegistryValue (.str (cutName name))
          (.table ⟨w.heap.tables.next⟩))
          ((w.withTables (w.heap.tables.push (namedTable (cutName name)))
            (w.collector.allocated + 1)).setThread t th) ()
          ((w.withTables s (w.collector.allocated + 1)).setThread t th) := fun _ => rfl
      rcases hregister.ok_eq hset with ⟨_, rfl⟩
      rcases ok_bind h with ⟨_, w₃, hpush, h⟩
      rcases (returns_push _ t _).ok_eq hpush with ⟨_, rfl⟩
      cases h
      have hlive' : (w.withTables s (w.collector.allocated + 1)).liveThread t = true := hlive
      rw [World.thread_setThread hlive', World.setThread_setThread]
      exact Or.inr ⟨hnil, rfl, _, halike.topped _, rfl⟩

theorem ok_pushSharedMetatable_old {w w' : World} {t : ThreadId} (hlive : w.liveThread t = true)
    (hold : w.shared ≠ .nil) {E : Engine} (h : pushSharedMetatable t E w = .ok () w') :
    exists th, (w.thread t).Topped w.shared th ∧ w' = w.setThread t th := by
  unfold pushSharedMetatable at h
  rcases ok_bind h with ⟨new, w₁, hnew, h⟩
  have hor : (w.shared.isNil = false ∧ new = false ∧
      exists th, (w.thread t).Topped w.shared th ∧ w₁ = w.setThread t th) ∨ _ :=
    ok_newMetatable hlive hnew
  rcases hor with ⟨_, rfl, th, htopped, rfl⟩ | ⟨hnil, _⟩
  · cases h
    exact ⟨th, htopped, rfl⟩
  · exact absurd (Table.isNil_eq_true.mp hnil) hold

theorem ok_pushSharedMetatable_new {w w' : World} {t : ThreadId} (hlive : w.liveThread t = true)
    (hregistry : w.heap.tables.live w.registry.index = true) (hnone : w.shared = .nil) {E : Engine}
    (h : pushSharedMetatable t E w = .ok () w') :
    exists th s allocated lg, (w.thread t).Topped (.table ⟨w.heap.tables.next⟩) th ∧
      w' = ((w.withTables s allocated).setThread t th).setLog lg ∧
      SharedReady w' ⟨w.heap.tables.next⟩ ∧ s.live w.registry.index = true ∧
      (s.get w.registry.index).metatable = (w.heap.tables.get w.registry.index).metatable ∧
      s.next = w.heap.tables.next + 1 ∧
      forall k : MetaMethod,
        (s.get w.heap.tables.next).getStr k.field.toUTF8 = .native (.metamethod k) := by
  unfold pushSharedMetatable at h
  rcases ok_bind h with ⟨new, w₁, hnew, h⟩
  have hor : (w.shared.isNil = false ∧ new = false ∧
      exists th, (w.thread t).Topped w.shared th ∧ w₁ = w.setThread t th) ∨ _ :=
    ok_newMetatable hlive hnew
  rcases hor with ⟨hnil, _⟩ | ⟨hnil, rfl, th, htopped, rfl⟩
  · rw [hnone] at hnil
    cases hnil
  · let name := cutName sharedMetatable
    let S := enlisted w name (namedTable name)
    have hfound : S.find? w.heap.tables.next = some (namedTable name) :=
      find?_enlisted_new hregistry _ _
    have hlive' : (w.withTables S (w.collector.allocated + 1)).liveThread t = true := hlive
    have hthread := World.thread_setThread hlive' th
    rcases ok_bind h with ⟨_, w₂, hfill, h⟩
    have hfilled := ok_fillHandlers MetaMethod.all (m := ⟨w.heap.tables.next⟩)
      ((World.liveThread_setThread _ t t th).trans hlive')
      (by rw [hthread, htopped.top_eq]) (by rw [hthread, htopped.slot_top])
      (Store.live_of_find? hfound)
      (by show (S.get _).metatable = none; rw [Store.get_of_find? hfound]; rfl) hfill
    rcases hfilled with ⟨th', T, htop', hbelow', rfl, hfields⟩
    rw [hthread] at hbelow'
    cases h
    have htables : S.modify w.heap.tables.next (fun _ => T) = enlisted w name T :=
      enlisted_filled hregistry _ _ T
    have hnew := find?_enlisted_new hregistry name T
    have hhandlers : forall k : MetaMethod,
        T.getStr k.field.toUTF8 = .native (.metamethod k) := fun k =>
      hfields k (Or.inr (by cases k <;> decide))
    refine ⟨th', enlisted w name T, w.collector.allocated + 1,
      ⟨.debug, "created shared userdata metatable " ++ sharedMetatable⟩ :: w.log,
      ?_, ?_, ?_, ?_, ?_, ?_, ?_⟩
    · refine ⟨htop', ?_, htopped.below.trans hbelow' (Nat.le_succ _)⟩
      rw [hbelow'.slot_eq _ (Nat.lt_succ_self _), htopped.slot_top]
    · rw [← htables]
      exact congrArg (fun v : World => v.setLog _) (World.setThread_setThread
        (w.withTables _ (w.collector.allocated + 1)) t th th')
    · refine sharedReady_enlisted hregistry T htables rfl ?_
      rw [← gc_field]
      exact hhandlers .gc
    · exact Store.live_of_find? (find?_enlisted_registry hregistry name T)
    · exact metatable_enlisted_registry hregistry name T
    · exact (Store.next_modify _ _ _).trans (Array.size_push _)
    · intro k
      rw [Store.get_of_find? hnew]
      exact hhandlers k

/-- The shared metatable is the one in the registry, or a new one that is filled. -/
theorem ok_pushSharedMetatable {w w' : World} {t : ThreadId} (hlive : w.liveThread t = true)
    (hregistry : w.heap.tables.live w.registry.index = true)
    (hready : w.shared = .nil ∨ exists m, SharedReady w m) {E : Engine}
    (h : pushSharedMetatable t E w = .ok () w') :
    exists m th s allocated lg, (w.thread t).Topped (.table m) th ∧
      w' = ((w.withTables s allocated).setThread t th).setLog lg ∧
      SharedReady w' m ∧ (w.shared = .nil ∨ w.shared = .table m) ∧
      s.live w.registry.index = true ∧
      (s.get w.registry.index).metatable = (w.heap.tables.get w.registry.index).metatable := by
  rcases hready with hnil | ⟨m, hready⟩
  · rcases ok_pushSharedMetatable_new hlive hregistry hnil h with
      ⟨th, s, allocated, lg, htopped, hw', hready', hlive', hplain', _, _⟩
    exact ⟨_, th, s, allocated, lg, htopped, hw', hready', Or.inl hnil, hlive', hplain'⟩
  · have hold : w.shared ≠ .nil := by
      rw [hready.shared_eq]
      exact nofun
    rcases ok_pushSharedMetatable_old hlive hold h with ⟨th, htopped, rfl⟩
    rw [hready.shared_eq] at htopped
    exact ⟨m, th, w.heap.tables, w.collector.allocated, w.log, htopped, rfl,
      ⟨hready.shared_eq, hready.live, hready.handler_eq⟩, Or.inr hready.shared_eq, hregistry, rfl⟩

/-!
# The new userdata
-/

/-- A world in which a userdata has the block `b` and the shared metatable, and
is noted for finalization unless the machine closes. -/
structure Holds (w : World) (u : UserDataId) (b : Block) (w' : World) : Prop where
  fresh : u.index = w.heap.userdata.next
  registry_eq : w'.registry = w.registry
  registry_live : w'.heap.tables.live w'.registry.index = true
  registry_metatable : (w'.heap.tables.get w'.registry.index).metatable =
    (w.heap.tables.get w.registry.index).metatable
  shared : exists m userValues, SharedReady w' m ∧ (w.shared = .nil ∨ w.shared = .table m) ∧
    w'.heap.userdata = w.heap.userdata.push { payload := .block b, metatable := some m, userValues }
  events_eq : w'.events = w.events
  closing_eq : w'.collector.closing = w.collector.closing
  pending_eq : w'.collector.pending = w.collector.pending
  finalizable_eq : w'.collector.finalizable = w.collector.finalizable ∨
    w'.collector.finalizable = .userdata u :: w.collector.finalizable
  noted : w.collector.closing = false ->
    Value.userdata u ∈ w'.collector.finalizable ∨ Value.userdata u ∈ w'.collector.pending

namespace Holds

variable {w w' : World} {u : UserDataId} {b : Block}

theorem next_eq (h : Holds w u b w') :
    w'.heap.userdata.next = w.heap.userdata.next + 1 := by
  rcases h.shared with ⟨_, _, _, _, huserdata⟩
  rw [huserdata]
  exact Array.size_push _

theorem find?_new (h : Holds w u b w') :
    exists m userValues, w'.shared = .table m ∧ w'.heap.userdata.find? u.index =
      some { payload := .block b, metatable := some m, userValues } := by
  rcases h.shared with ⟨m, userValues, hready, _, huserdata⟩
  refine ⟨m, userValues, hready.shared_eq, ?_⟩
  rw [huserdata, Store.find?_push, if_pos h.fresh]

theorem find?_old (h : Holds w u b w') {i : Nat} (hi : i < w.heap.userdata.next) :
    w'.heap.userdata.find? i = w.heap.userdata.find? i := by
  rcases h.shared with ⟨_, _, _, _, huserdata⟩
  rw [huserdata, Store.find?_push, if_neg (Nat.ne_of_lt hi)]

/-- A metatable that was registered is the one that the new userdata has. -/
theorem shared_old (h : Holds w u b w') {m : TableId} (hm : w.shared = .table m) :
    w'.shared = .table m := by
  rcases h.shared with ⟨m', _, hready, hnil | hsame, _⟩
  · rw [hm] at hnil
    cases hnil
  · rw [hm] at hsame
    cases hsame
    exact hready.shared_eq

theorem noted_old (h : Holds w u b w') {v : Value}
    (hv : v ∈ w.collector.finalizable ++ w.collector.pending) :
    v ∈ w'.collector.finalizable ++ w'.collector.pending := by
  rw [h.pending_eq]
  rcases List.mem_append.mp hv with hv | hv
  · refine List.mem_append_left _ ?_
    rcases h.finalizable_eq with heq | heq
    · rwa [heq]
    · rw [heq]
      exact List.mem_cons_of_mem _ hv
  · exact List.mem_append_right _ hv

end Holds

/-- An object with a finalizer is noted, unless it is already or the machine
closes. -/
theorem ok_noteFinalizer {w w' : World} {v : Value} {m : TableId} {f : Native}
    (hhandler : (w.heap.tables.get m.index).getStr Event.gc.field = .native f) {E : Engine}
    (h : noteFinalizer v m E w = .ok () w') :
    exists vs, w' = w.withFinalizable vs ∧
      (vs = w.collector.finalizable ∨ vs = v :: w.collector.finalizable) ∧
      (w.collector.closing = false -> v ∈ vs ∨ v ∈ w.collector.pending) := by
  unfold noteFinalizer at h
  have h := (returns_get w).ok_bind h
  by_cases hnoted : (w.collector.closing || Collector.noted w.collector v) = true
  · rw [if_pos hnoted] at h
    cases h
    refine ⟨w.collector.finalizable, rfl, Or.inl rfl, ?_⟩
    intro hclosing
    rw [hclosing] at hnoted
    simpa [Collector.noted] using hnoted
  · rw [if_neg hnoted] at h
    have htable : Returns (table m) w (w.heap.tables.get m.index) w := fun _ => rfl
    have h := htable.ok_bind h
    rw [hhandler] at h
    cases h
    exact ⟨v :: w.collector.finalizable, rfl, Or.inr rfl, fun _ => Or.inl (List.mem_cons_self ..)⟩

theorem ok_setMetatable {w w' : World} {t : ThreadId} {u : UserDataId} {m : TableId}
    (huserdata : (w.thread t).slot ((w.thread t).top - 2) = .userdata u)
    (htable : (w.thread t).slot ((w.thread t).top - 1) = .table m) (hready : SharedReady w m)
    {E : Engine} (h : setMetatable t (-2) E w = .ok () w') :
    exists vs, w' = ((w.withUserdata (w.heap.userdata.modify u.index fun d =>
        { d with metatable := some m })).withFinalizable vs).setThread t ((w.thread t).drop 1) ∧
      (vs = w.collector.finalizable ∨ vs = .userdata u :: w.collector.finalizable) ∧
      (w.collector.closing = false ->
        Value.userdata u ∈ vs ∨ Value.userdata u ∈ w.collector.pending) := by
  unfold setMetatable at h
  rcases ok_bind h with ⟨_, w₁, hcheck, h⟩
  rcases ok_checkIndex hcheck with ⟨_, rfl⟩
  have hfirst := returns_value_below w t (n := 2) (by decide)
  have hsecond := returns_value_below w t (n := 1) (by decide)
  rw [huserdata] at hfirst
  rw [htable] at hsecond
  have h := hfirst.ok_bind h
  have h := hsecond.ok_bind h
  rcases ok_bind h with ⟨_, w₂, hgive, h⟩
  rcases (returns_drop w₂ t 1).ok_eq h with ⟨_, rfl⟩
  let w₁ := w.withUserdata (w.heap.userdata.modify u.index fun d => { d with metatable := some m })
  have hgiven : Returns (setMetatableOf (.userdata u) (some m)) w () w₁ := fun _ => rfl
  have hnoted := ok_noteFinalizer (w := w₁) hready.handler_eq (hgiven.ok_bind hgive)
  rcases hnoted with ⟨vs, rfl, hvs⟩
  exact ⟨vs, rfl, hvs⟩

/-- The userdata that a host value is moved into, before it gets its metatable. -/
def bareUserData (type : HostType) (v : HostValue) (userValues : Nat) : UserData :=
  { payload := .block { type, value := v }, userValues := Array.replicate userValues .nil }

/-- The world with one more userdata, which is on top of the stack. -/
def withBare (w : World) (t : ThreadId) (d : UserData) (th : Thread) : World :=
  ((w.withUserdata (w.heap.userdata.push d)).withTables w.heap.tables
    (w.collector.allocated + 1)).setThread t th

theorem liveThread_withBare {w : World} {t : ThreadId} (hlive : w.liveThread t = true)
    (d : UserData) (th : Thread) : (withBare w t d th).liveThread t = true :=
  (World.liveThread_setThread ((w.withUserdata (w.heap.userdata.push d)).withTables w.heap.tables
    (w.collector.allocated + 1)) t t th).trans hlive

theorem thread_withBare {w : World} {t : ThreadId} (hlive : w.liveThread t = true) (d : UserData)
    (th : Thread) : (withBare w t d th).thread t = th :=
  World.thread_setThread (w := (w.withUserdata (w.heap.userdata.push d)).withTables w.heap.tables
    (w.collector.allocated + 1)) hlive th

/-- Pushing a host value makes the userdata, pushes the shared metatable, and
joins them. -/
theorem ok_pushUserData_parts {w w' : World} {t : ThreadId} (hlive : w.liveThread t = true)
    {type : HostType} {v : HostValue} {userValues : Nat} {u : UserDataId} {E : Engine}
    (h : pushUserData t type v userValues E w = .ok u w') :
    u = ⟨w.heap.userdata.next⟩ ∧ exists th w₁, (w.thread t).Topped (.userdata u) th ∧
      pushSharedMetatable t E (withBare w t (bareUserData type v userValues) th) = .ok () w₁ ∧
      setMetatable t (-2) E w₁ = .ok () w' := by
  unfold pushUserData at h
  rcases ok_bind h with ⟨_, w₁, hreserve, h⟩
  rcases ok_reserve hreserve with ⟨th, halike, rfl⟩
  let d := bareUserData type v userValues
  let w₁ := (w.withUserdata (w.heap.userdata.push d)).withTables w.heap.tables
    (w.collector.allocated + 1)
  have hlive₁ : w₁.liveThread t = true := hlive
  have hnew : Returns (newUserdata d) (w.setThread t th) ⟨w.heap.userdata.next⟩
      (w₁.setThread t th) := fun _ => rfl
  have h := hnew.ok_bind h
  rcases ok_bind h with ⟨_, w₂, hpush, h⟩
  rcases (returns_push _ t _).ok_eq hpush with ⟨_, rfl⟩
  rw [World.thread_setThread hlive₁, World.setThread_setThread] at h
  rcases ok_bind h with ⟨_, w₃, hshared, h⟩
  rcases ok_bind h with ⟨_, w₄, hgive, h⟩
  cases h
  exact ⟨rfl, _, w₃, halike.topped _, hshared, hgive⟩

/-- A host value that was pushed is in a new userdata with the shared metatable. -/
theorem ok_pushUserData {w w' : World} {t : ThreadId} (hlive : w.liveThread t = true)
    (hregistry : w.heap.tables.live w.registry.index = true)
    (hready : w.shared = .nil ∨ exists m, SharedReady w m) {type : HostType} {v : HostValue}
    {userValues : Nat} {u : UserDataId} {E : Engine}
    (h : pushUserData t type v userValues E w = .ok u w') :
    Holds w u { type, value := v } w' := by
  rcases ok_pushUserData_parts hlive h with ⟨rfl, th, w₃, htopped, hshared, hgive⟩
  let d := bareUserData type v userValues
  have hready₁ : w.shared = .nil ∨ exists m, SharedReady (withBare w t d th) m := by
    rcases hready with hnil | ⟨m, hready⟩
    · exact Or.inl hnil
    · exact Or.inr ⟨m, hready.shared_eq, hready.live, hready.handler_eq⟩
  have hlive₁ := liveThread_withBare hlive d th
  rcases ok_pushSharedMetatable hlive₁ hregistry hready₁ hshared with
    ⟨m, th', s, allocated, lg, htopped', hw₃, hready', hor, hregistry', hplain'⟩
  rw [thread_withBare hlive] at htopped'
  have hthread : w₃.thread t = th' := by
    rw [hw₃]
    exact World.thread_setThread (w := (withBare w t d th).withTables s allocated) hlive₁ th'
  have hpair := htopped.pair htopped'
  rw [← hthread] at hpair
  have hgiven := ok_setMetatable hpair.1 hpair.2 hready' hgive
  rcases hgiven with ⟨vs, rfl, hvs, hnoted⟩
  have hsame : w₃.heap.userdata = w.heap.userdata.push d ∧ w₃.registry = w.registry ∧
      w₃.events = w.events ∧ w₃.collector.closing = w.collector.closing ∧
      w₃.collector.pending = w.collector.pending ∧
      w₃.collector.finalizable = w.collector.finalizable ∧ w₃.heap.tables = s := by
    rw [hw₃]
    exact ⟨rfl, rfl, rfl, rfl, rfl, rfl, rfl⟩
  rcases hsame with ⟨huserdata, hreg, hevents, hclosing, hpending, hfinalizable, htables⟩
  rw [hfinalizable] at hvs
  rw [hclosing, hpending] at hnoted
  constructor
  case fresh => rfl
  case registry_eq => exact hreg
  case registry_live =>
    show w₃.heap.tables.live w₃.registry.index = true
    rw [htables, hreg]
    exact hregistry'
  case registry_metatable =>
    show (w₃.heap.tables.get w₃.registry.index).metatable = _
    rw [htables, hreg]
    exact hplain'
  case shared =>
    refine ⟨m, Array.replicate userValues .nil, ?_, hor, ?_⟩
    · exact ⟨hready'.shared_eq, hready'.live, hready'.handler_eq⟩
    · show w₃.heap.userdata.modify w.heap.userdata.next _ = _
      rw [huserdata]
      exact Store.modify_push _ _ _
  case events_eq => exact hevents
  case closing_eq => exact hclosing
  case pending_eq => exact hpending
  case finalizable_eq => exact hvs
  case noted =>
    intro hopen
    show Value.userdata ⟨w.heap.userdata.next⟩ ∈ vs ∨ _ ∈ w₃.collector.pending
    rw [hpending]
    exact hnoted hopen

end Interface

end LuaHost
