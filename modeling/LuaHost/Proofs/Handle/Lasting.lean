import LuaHost.Interface.Execution
import LuaHost.Proofs.Handle.Sharing
import LuaHost.Session.HandleSteps
import LuaHost.Proofs.Handle.Turning

/-!
# Threads last

Nothing but a cycle of the collector ends a thread.  The operations with handles
look up the flag in the registry, which runs no script as long as the registry
has no metatable; apart from that they only write to stacks and to the registry.
-/

namespace LuaHost

open Interface

namespace World

/-- A registry in which nothing is looked up by a script. -/
structure PlainRegistry (w : World) : Prop where
  live : w.registryLive = true
  plain : w.registryTable.metatable = none

/-- Where the registry is plain it stays so, and threads last. -/
structure Lasting (w w' : World) : Prop where
  plain : w.PlainRegistry -> w'.PlainRegistry
  main_eq : w.PlainRegistry -> w'.mainThread = w.mainThread
  live : w.PlainRegistry -> forall t, w.liveThread t = true -> w'.liveThread t = true

theorem Lasting.trans {w w' w'' : World} (h : w.Lasting w') (h' : w'.Lasting w'') :
    w.Lasting w'' :=
  ⟨fun hplain => h'.plain (h.plain hplain),
    fun hplain => (h'.main_eq (h.plain hplain)).trans (h.main_eq hplain),
    fun hplain t ht => h'.live (h.plain hplain) t (h.live hplain t ht)⟩

instance : Lax Lasting where
  trans := Lasting.trans
  of_aside {w w'} h := by
    have hlive : w'.registryLive = w.registryLive := by
      unfold registryLive
      rw [h.registry_eq, h.tables_eq]
    have htable : w'.registryTable = w.registryTable := by
      unfold registryTable
      rw [h.registry_eq, h.tables_eq]
    refine ⟨fun hplain => ⟨hlive.trans hplain.live, ?_⟩, fun _ => h.main_eq, fun _ t ht => ?_⟩
    · rw [htable]
      exact hplain.plain
    · exact (h.live_eq t).trans ht

end World

namespace Machine

open World

/-- Only a registry that is plain matters. -/
theorem lasting_of_plain {α : Type} {x : M α}
    (h : forall (E : Engine) (w : World), w.PlainRegistry ->
      Ends x E w (fun _ w' => w.Lasting w') fun w' => w.Lasting w') :
    Keeps Lasting x := by
  refine ⟨fun E w => ?_⟩
  by_cases hplain : w.PlainRegistry
  · exact h E w hplain
  · have hother (w' : World) : w.Lasting w' :=
      ⟨fun h => absurd h hplain, fun h => absurd h hplain, fun h => absurd h hplain⟩
    exact ends_iff.mpr ⟨fun _ w' _ => hother w', fun _ w' _ => hother w'⟩

theorem lasting_modifyTable (id : TableId) {f : Table → Table}
    (hf : forall T, (f T).metatable = T.metatable) : Keeps Lasting (modifyTable id f) := by
  refine ⟨fun E w => (returns_modifyTable w id f).ends ⟨?_, fun _ => rfl, fun _ _ ht => ht⟩⟩
  intro hplain
  refine ⟨(Store.live_modify _ _ _ _).trans hplain.live, ?_⟩
  show ((w.heap.tables.modify id.index f).get w.registry.index).metatable = none
  by_cases hid : id.index = w.registry.index
  · rw [hid, Store.get_modify_self hplain.live, hf]
    exact hplain.plain
  · rw [Store.get_modify_ne _ hid]
    exact hplain.plain

theorem lasting_setRegistryValue (k v : Value) : Keeps Lasting (setRegistryValue k v) :=
  keeps_get.bind fun w => lasting_modifyTable w.registry fun T => Table.metatable_put T _ v

theorem lasting_tableLength (id : TableId) : Keeps Lasting (tableLength id) := by
  refine Keeps.bind (keeps_reads fun w => ⟨w.heap.tables.get id.index, fun _ => rfl⟩) fun T => ?_
  rcases T.borderAndHint with ⟨n, hint⟩
  exact Keeps.bind (lasting_modifyTable id fun _ => rfl) fun _ => Keeps.pure n

theorem lasting_withLiveness (w : World) (l : Option Liveness) : w.Lasting (w.withLiveness l) :=
  ⟨fun hplain => ⟨hplain.live, hplain.plain⟩, fun _ => rfl, fun _ _ ht => ht⟩

theorem lasting_newThread (th : Thread) : Keeps Lasting (Machine.newThread th) := by
  refine keeps_get.bind fun w => ?_
  have hpush : Keeps Lasting (modify fun w =>
      { w with heap := { w.heap with threads := w.heap.threads.push th } } : M Unit) := by
    refine ⟨fun _ w => (returns_modify _ w).ends ?_⟩
    refine ⟨fun hplain => ⟨hplain.live, hplain.plain⟩, fun _ => rfl, fun _ t ht => ?_⟩
    show ((w.heap.threads.push th).find? t.index).isSome = true
    rw [Store.find?_push, if_neg (Nat.ne_of_lt (Store.lt_next_of_live ht))]
    exact ht
  exact hpush.bind fun _ => keeps_countAllocation.bind fun _ => Keeps.pure _

theorem keeps_log {R : World → World → Prop} [Lax R] (level : LogLevel) (message : String) :
    Keeps R (log level message) :=
  keeps_aside fun w => w.aside_setLog _

theorem lasting_pop (t : ThreadId) : Keeps Lasting (Machine.pop t) :=
  (keeps_thread t).bind fun _ => (keeps_modifyThread t _).bind fun _ => Keeps.pure _

end Machine

namespace Interface

open Machine World Session

/-!
# The registry
-/

theorem lasting_register (v : Value) : Keeps Lasting (register v) := by
  have hfirst : Keeps Lasting firstFree := by
    refine (keeps_registryValue _).bind fun x => ?_
    cases x with
    | int i => exact Keeps.pure _
    | _ => exact (lasting_setRegistryValue _ _).bind fun _ => Keeps.pure _
  have hset (id : RefId) : Keeps Lasting (do
      setRegistryValue (refKey id) v
      return id : M RefId) :=
    (lasting_setRegistryValue _ v).bind fun _ => Keeps.pure id
  refine hfirst.bind fun id => ?_
  dsimp only
  split
  · refine (keeps_registryValue _).bind fun next => ?_
    exact (lasting_setRegistryValue _ next).bind fun _ => (Keeps.pure id).bind hset
  · refine keeps_get.bind fun w => (lasting_tableLength w.registry).bind fun n => ?_
    exact (Keeps.pure _).bind hset

theorem lasting_registryRef (t : ThreadId) : Keeps Lasting (registryRef t) := by
  have hlog (id : RefId) : Keeps Lasting (do
      log .trace ("ref " ++ toString id)
      return id : M RefId) :=
    (keeps_log _ _).bind fun _ => Keeps.pure id
  have hrest : Keeps Lasting (do
      let v ← Machine.pop t
      let id ← if v.isNil then pure nilRef else register v
      log .trace ("ref " ++ toString id)
      return id : M RefId) := by
    refine (lasting_pop t).bind fun v => ?_
    dsimp only
    split
    · exact (Keeps.pure nilRef).bind hlog
    · exact (lasting_register v).bind hlog
  refine (keeps_height t).bind fun n => ?_
  dsimp only
  split
  · exact (keeps_abort _).bind fun _ => hrest
  · exact hrest

theorem lasting_registryUnref (id : RefId) : Keeps Lasting (registryUnref id) := by
  unfold registryUnref
  split
  · refine (keeps_log _ _).bind fun _ => ?_
    unfold release
    split
    · refine (keeps_registryValue _).bind fun v => ?_
      exact (lasting_setRegistryValue _ _).bind fun _ => lasting_setRegistryValue _ _
    · exact Keeps.pure _
  · exact Keeps.pure _

theorem lasting_pushRef (t : ThreadId) (id : RefId) : Keeps Lasting (pushRef t id) := by
  have hget : Keeps Lasting (registryGet t (Int64.ofInt id)) := by
    refine (keeps_checkIndex t _).bind fun _ => (keeps_reserve t 1).bind fun _ => ?_
    refine Keeps.bind ?_ fun v => (keeps_modifyThread t _).bind fun _ => Keeps.pure _
    refine ((keeps_value t _).bind fun v => Keeps.pure _).bind fun m => ?_
    cases m with
    | none => exact Keeps.pure _
    | some i => exact keeps_reads fun w => ⟨_, fun _ => rfl⟩
  unfold pushRef
  split
  · exact (keeps_pushNew t .nil).bind fun _ => Keeps.pure _
  · exact hget

/-- The flag is looked up without a script in a registry that is plain. -/
theorem lasting_shareFlag (t : ThreadId) : Keeps Lasting (shareFlag t) := by
  have hreplace : Keeps Lasting (replaceKey t registryIndex) := by
    refine lasting_of_plain fun E w hplain => ?_
    exact (returns_replaceKey_registry hplain.plain t).ends (Lax.of_aside (w.aside_setThread t _))
  have hrest : Keeps Lasting (do pushString t aliveField; replaceKey t registryIndex) :=
    (keeps_pushNew t _).bind fun _ => hreplace
  have hfield : Keeps Lasting (getField t registryIndex aliveField) := by
    refine (keeps_checkIndex t _).bind fun _ => ⟨fun E w => ?_⟩
    exact Ends.after (a := registryIndex) (Returns.pure registryIndex w) (hrest.run E w)
  have hlook : Keeps Lasting (toLightUserData t (-1)) :=
    (keeps_checkIndex t _).bind fun _ => (keeps_value t _).bind fun _ => Keeps.pure _
  have hcount : Keeps Lasting (modify fun w =>
      { w with liveness := w.liveness.map fun l => { l with owners := l.owners + 1 } } : M Unit) :=
    ⟨fun _ w => (returns_modify _ w).ends (lasting_withLiveness w _)⟩
  refine hfield.bind fun _ => hlook.bind fun p => (keeps_pop t 1).bind fun _ => ?_
  split
  · exact Keeps.pure _
  · exact hcount.bind fun _ => Keeps.pure _

theorem lasting_dropShare : Keeps Lasting dropShare :=
  ⟨fun _ w => (returns_dropShare w).ends (lasting_withLiveness w _)⟩

theorem lasting_isAlive : Keeps Lasting isAlive := keeps_get.bind fun _ => Keeps.pure _

theorem lasting_pushNewThread (t : ThreadId) : Keeps Lasting (Interface.newThread t) := by
  refine (keeps_reserve t 1).bind fun _ => (keeps_thread t).bind fun th => ?_
  refine keeps_get.bind fun w => (keeps_thread w.mainThread).bind fun main => ?_
  exact (lasting_newThread _).bind fun id => (keeps_modifyThread t _).bind fun _ => Keeps.pure id

/-!
# Handles
-/

theorem lasting_adopt (t : ThreadId) (id : RefId) : Keeps Lasting (OwnedRef.adopt t id) :=
  (lasting_shareFlag t).bind fun _ => Keeps.pure _

theorem lasting_popFrom (t : ThreadId) : Keeps Lasting (OwnedRef.popFrom t) :=
  (lasting_registryRef t).bind fun id => lasting_adopt t id

theorem lasting_popFrom_manual (t : ThreadId) : Keeps Lasting (ManualRef.popFrom t) :=
  (lasting_registryRef t).bind fun _ => Keeps.pure _

theorem lasting_fromIndex_manual (t : ThreadId) (idx : Int) :
    Keeps Lasting (ManualRef.fromIndex t idx) :=
  (keeps_pushValue t idx).bind fun _ => lasting_popFrom_manual t

theorem lasting_detach (t : ThreadId) (idx : Int) :
    Keeps Lasting (ManualValue.fromIndex t idx) := by
  have hbehind (k : RefKind) :
      Keeps Lasting (do return .ref k (← ManualRef.fromIndex t idx) : M ManualValue) :=
    (lasting_fromIndex_manual t idx).bind fun _ => Keeps.pure _
  have htype : Keeps Lasting (Interface.typeOf t idx) := by
    refine (keeps_checkIndex t idx).bind fun _ => Keeps.bind ?_ fun v => ?_
    · refine (keeps_place t idx).bind fun p => ?_
      cases p with
      | nowhere => exact Keeps.pure _
      | _ => exact Keeps.bind (keeps_reads (reads_valueAt t _)) fun _ => Keeps.pure _
    · cases v <;> exact Keeps.pure _
  refine htype.bind fun k => ?_
  cases k with
  | none => exact Keeps.pure _
  | nil => exact Keeps.pure _
  | boolean => exact (keeps_toBoolean t idx).bind fun _ => Keeps.pure _
  | number =>
      refine (keeps_isInteger t idx).bind fun integral => ?_
      cases integral with
      | true => exact (keeps_toInteger t idx).bind fun _ => Keeps.pure _
      | false => exact (keeps_toNumber t idx).bind fun _ => Keeps.pure _
  | lightUserData => exact (keeps_toUserDataAddress t idx).bind fun _ => Keeps.pure _
  | string => exact hbehind .string
  | table => exact hbehind .table
  | function => exact hbehind .function
  | userData => exact hbehind .userData
  | thread => exact hbehind .thread

theorem lasting_toManual (r : OwnedRef) : Keeps Lasting r.toManual := by
  unfold OwnedRef.toManual
  split
  · exact lasting_dropShare.bind fun _ => Keeps.pure _
  · exact Keeps.pure _

theorem lasting_drop (r : OwnedRef) : Keeps Lasting r.drop := by
  unfold OwnedRef.drop
  split
  · refine lasting_isAlive.bind fun alive => ?_
    cases alive with
    | true => exact (lasting_registryUnref r.id).bind fun _ => lasting_dropShare
    | false => exact lasting_dropShare
  · exact lasting_registryUnref r.id

theorem keeps_mapM {ρ σ : Type} {R : World → World → Prop} [Lax R] {f : ρ → M σ}
    (h : forall r, Keeps R (f r)) (d : Detached ρ) : Keeps R (d.mapM f) := by
  cases d with
  | ref k r => exact (h r).bind fun _ => Keeps.pure _
  | _ => exact Keeps.pure _

theorem lasting_detach_top (t : ThreadId) : Keeps Lasting (ManualValue.popFrom t) :=
  (lasting_detach t (-1)).bind fun _ => (keeps_pop t 1).bind fun _ => Keeps.pure _

theorem lasting_fromManual (r : ManualRef) : Keeps Lasting (OwnedRef.fromManual r) :=
  lasting_adopt r.thread r.id

theorem lasting_createHandle (t : ThreadId) (c : CreateStep) :
    Keeps Lasting (createHandle t c) := by
  have hmanual (v : ManualValue) : Keeps Lasting (OwnedValue.fromManual v) :=
    keeps_mapM lasting_fromManual v
  cases c with
  | manualPop => exact (lasting_popFrom_manual t).bind fun _ => Keeps.pure _
  | manualIndex idx => exact (lasting_fromIndex_manual t idx).bind fun _ => Keeps.pure _
  | manualRaw id => exact Keeps.pure _
  | manualValuePop => exact (lasting_detach_top t).bind fun _ => Keeps.pure _
  | manualValueIndex idx => exact (lasting_detach t idx).bind fun _ => Keeps.pure _
  | ownedPop => exact (lasting_popFrom t).bind fun _ => Keeps.pure _
  | ownedIndex idx =>
      refine Keeps.bind ?_ fun _ => Keeps.pure _
      exact (keeps_pushValue t idx).bind fun _ => lasting_popFrom t
  | ownedValuePop =>
      exact ((lasting_detach_top t).bind hmanual).bind fun _ => Keeps.pure _
  | ownedValueIndex idx =>
      exact ((lasting_detach t idx).bind hmanual).bind fun _ => Keeps.pure _

theorem lasting_copy (x : Handle) : Keeps Lasting x.copy := by
  have howned (r : OwnedRef) : Keeps Lasting r.copy :=
    (lasting_pushRef r.thread r.id).bind fun _ => lasting_popFrom r.thread
  have hmanual (r : ManualRef) : Keeps Lasting r.copy :=
    (lasting_pushRef r.thread r.id).bind fun _ => lasting_popFrom_manual r.thread
  cases x with
  | manualRef r => exact (hmanual r).bind fun _ => Keeps.pure _
  | manualValue v => exact (keeps_mapM hmanual v).bind fun _ => Keeps.pure _
  | ownedRef r => exact (howned r).bind fun _ => Keeps.pure _
  | ownedValue v => exact (keeps_mapM howned v).bind fun _ => Keeps.pure _
  | typed k r => exact (howned r).bind fun _ => Keeps.pure _

theorem lasting_push (t : ThreadId) (x : Handle) : Keeps Lasting (x.push t) := by
  have hdetached {ρ : Type} {f : ρ → M Unit} (hf : forall r, Keeps Lasting (f r))
      (v : Detached ρ) : Keeps Lasting (pushDetached t f v) := by
    cases v with
    | ref k r => exact hf r
    | number n => cases n <;> exact keeps_pushNew t _
    | _ => exact keeps_pushNew t _
  cases x with
  | manualRef r => exact (lasting_pushRef r.thread r.id).bind fun _ => Keeps.pure _
  | ownedRef r => exact (lasting_pushRef r.thread r.id).bind fun _ => Keeps.pure _
  | typed k r => exact (lasting_pushRef r.thread r.id).bind fun _ => Keeps.pure _
  | manualValue v =>
      refine Keeps.bind (hdetached (fun r => ?_) v) fun _ => Keeps.pure _
      exact (lasting_pushRef t r.id).bind fun _ => Keeps.pure _
  | ownedValue v =>
      refine Keeps.bind (hdetached (fun r => ?_) v) fun _ => Keeps.pure _
      exact (lasting_pushRef t r.id).bind fun _ => Keeps.pure _

theorem lasting_takeKind (k : RefKind) (v : OwnedValue) :
    Keeps Lasting (OwnedValue.takeKind k v) := by
  unfold OwnedValue.takeKind
  cases v.asKind? k with
  | some r => exact Keeps.pure _
  | none =>
      refine Keeps.bind ?_ fun _ => Keeps.pure _
      cases v with
      | ref k' r => exact lasting_drop r
      | _ => exact Keeps.pure _

theorem lasting_turn (a : Turn) (x : Handle) : Keeps Lasting (a.run x) := by
  have hsome (y : Handle) : Keeps Lasting (pure (some y) : M (Option Handle)) := Keeps.pure _
  -- an operation that a handle does not have returns it as it is
  cases a with
  | release =>
      cases x with
      | manualRef r => exact (lasting_registryUnref r.id).bind fun _ => Keeps.pure _
      | manualValue v =>
          refine Keeps.bind ?_ fun _ => Keeps.pure _
          cases v with
          | ref k r => exact lasting_registryUnref r.id
          | _ => exact Keeps.pure _
      | _ => exact hsome _
  | drop =>
      cases x with
      | ownedRef r => exact (lasting_drop r).bind fun _ => Keeps.pure _
      | typed k r => exact (lasting_drop r).bind fun _ => Keeps.pure _
      | ownedValue v =>
          refine Keeps.bind ?_ fun _ => Keeps.pure _
          cases v with
          | ref k r => exact lasting_drop r
          | _ => exact Keeps.pure _
      | _ => exact hsome _
  | intoSafe =>
      cases x with
      | manualRef r => exact (lasting_fromManual r).bind fun _ => Keeps.pure _
      | manualValue v => exact (keeps_mapM lasting_fromManual v).bind fun _ => Keeps.pure _
      | _ => exact hsome _
  | intoUnsafe =>
      cases x with
      | ownedRef r => exact (lasting_toManual r).bind fun _ => Keeps.pure _
      | ownedValue v => exact (keeps_mapM lasting_toManual v).bind fun _ => Keeps.pure _
      | _ => exact hsome _
  | intoInner =>
      cases x with
      | typed k r => exact hsome (.ownedRef r)
      | _ => exact hsome _
  | asKind k =>
      cases x with
      | manualValue v => exact hsome _
      | ownedValue v => exact (lasting_takeKind k v).bind fun _ => Keeps.pure _
      | _ => exact hsome _
  | tryKind k =>
      cases x with
      | ownedValue v =>
          refine Keeps.bind ?_ fun _ => Keeps.pure _
          refine (lasting_takeKind k v).bind fun r => ?_
          cases r <;> exact Keeps.pure _
      | _ => exact hsome _

end Interface

end LuaHost
