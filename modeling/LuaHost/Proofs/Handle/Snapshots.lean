import LuaHost.Proofs.Handle.Agreeing
import LuaHost.Proofs.Interface.Assembling
import LuaHost.Proofs.Interface.Viewing

/-!
# Table handles and snapshots

What a handle of a table reads and writes in the machine is what the host reads and writes in a copy
of the table.  Where a stack has room for the copy, it has room for what is read.
-/

namespace LuaHost

open Interface Machine World

section Tables

variable {es : List (RefId × Value)} {w w' : World} {t : ThreadId} {us vs : List Value} {n : Nat}
  {i : TableId}

/-!
# On top of a stack
-/

theorem World.Beside.returns_pop (us vs : List Value) (h : Beside t w (us ++ vs) w')
    (hample : w.Ample t n) :
    exists w'', Returns (pop t vs.length) w' () w'' ∧ Beside t w us w'' := by
  rcases h.rest_eq with ⟨T, l, log, hrest⟩
  have hlive : w'.liveThread t = true := by
    rw [hrest]
    exact (liveThread_setThread _ t t _).trans hample.live
  -- as if the values had been pushed last
  let before := w'.setThread t (w.thread t)
  have hthread : before.thread t = w.thread t := thread_setThread hlive _
  have hloaded : Loaded t before (us ++ vs) w' := by
    refine ⟨?_, hthread.symm ▸ h.raised⟩
    rw [setThread_setThread, setThread_thread]
  have hbased : (before.thread t).base ≤ (before.thread t).top := by
    rw [hthread]
    exact hample.based
  rcases returns_pop_loaded us vs ((liveThread_setThread w' t t _).trans hlive) hbased hloaded with
    ⟨w'', hpop, hpopped⟩
  refine ⟨w'', hpop, ⟨T, l, log, ?_⟩, hthread ▸ hpopped.raised⟩
  have hlast := hpopped.rest_eq
  rw [setThread_setThread] at hlast
  generalize w'.thread t = th at hrest
  subst hrest
  have hthreads := setThread_setThread (w.setRegistry T) t th (w''.thread t)
  rw [← hthreads]
  exact hlast

/-- Above more values there is less room. -/
theorem ample_loaded (hample : w.Ample t (vs.length + n)) (h : Loaded t w vs w') : w'.Ample t n := by
  have htop := h.raised.top_eq
  refine ⟨h.live hample.live, ?_, ?_⟩
  · rw [htop, h.raised.below.base_eq]
    exact Nat.le_trans hample.based (Nat.le_add_right _ _)
  · rw [htop, h.raised.limit_eq, Nat.add_assoc]
    exact hample.fits

theorem returns_pushKey_loaded (k : Key) (hample : w.Ample t 1) :
    exists w', Returns (TableRef.pushKey t k) w () w' ∧ Loaded t w [k.toMachine] w' := by
  rcases (needs_pushNew hample.live k.toMachine).returns hample.fits with ⟨_, w', hrun, hloaded⟩
  refine ⟨w', ?_, hloaded⟩
  cases k <;> exact hrun

/-- Where there is room for a host value, what is made of it is pushed, and the new tables are there. -/
theorem returns_pushHost_making {v : Data.Value} {R : Store Table → Store Table → Value → Prop}
    (hmake : forall w : World, exists u s n, Returns (ofHost v) w u (w.withTables s n) ∧
      w.heap.tables.Extends s ∧ R w.heap.tables s u)
    (hlive : w.liveThread t = true) (hfits : (w.thread t).top + v.slots ≤ (w.thread t).limit) :
    exists u s n w', Returns (pushHost t v) w () w' ∧ Loaded t (w.withTables s n) [u] w' ∧
      w.heap.tables.Extends s ∧ R w.heap.tables s u := by
  have hslots := Assembling.slots_pos v
  rcases (needs_needRoom hlive hslots).returns hfits with ⟨_, w₁, hroom, hloaded⟩
  rcases hmake w₁ with ⟨u, s, n, hmade, hextends, hnew⟩
  rw [hloaded.heap_tables] at hextends hnew
  have hgrown := hloaded.withTables s n
  have hlimit : ((w₁.withTables s n).thread t).limit = (w.thread t).limit := hgrown.raised.limit_eq
  have htop : ((w₁.withTables s n).thread t).top = (w.thread t).top := hgrown.raised.top_eq
  have hone : ((w₁.withTables s n).thread t).top + 1 ≤ ((w₁.withTables s n).thread t).limit := by
    rw [htop, hlimit]
    exact Nat.le_trans (Nat.add_le_add_left hslots _) hfits
  rcases returns_push_loaded (hgrown.live hlive) u hone with ⟨w', hpush, hpushed⟩
  exact ⟨u, s, n, w', Returns.bind hroom (Returns.bind hmade hpush), hgrown.trans hpushed, hextends,
    hnew⟩

theorem returns_getTable_loaded {k : Value} (hample : w.Ample t n)
    (hplain : (w.heap.tables.get i.index).metatable = none) (h : Loaded t w [.table i, k] w') :
    exists kind w'', Returns (getTable t (-2)) w' kind w'' ∧
      Loaded t w [.table i, (w.heap.tables.get i.index).get k] w'' := by
  have htop : (w'.thread t).top = (w.thread t).top + 2 := h.raised.top_eq
  have htable := returns_value_below w' t (n := 2) (by decide)
  have hslot : (w'.thread t).slot (w.thread t).top = .table i := h.raised.slot_eq 0 _ rfl
  rw [htop, Nat.add_sub_cancel, hslot] at htable
  have hkey : (w'.thread t).slot ((w'.thread t).top - 1) = k := by
    rw [htop]
    exact h.raised.slot_eq 1 _ rfl
  have hindex : Returns (index t (.table i) k) w' ((w.heap.tables.get i.index).get k) w' := by
    rw [← h.heap_tables]
    exact returns_index_plain (by rw [h.heap_tables]; exact hplain) t k
  have hcheck : Returns (checkIndex t (-2)) w' () w' := by
    refine returns_checkIndex_below (n := 2) (by decide) ?_
    rw [htop, h.raised.below.base_eq]
    exact Nat.add_le_add_right hample.based 2
  let v := (w.heap.tables.get i.index).get k
  refine ⟨v.kind, w'.setThread t ((w'.thread t).setSlot ((w'.thread t).top - 1) v),
    Returns.bind hcheck (Returns.bind htable ?_), ?_⟩
  · refine Returns.bind (Returns.bind (returns_thread _ t) (Returns.pure _ _)) ?_
    refine Returns.bind (Returns.bind (returns_thread _ t) (Returns.pure _ _)) ?_
    rw [hkey]
    refine Returns.bind hindex ?_
    exact Returns.bind (returns_modifyThread w' t _) (Returns.pure _ _)
  · rw [h.setThread_eq]
    exact Loaded.ofRaised hample.live (h.raised.replaced [.table i] v)

theorem returns_toHost_loaded {v : Value} (hample : w.Ample t (us.length + 1 + w.heap.roomFor v))
    (h : Loaded t w (us ++ [v]) w') :
    exists w'', Returns (toHost t (-1)) w' (w.heap.formOf? v) w'' ∧ Beside t w (us ++ [v]) w'' := by
  have hbased := hample.based
  have htop : (w'.thread t).top = (w.thread t).top + us.length + 1 := by
    rw [h.raised.top_eq, List.length_append, List.length_singleton, Nat.add_assoc]
  have hvalue : w'.value? t (-1) = some v := by
    rw [((returns_value?_at w' t (-1)).unique (returns_value?_top htop)).1]
    exact congrArg some (h.raised.slot_eq us.length v (List.getElem?_concat_length ..))
  have hheap : w'.heap.formOf? v = w.heap.formOf? v ∧ w'.heap.roomFor v = w.heap.roomFor v := by
    unfold Heap.formOf? Heap.roomFor Heap.copyTable Heap.entriesOf
    rw [h.heap_tables]
    exact ⟨rfl, rfl⟩
  have hvalid : validIndex (w'.thread t).height (-1) = true := by
    unfold validIndex registryIndex Thread.height
    rw [htop, h.raised.below.base_eq]
    simp
    omega
  have hroom : w'.Ample t (w'.roomAt t (-1)) := by
    unfold World.roomAt
    rw [hvalue, Option.elim_some, hheap.2]
    exact ample_loaded (by rw [List.length_append]; exact hample) h
  rcases returns_toHost_at hroom hvalid with ⟨w'', hcopy, _, hbeside⟩
  unfold World.formAt at hcopy
  rw [hvalue, Option.bind_some, hheap.1] at hcopy
  refine ⟨w'', hcopy, ?_⟩
  have hboth := (Beside.ofLoaded w.log h).trans hbeside
  rw [List.append_nil] at hboth
  exact hboth

/-!
# Reading and writing through a handle
-/

namespace TableRef

variable {r : OwnedRef} {k : Key}

theorem returns_pushTable_loaded (h : Ledger es w) (hmem : (r.id, .table i) ∈ es)
    (hample : w.Ample r.thread 1) :
    exists w', Returns (pushTable r) w () w' ∧ Loaded r.thread w [.table i] w' := by
  rcases returns_pushRef_loaded h hmem hample with ⟨w', hpush, hloaded⟩
  exact ⟨w', Returns.bind hpush (Returns.pure () w'), hloaded⟩

/-- What a table has under a key is inside the table, so that there is room for its copy. -/
theorem roomFor_le (hrooted : w.heap.Rooted i) (k : Key) :
    2 + w.heap.roomFor ((w.heap.tables.get i.index).get k.toMachine) ≤
      1 + 2 * (w.heap.copyTable i).depth := by
  have hone : 1 ≤ (w.heap.copyTable i).depth := TableCopy.depth_le_fold _ {}
  generalize hv : (w.heap.tables.get i.index).get k.toMachine = v
  have hflat (n : Nat) (hn : n ≤ 1) : 2 + n ≤ 1 + 2 * (w.heap.copyTable i).depth := by omega
  cases v with
  | table j =>
      have hmem : (k.machineKey, .table j) ∈ w.heap.entriesOf i := Table.mem_entries.mpr ⟨hv, nofun⟩
      have hinside := Heap.depth_inside hrooted hmem k.isSome_keyForm?
      show 2 + (1 + 2 * (w.heap.copyTable j).depth) ≤ _
      omega
  | str _ | native _ | closure _ | userdata _ | thread _ => exact hflat 1 (Nat.le_refl 1)
  | _ => exact hflat 0 (Nat.zero_le 1)

theorem returns_get (h : Ledger es w) (hmem : (r.id, .table i) ∈ es)
    (hplain : (w.heap.tables.get i.index).metatable = none) (hrooted : w.heap.Rooted i)
    (hample : w.Ample r.thread (1 + 2 * (w.heap.copyTable i).depth)) (k : Key) :
    exists w', Returns (get r k) w
        (w.heap.formOf? ((w.heap.tables.get i.index).get k.toMachine)) w' ∧
      Beside r.thread w [] w' := by
  have hroom := hample.mono (roomFor_le hrooted k)
  have htwo : w.Ample r.thread 2 := hroom.mono (Nat.le_add_right 2 _)
  rcases returns_pushTable_loaded h hmem (htwo.mono (Nat.le_succ 1)) with ⟨w₁, htable, hloaded₁⟩
  rcases returns_pushKey_loaded k (ample_loaded htwo hloaded₁) with ⟨w₂, hkey, hloaded₂⟩
  rcases returns_getTable_loaded hroom hplain (hloaded₁.trans hloaded₂) with
    ⟨kind, w₃, hget, hloaded₃⟩
  have habove : Loaded r.thread w
      ([.table i] ++ [(w.heap.tables.get i.index).get k.toMachine]) w₃ := hloaded₃
  rcases returns_toHost_loaded hroom habove with ⟨w₄, hcopy, hbeside⟩
  rcases Beside.returns_pop [] _ hbeside hroom with ⟨w₅, hpop, hpopped⟩
  refine ⟨w₅, Returns.bind htable (Returns.bind hkey (Returns.bind hget ?_)), hpopped⟩
  exact Returns.bind hcopy (Returns.bind hpop (Returns.pure _ _))

/-- A key that is no `NaN` can be written under. -/
theorem indexes_toMachine (hk : k.isNaN = false) : Indexes k.toMachine := by
  cases k with
  | float x =>
      refine ⟨nofun, fun y hy => ?_⟩
      cases hy
      exact hk
  | _ => exact ⟨nofun, nofun⟩

theorem returns_set {x x' : Data.Value} (h : Ledger es w) (hmem : (r.id, .table i) ∈ es)
    (hplain : (w.heap.tables.get i.index).metatable = none) (hi : i.index < w.heap.tables.next)
    (hk : k.isNaN = false) (hmake : Makes x (ofHost x'))
    (hample : w.Ample r.thread (2 + x'.slots)) :
    exists u s n w', Returns (set r k x') w () w' ∧
      Loaded r.thread (Assembling.write (w.withTables s n) i k.toMachine u) [] w' ∧
      w.heap.Assigned i k x u s w'.heap := by
  rcases returns_pushTable_loaded h hmem (hample.mono (by omega)) with ⟨w₁, htable, hloaded₁⟩
  have hroom₁ : w₁.Ample r.thread (1 + x'.slots) :=
    ample_loaded (hample.mono (by rw [List.length_singleton]; omega)) hloaded₁
  rcases returns_pushKey_loaded k (hroom₁.mono (Nat.le_add_right 1 _)) with ⟨w₂, hkey, hloaded₂⟩
  have hroom₂ : w₂.Ample r.thread x'.slots := ample_loaded hroom₁ hloaded₂
  rcases returns_pushHost_making
      (R := fun before after u => Enclosed after before.next after.next ∧
        Image after before.next after.next x u) hmake hroom₂.live hroom₂.fits with
    ⟨u, s, n, w₃, hhost, hloaded₃, hextends, henclosed, himage⟩
  rw [hloaded₂.heap_tables, hloaded₁.heap_tables] at hextends henclosed himage
  -- the tables that the host value brings are new, and leave the table that is written to as it is
  have hontop : Assembling.OnTop r.thread i w₁ := by
    have htop : (w₁.thread r.thread).top = (w.thread r.thread).top + 1 := hloaded₁.raised.top_eq
    have hbase := hloaded₁.raised.below.base_eq
    have hbased := hample.based
    have hfits := hroom₁.fits
    refine ⟨hroom₁.live, by omega, ?_, ?_, ?_, by omega⟩
    · rw [htop]
      exact hloaded₁.raised.slot_eq 0 _ rfl
    · rw [hloaded₁.heap_tables]
      exact hi
    · rw [hloaded₁.heap_tables]
      exact hplain
  have hgrown : Assembling.OnTop r.thread i (w₁.withTables s n) := by
    refine hontop.withTables ?_ n
    rw [hloaded₁.heap_tables]
    exact Assembling.kept_of_extends hextends hi
  rcases Assembling.returns_setTable_loaded hgrown ((hloaded₂.withTables s n).trans hloaded₃)
    (indexes_toMachine hk) with ⟨w₄, hset, hloaded₄⟩
  have hwritten := (Assembling.loaded_write (hloaded₁.withTables s n) i k.toMachine u).trans hloaded₄
  let written := Assembling.write (w.withTables s n) i k.toMachine u
  have hlive : written.liveThread r.thread = true := hample.live
  rcases returns_pop_loaded [] [.table i] hlive hample.based hwritten with ⟨w₅, hpop, hpopped⟩
  refine ⟨u, s, n, w₅, ?_, hpopped, hextends, henclosed, himage, hpopped.heap_tables⟩
  exact Returns.bind htable (Returns.bind hkey (Returns.bind hhost (Returns.bind hset hpop)))

/-- The registry keeps its slots when another table is written. -/
theorem kept_write {s : Store Table} (hregistry : i ≠ w.registry)
    (hextends : w.heap.tables.Extends s) (n : Nat) (k u : Value) :
    w.Kept (Assembling.write (w.withTables s n) i k u) := by
  have hne : i.index ≠ w.registry.index := fun heq => hregistry (congrArg TableId.mk heq)
  have hfind (hlive : w.registryLive = true) :
      s.find? w.registry.index = w.heap.tables.find? w.registry.index :=
    hextends.find?_eq _ (Store.lt_next_of_live hlive)
  refine spared_withTables n (fun hlive => ?_) fun hlive => ?_
  · show (s.modify i.index _).live w.registry.index = true
    rw [Store.live_modify]
    unfold Store.live
    rw [hfind hlive]
    exact hlive
  · show Untouched _ ((s.modify i.index _).get w.registry.index)
    rw [Store.get_modify_ne _ hne]
    unfold Store.get
    rw [hfind hlive]
    exact Untouched.refl

/-- A table that a handle stands for is held by the registry. -/
theorem ne_registry (h : Ledger es w) (hmem : (r.id, .table i) ∈ es) (hrooted : w.heap.Rooted i) :
    i ≠ w.registry := by
  rintro rfl
  have hheld := h.registered r.id _ hmem
  have hentry : (refKey r.id, .table w.registry) ∈ w.heap.entriesOf w.registry :=
    Table.mem_entries.mpr ⟨hheld, nofun⟩
  have hkey := hrooted _ _ .self hentry
  cases hkey

end TableRef

end Tables

/-!
# Handles in a run
-/

namespace Ownership

variable {s : State} {r : OwnedRef} {i : TableId} {k : Key} {x x' : Data.Value}

/-- A host value that comes back from the machine as it was. -/
def Restorable (x : Data.Value) : Prop :=
  forall T, x = .table T -> T.Built ∧ T.Every Data.Table.NoPositiveIntegralKey

theorem makes_restorable (hx : Restorable x) (hlisting : Data.Shuffled x x') : Makes x (ofHost x') := by
  cases hlisting with
  | scalar hscalar => exact makes_scalar hscalar
  | @table T T' h₁ h₂ h₃ h₄ =>
      rcases hx T rfl with ⟨hbuilt, hkeys⟩
      exact makes_shuffled ((Data.Table.built_wellFormed hbuilt).and hkeys)
        (Data.Shuffled.table h₁ h₂ h₃ h₄)

/-- A handle of a table, and a snapshot that is made through it.  Under every key the handle gives
what the snapshot has there, if `nil` and what has no form on the host's side are absent.  After a
write through the handle, a new snapshot is the old one with the same write. -/
theorem run_viewed {libraries : Bool} {E : Engine} {w₀ : World}
    (hopen : openMachine libraries E freshWorld = .ok () w₀) (hrun : Run { world := w₀ } s)
    (hphase : s.phase ≠ .closed) (hheld : ⟨.typed .table r, .table i⟩ ∈ s.held)
    (hview : s.world.heap.Viewable i)
    (hplain : (s.world.heap.tables.get i.index).metatable = none)
    (hample : s.world.Ample r.thread (1 + 2 * (s.world.heap.copyTable i).depth)) :
    exists T w₁, Returns (TableRef.copyToHost r) s.world T w₁ ∧
      (forall k : Key, k.NotPosition ->
        exists form w', Returns (TableRef.get r k) s.world form w' ∧
          form.bind Data.Value.present? = T.get k) ∧
      (forall (k : Key) (x x' : Data.Value), k.NotPosition -> k.isNaN = false -> Restorable x ->
        Data.Shuffled x x' -> s.world.Ample r.thread (2 + x'.slots) ->
        s.world.Ample r.thread (1 + 2 * (x.slots + 1)) ->
        exists w' w'', Returns (TableRef.set r k x') s.world () w' ∧
          Returns (TableRef.copyToHost r) w' (T.set k x) w'') := by
  have hsound := sound_run (sound_opened hopen) hrun
  have hledger := hsound.ledger hphase
  rcases hsound.typed hheld rfl with ⟨hentries, hnil, _⟩
  have hid : r.id ≠ nilRef := fun hid => nomatch hnil hid
  have hmem : (r.id, .table i) ∈ s.entries := by
    rw [entry_of_ne hid] at hentries
    exact hentries (List.mem_singleton_self _)
  have hvia : r.Via r.thread := ⟨rfl, hid, (hsound.suits _ hheld).flagged r rfl⟩
  have hi := Store.lt_next_of_live hview.live
  rcases TableRef.returns_copyToHost hledger hample hvia hmem with ⟨w₁, hcopy, _⟩
  refine ⟨_, w₁, hcopy, fun k hk => ?_, fun k x x' hk hnumber hx hlisting hpush hdeep => ?_⟩
  · rcases TableRef.returns_get hledger hmem hplain hview.rooted hample k with ⟨w', hget, _⟩
    exact ⟨_, w', hget, (Heap.get_copyTable hview.rooted hview.toPlain hk).symm⟩
  · rcases TableRef.returns_set hledger hmem hplain hi hnumber (makes_restorable hx hlisting) hpush with
      ⟨u, S, n, w', hset, hloaded, hassigned⟩
    have hregistry := TableRef.ne_registry hledger hmem hview.rooted
    have hkept := (TableRef.kept_write hregistry hassigned.grown n k.toMachine u).trans
      (hloaded.kept _)
    have hfits := hample.fits
    have hfits' := hdeep.fits
    have hdepth := hassigned.depth_le hview
    -- the copy may be one host value deeper now; the stack has room for that, too
    have hroom : w'.Ample r.thread (1 + 2 * (w'.heap.copyTable i).depth) := by
      refine ample_loaded (w := Assembling.write (s.world.withTables S n) i k.toMachine u)
        ⟨hample.live, hample.based, ?_⟩ hloaded
      show (s.world.thread r.thread).top + (0 + (1 + 2 * (w'.heap.copyTable i).depth)) ≤
        (s.world.thread r.thread).limit
      omega
    rcases TableRef.returns_copyToHost (hledger.spared hkept.toSpared) hroom hvia hmem with
      ⟨w'', hcopy', _⟩
    rw [hassigned.copyTable_eq hview hk hnumber] at hcopy'
    exact ⟨w', w'', hset, hcopy'⟩

/-- A script leaves a value on the main stack, and a handle of its kind is created from it. -/
theorem run_typed {y : M Unit} {kind : RefKind} (hkeeps : Keeps World.Kept y)
    (hran : answer? y openedWorld = some ())
    (hmade : (answer? (OwnedValue.fromIndex ⟨0⟩ 1) (after y openedWorld)).bind
      (Detached.asKind? kind) = some r) :
    Run { world := openedWorld }
      { world := after (OwnedValue.fromIndex ⟨0⟩ 1) (after y openedWorld)
        held := [⟨.typed kind r, (after y openedWorld).valueAt ⟨0⟩ 1⟩] } := by
  rcases Option.bind_eq_some_iff.mp hmade with ⟨d, hd, hkind⟩
  have hkept : openedWorld.Kept (after y openedWorld) :=
    (ends_iff.mp (hkeeps.run idle openedWorld)).1 () _ (ok_after hran)
  generalize after y openedWorld = laid at *
  have hcreate : Step { world := laid }
      { world := after (OwnedValue.fromIndex ⟨0⟩ 1) laid,
        held := [⟨.ownedValue d, laid.valueAt ⟨0⟩ 1⟩] } :=
    .create (c := .ownedValueIndex 1) nofun rfl (show 0 < maxHandles by decide)
      (bind_of_ok (ok_after hd) _)
  generalize after (OwnedValue.fromIndex ⟨0⟩ 1) laid = w at *
  let h : Holding := ⟨.ownedValue d, laid.valueAt ⟨0⟩ 1⟩
  have htake : Returns (OwnedValue.takeKind kind d) w (some r) w := by
    unfold OwnedValue.takeKind
    rw [hkind]
    exact Returns.pure _ _
  have hasked : Returns (Session.Turn.run (.asKind kind) h.handle) w (some (.typed kind r)) w :=
    Returns.bind htake (Returns.pure _ _)
  have hturn : Step { world := w, held := [h] }
      { world := w, held := [⟨.typed kind r, h.origin⟩] } :=
    @Step.turn { world := w, held := [h] } [] [] h _ idle _ _ nofun rfl (hasked idle)
  exact ((Relation.ReflTransGen.single (.script nofun hkept)).tail hcreate).tail hturn

/-- A table with a table inside it, and a script that leaves it on the main stack. -/
def pushShelved : M Unit := do
  let drawer ← newTable (({} : Table).set (.float Double.zero) (.int 5))
  let shelf ← newTable ((({} : Table).set (.int 1) (.table drawer)).set (.ofText "x") (.bool true))
  pushNew ⟨0⟩ (.table shelf)

@[irreducible] def laidWorld : World := after pushShelved openedWorld

/-- A handle was created from it. -/
@[irreducible] def shelvedWorld : World := after (OwnedValue.fromIndex ⟨0⟩ 1) laidWorld

theorem answered_shelved :
    answer? pushShelved openedWorld = some () ∧ laidWorld.valueAt ⟨0⟩ 1 = .table ⟨3⟩ ∧
      (answer? (OwnedValue.fromIndex ⟨0⟩ 1) laidWorld).bind (Detached.asKind? .table) =
        some ⟨⟨0⟩, 4, true⟩ := by
  decide +kernel

theorem shelvedWorld_eq :
    shelvedWorld.heap.entriesOf ⟨3⟩ = [(.int 1, .table ⟨2⟩), (.ofText "x", .bool true)] ∧
      shelvedWorld.heap.entriesOf ⟨2⟩ = [(.int 0, .int 5)] ∧
      shelvedWorld.heap.tables.live 3 = true ∧ shelvedWorld.heap.tables.live 2 = true ∧
      (shelvedWorld.heap.tables.get 3).metatable = none ∧
      shelvedWorld.liveThread ⟨0⟩ = true ∧
      (shelvedWorld.thread ⟨0⟩).base ≤ (shelvedWorld.thread ⟨0⟩).top ∧
      (shelvedWorld.thread ⟨0⟩).top + 5 ≤ (shelvedWorld.thread ⟨0⟩).limit ∧
      (shelvedWorld.heap.copyTable ⟨3⟩).depth = 2 := by
  decide +kernel

theorem run_shelved :
    Run { world := openedWorld }
      { world := shelvedWorld, held := [⟨.typed .table ⟨⟨0⟩, 4, true⟩, .table ⟨3⟩⟩] } := by
  rcases answered_shelved with ⟨hlaid, hvalue, hmade⟩
  have hkeeps : Keeps World.Kept pushShelved :=
    (keeps_newTable _).bind fun _ => (keeps_newTable _).bind fun i => keeps_pushNew ⟨0⟩ (.table i)
  unfold laidWorld at hvalue hmade
  have hrun := run_typed hkeeps hlaid hmade
  rw [hvalue] at hrun
  unfold shelvedWorld laidWorld
  exact hrun

theorem viewable_shelved : shelvedWorld.heap.Viewable ⟨3⟩ := by
  rcases shelvedWorld_eq with ⟨hshelf, hdrawer, hlive, hlive', _⟩
  have hcopied {j : TableId} (hj : TakesIn shelvedWorld.heap.entriesOf ⟨3⟩ j) :
      j = ⟨3⟩ ∨ j = ⟨2⟩ := by
    induction hj with
    | self => exact .inl rfl
    | entry _ hmem _ ih =>
        rcases ih with rfl | rfl
        · rw [hshelf] at hmem
          simp at hmem
          exact .inr hmem.2
        · rw [hdrawer] at hmem
          simp at hmem
  refine { keys := ?_, number := ?_, live := hlive, known := ?_, rooted := ?_ }
  · intro e he
    rw [hshelf] at he
    simp only [List.mem_cons, List.not_mem_nil, or_false] at he
    rcases he with rfl | rfl
    · exact ⟨rfl, nofun, fun i hi => by cases hi; decide⟩
    · exact ⟨rfl, fun b hb => by cases hb; exact ⟨"x", Bytes.fromUTF8?_toUTF8 "x"⟩, nofun⟩
  · intro f v he
    rw [hshelf] at he
    simp [Value.ofText] at he
  · intro j hj
    rcases hcopied hj with rfl | rfl
    · exact Store.lt_next_of_live hlive
    · exact Store.lt_next_of_live hlive'
  · intro j k hj hmem
    rcases hcopied hj with rfl | rfl
    · rw [hshelf] at hmem
      simp at hmem
    · rw [hdrawer] at hmem
      simp at hmem

/-- The drawer is read, and taken out. -/
theorem run_viewed_shelved :
    exists T form w₁ w₂ w₃ w₄,
      Returns (TableRef.copyToHost ⟨⟨0⟩, 4, true⟩) shelvedWorld T w₁ ∧
      Returns (TableRef.get ⟨⟨0⟩, 4, true⟩ (.integer 1)) shelvedWorld form w₂ ∧
      form.bind Data.Value.present? = T.get (.integer 1) ∧
      Returns (TableRef.set ⟨⟨0⟩, 4, true⟩ (.integer 1) .nil) shelvedWorld () w₃ ∧
      Returns (TableRef.copyToHost ⟨⟨0⟩, 4, true⟩) w₃ (T.set (.integer 1) .nil) w₄ := by
  rcases shelvedWorld_eq with ⟨_, _, _, _, hplain, hlive, hbased, hfits, hdepth⟩
  have hample : shelvedWorld.Ample ⟨0⟩ 5 := ⟨hlive, hbased, hfits⟩
  rcases run_viewed ok_openedWorld run_shelved nofun (List.mem_singleton_self _) viewable_shelved
    hplain (by rw [hdepth]; exact hample) with ⟨T, w₁, hcopy, hget, hset⟩
  have hkey : (Key.integer 1).NotPosition := by
    intro x j h
    cases h
  have hscalar : forall T, Data.Value.nil ≠ .table T := by
    intro T h
    cases h
  rcases hget (.integer 1) hkey with ⟨form, w₂, hread, hform⟩
  rcases hset (.integer 1) .nil .nil hkey rfl (fun T h => absurd h (hscalar T)) (.scalar hscalar)
    (hample.mono (by decide)) (hample.mono (by decide)) with ⟨w₃, w₄, hwrite, hcopied⟩
  exact ⟨T, form, w₁, w₂, w₃, w₄, hcopy, hread, hform, hwrite, hcopied⟩

end Ownership

end LuaHost
