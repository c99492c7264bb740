import LuaHost.Proofs.Interface.Meeting
import LuaHost.Proofs.Interface.Rebuilding

/-!
# Tables that merge entries

A host table that is pushed becomes a new table of the machine, with one entry
for all host entries whose keys meet.  It holds the value that was written
last, at every level.  When no double meets an integer key of a map, all orders
of the maps lead to the same contents.
-/

namespace LuaHost

namespace Data

theorem Shuffled.ne_nil {v v' : Value} (h : Shuffled v v') (hv : v ≠ .nil) : v' ≠ .nil := by
  cases h with
  | scalar _ => exact hv
  | table _ _ _ _ => exact nofun

theorem shuffled_of_perm {t : Table} (ht : Table.Every Table.WellFormed t)
    {m : List (TableKey × Value)} (hperm : m.Perm t.map) :
    Shuffled (.table t) (.table (.mk t.array m)) := by
  cases Shuffled.refl_table ht with
  | scalar hscalar => exact absurd rfl (hscalar _)
  | table _ harray _ hmap =>
      refine .table rfl harray (hperm.map Prod.fst) ?_
      intro k v v' hv hv'
      exact hmap k v v' hv (hperm.mem_iff.mp hv')

end Data

/-!
# What a pushed value shows
-/

open Data.Table (lastWrite)

/-- `x` shows a listing of a host value: it is the machine's form of a scalar, or a
table numbered from `lo` up to `hi` with an entry for each key that is written,
whose value shows the last write to the key. -/
inductive Shows (s : Store Table) (lo hi : Nat) : Data.Value → Value → Prop where
  | scalar {v : Data.Value} : (forall t, v ≠ .table t) → Shows s lo hi v (machineScalar v)
  | table {t : Data.Table} {i : TableId} : lo ≤ i.index → i.index < hi →
      (forall y, lastWrite t.writes y = none -> (s.get i.index).find y = .nil) →
      (forall y e, lastWrite t.writes y = some e ->
        Shows s lo hi e.2 ((s.get i.index).find y)) → Shows s lo hi (.table t) (.table i)

theorem Shows.widen {s s' : Store Table} {lo lo' hi hi' : Nat} {v : Data.Value} {x : Value}
    (h : Shows s lo hi v x) (hlo : lo' ≤ lo) (hhi : hi ≤ hi')
    (hsame : forall j, lo ≤ j -> j < hi -> s'.find? j = s.find? j) : Shows s' lo' hi' v x := by
  induction h with
  | scalar hscalar => exact .scalar hscalar
  | @table t i hi₁ hi₂ hnone _ ih =>
      have hget : s'.get i.index = s.get i.index := by
        unfold Store.get
        rw [hsame i.index hi₁ hi₂]
      refine .table (by omega) (by omega) ?_ ?_
      · intro y hy
        rw [hget]
        exact hnone y hy
      · intro y e hy
        rw [hget]
        exact ih y e hy

theorem machineScalar_ne_table (v : Data.Value) (i : TableId) : machineScalar v ≠ .table i := by
  cases v with
  | number n => cases n <;> exact nofun
  | _ => exact nofun

theorem Shows.eq_scalar {s : Store Table} {lo hi : Nat} {v : Data.Value} {x : Value}
    (h : Shows s lo hi v x) (hv : forall t, v ≠ .table t) : x = machineScalar v := by
  cases h with
  | scalar _ => rfl
  | table _ _ _ _ => exact absurd rfl (hv _)

theorem Shows.ne_nil {s : Store Table} {lo hi : Nat} {v : Data.Value} {x : Value}
    (h : Shows s lo hi v x) (hv : v ≠ .nil) : x ≠ .nil := by
  cases h with
  | scalar hscalar =>
      cases v with
      | nil => exact absurd rfl hv
      | table t => exact absurd rfl (hscalar t)
      | number n => cases n <;> exact nofun
      | _ => exact nofun
  | table _ _ _ _ => exact nofun

/-- A table that is being filled shows the writes so far. -/
structure Written (es : List (TableKey × Data.Value)) (i : TableId) (s : Store Table) : Prop where
  live : s.live i.index = true
  behind : i.index + 1 ≤ s.next
  absent : forall y, lastWrite es y = none -> (s.get i.index).find y = .nil
  shown : forall y e, lastWrite es y = some e ->
    Shows s (i.index + 1) s.next e.2 ((s.get i.index).find y)

namespace Machine

/-- A host value is made of new tables, and what is made shows it. -/
def Produces (v : Data.Value) : Prop :=
  forall w : World, exists x s allocated,
    Returns (ofHost v) w x (w.withTables s allocated) ∧ w.heap.tables.Extends s ∧
      Shows s w.heap.tables.next s.next v x

theorem produces_scalar {v : Data.Value} (h : forall t, v ≠ .table t) : Produces v := by
  have hrun : forall w, Returns (ofHost v) w (machineScalar v) w := by
    intro w
    cases v with
    | table t => exact absurd rfl (h t)
    | number n => cases n <;> rw [ofHost] <;> exact Returns.pure _ w
    | _ => rw [ofHost]; exact Returns.pure _ w
  exact fun w => ⟨_, w.heap.tables, w.collector.allocated, hrun w, Store.Extends.refl _, .scalar h⟩

section Fill

variable {i : TableId} {es : List (TableKey × Data.Value)} {w : World}

theorem written_write (h : Written es i w.heap.tables) (k : TableKey) {v : Data.Value}
    (hv : Produces v) :
    exists s allocated,
      Returns (ofHost v >>= fun x => modifyTable i (·.put k.machineKey x)) w ()
        (w.withTables s allocated) ∧
      Written (es ++ [(k, v)]) i s ∧ (forall j, j < i.index -> s.find? j = w.heap.tables.find? j) := by
  rcases hv w with ⟨x, s, allocated, hrun, hextends, hshows⟩
  have hbehind := h.behind
  have hnext := hextends.next_le
  have hold : s.find? i.index = w.heap.tables.find? i.index := hextends.find?_eq _ (by omega)
  have hlive : s.live i.index = true := by
    unfold Store.live
    rw [hold]
    exact h.live
  have hget : s.get i.index = w.heap.tables.get i.index := by
    unfold Store.get
    rw [hold]
  have hother : forall j, i.index + 1 ≤ j ->
      (s.modify i.index (·.put k.machineKey x)).find? j = s.find? j := by
    intro j hj
    rw [Store.find?_modify, if_neg (by omega)]
  have hfind : forall y, ((s.modify i.index (·.put k.machineKey x)).get i.index).find y =
      if k.machineKey = y then x else (w.heap.tables.get i.index).find y := by
    intro y
    rw [Store.get_modify_self hlive, Table.find_put, hget]
  -- the value is made of tables behind all there are, and the write itself changes only `i`
  refine ⟨s.modify i.index (·.put k.machineKey x), allocated,
    Returns.bind hrun (returns_modifyTable _ i _), ⟨?_, ?_, ?_, ?_⟩, ?_⟩
  · rw [Store.live_modify]
    exact hlive
  · rw [Store.next_modify]
    omega
  · intro y hy
    rw [Data.Table.lastWrite_append] at hy
    rw [hfind]
    by_cases hk : k.machineKey = y
    · rw [if_pos hk] at hy
      cases hy
    · rw [if_neg hk] at hy ⊢
      exact h.absent y hy
  · intro y e hy
    rw [Data.Table.lastWrite_append] at hy
    rw [hfind, Store.next_modify]
    by_cases hk : k.machineKey = y
    · rw [if_pos hk] at hy ⊢
      cases hy
      exact hshows.widen hbehind (Nat.le_refl _) fun j hj _ => hother j (by omega)
    · rw [if_neg hk] at hy ⊢
      refine (h.shown y e hy).widen (Nat.le_refl _) hnext fun j hj hj' => ?_
      exact (hother j hj).trans (hextends.find?_eq j hj')
  · intro j hj
    rw [Store.find?_modify, if_neg (by omega)]
    exact hextends.find?_eq j (by omega)

theorem written_fillValues (vs : List Data.Value) (p : Nat) (h : Written es i w.heap.tables)
    (hvs : forall v, v ∈ vs -> Produces v) :
    exists s allocated,
      Returns (fillValues i p vs) w () (w.withTables s allocated) ∧
      Written (es ++ (vs.zipIdx p).map fun e => (Data.Table.positionKey e.2, e.1)) i s ∧
      (forall j, j < i.index -> s.find? j = w.heap.tables.find? j) := by
  induction vs generalizing p es w with
  | nil =>
      refine ⟨w.heap.tables, w.collector.allocated, ?_, ?_, fun _ _ => rfl⟩
      · rw [fillValues]
        exact Returns.pure _ w
      · rwa [List.zipIdx_nil, List.map_nil, List.append_nil]
  | cons v vs ih =>
      rcases written_write h (Data.Table.positionKey p) (hvs v (List.mem_cons_self ..)) with
        ⟨s, allocated, hrun, hwritten, hbelow⟩
      rcases ih (w := w.withTables s allocated) (p + 1) hwritten
        (fun u hu => hvs u (List.mem_cons_of_mem v hu)) with
        ⟨s', allocated', hrun', hwritten', hbelow'⟩
      refine ⟨s', allocated', ?_, ?_, fun j hj => (hbelow' j hj).trans (hbelow j hj)⟩
      · rw [fillValues, ← bind_assoc]
        exact Returns.bind hrun hrun'
      · rw [List.zipIdx_cons, List.map_cons]
        rwa [List.append_assoc, List.singleton_append] at hwritten'

theorem written_fillEntries (m : List (TableKey × Data.Value)) (h : Written es i w.heap.tables)
    (hm : forall k v, (k, v) ∈ m -> Produces v) :
    exists s allocated,
      Returns (fillEntries i m) w () (w.withTables s allocated) ∧ Written (es ++ m) i s ∧
      (forall j, j < i.index -> s.find? j = w.heap.tables.find? j) := by
  induction m generalizing es w with
  | nil =>
      refine ⟨w.heap.tables, w.collector.allocated, ?_, ?_, fun _ _ => rfl⟩
      · rw [fillEntries]
        exact Returns.pure _ w
      · rwa [List.append_nil]
  | cons e m ih =>
      rcases e with ⟨k, v⟩
      rcases written_write h k (hm k v (List.mem_cons_self ..)) with
        ⟨s, allocated, hrun, hwritten, hbelow⟩
      rcases ih (w := w.withTables s allocated) hwritten
        (fun k' v' he => hm k' v' (List.mem_cons_of_mem _ he)) with
        ⟨s', allocated', hrun', hwritten', hbelow'⟩
      refine ⟨s', allocated', ?_, ?_, fun j hj => (hbelow' j hj).trans (hbelow j hj)⟩
      · rw [fillEntries, fillEntry]
        exact Returns.bind hrun hrun'
      · rwa [List.append_assoc, List.singleton_append] at hwritten'

theorem written_new (s : Store Table) (narr nrec : Nat) :
    Written [] ⟨s.next⟩ (s.push (Table.withRoom narr nrec)) := by
  have hfind : (s.push (Table.withRoom narr nrec)).find? s.next =
      some (Table.withRoom narr nrec) := by
    rw [Store.find?_push, if_pos rfl]
  have hnext : (s.push (Table.withRoom narr nrec)).next = s.next + 1 := Array.size_push _
  refine ⟨Store.live_of_find? hfind, Nat.le_of_eq hnext.symm, fun y _ => ?_, nofun⟩
  rw [Store.get_of_find? hfind, Table.find_withRoom]

end Fill

/-- A table shows its writes once all its values are made. -/
theorem produces_table {a : Array Data.Value} {m : List (TableKey × Data.Value)}
    (ha : forall v, v ∈ a.toList -> Produces v) (hm : forall k v, (k, v) ∈ m -> Produces v) :
    Produces (.table (.mk a m)) := by
  intro w
  rcases written_fillValues a.toList 1 (w := w.withTables _ (w.collector.allocated + 1))
    (written_new w.heap.tables a.size m.length) ha with ⟨s, allocated, hrun, hwritten, hbelow⟩
  rcases written_fillEntries m (w := w.withTables s allocated) hwritten hm with
    ⟨s', allocated', hrun', hwritten', hbelow'⟩
  have hbehind : w.heap.tables.next + 1 ≤ s'.next := hwritten'.behind
  refine ⟨.table ⟨w.heap.tables.next⟩, s', allocated', ?_, ⟨by omega, ?_⟩, ?_⟩
  · rw [ofHost, ofHostTable]
    refine Returns.bind (Returns.bind (returns_newTable w _) ?_) (Returns.pure _ _)
    rw [fillArray]
    exact Returns.bind hrun (Returns.bind hrun' (Returns.pure _ _))
  · intro j hj
    rw [hbelow' j hj]
    show s.find? j = _
    rw [hbelow j hj]
    show (w.heap.tables.push _).find? j = _
    rw [Store.find?_push, if_neg (by omega)]
  · rw [List.nil_append] at hwritten'
    refine .table (Nat.le_refl _) hbehind hwritten'.absent fun y e hy => ?_
    exact (hwritten'.shown y e hy).widen (Nat.le_succ _) (Nat.le_refl _) fun _ _ _ => rfl

mutual

theorem produces_ofHost (v : Data.Value) : Produces v := by
  cases v with
  | table t =>
      cases t with
      | mk a m =>
          cases a with
          | mk vs => exact produces_table (produces_values vs) (produces_entries m)
  | _ => exact produces_scalar nofun

theorem produces_values (vs : List Data.Value) : forall v, v ∈ vs -> Produces v := by
  cases vs with
  | nil => exact nofun
  | cons u vs =>
      intro v hv
      rcases List.mem_cons.mp hv with heq | hv
      · rw [heq]
        exact produces_ofHost u
      · exact produces_values vs v hv

theorem produces_entries (m : List (TableKey × Data.Value)) :
    forall k v, (k, v) ∈ m -> Produces v := by
  cases m with
  | nil => exact nofun
  | cons e m =>
      cases e with
      | mk k' u =>
          intro k v hmem
          rcases List.mem_cons.mp hmem with heq | hmem
          · cases heq
            exact produces_ofHost u
          · exact produces_entries m k v hmem

end

end Machine

/-!
# Orders
-/

/-- Two values of two stores with the same contents: one scalar, or tables that hold
values with the same contents under each key. -/
inductive SameEntries (s s' : Store Table) : Value → Value → Prop where
  | scalar {x : Value} : (forall i, x ≠ .table i) → SameEntries s s' x x
  | table {i i' : TableId} :
      (forall y, SameEntries s s' ((s.get i.index).find y) ((s'.get i'.index).find y)) →
      SameEntries s s' (.table i) (.table i')

/-- Where no double meets a key of a map part, at any level, tables that show two
listings of a host table have the same contents. -/
theorem sameEntries_listings {s s' : Store Table} {lo lo' hi hi' : Nat} {t t' t'' : Data.Table}
    {x x' : Value} (ht : t.Every fun u => u.WellFormed ∧ u.Apart)
    (h' : Data.Shuffled (.table t) (.table t')) (h'' : Data.Shuffled (.table t) (.table t''))
    (hx : Shows s lo hi (.table t') x) (hx' : Shows s' lo' hi' (.table t'') x') :
    SameEntries s s' x x' := by
  -- on the tables inside one another, each with its own two listings
  induction ht generalizing t' t'' x x' with
  | @intro t hP harray hmap iharray ihmap =>
      cases hx with
      | scalar hscalar => exact absurd rfl (hscalar _)
      | @table _ i _ _ hnone hsome =>
          cases hx' with
          | scalar hscalar => exact absurd rfl (hscalar _)
          | @table _ i' _ _ hnone' hsome' =>
              refine .table fun y => ?_
              -- both listings write the key last from one entry, or neither writes it
              rcases Data.Table.lastWrite_listings hP.1 hP.2 h' h'' y with
                ⟨hlast, hlast'⟩ | ⟨k, v, v', v'', hlast, hlast', hk, hv', hv''⟩
              · rw [hnone y hlast, hnone' y hlast']
                exact .scalar nofun
              · have hshows := hsome y _ hlast
                have hshows' := hsome' y _ hlast'
                cases hv' with
                | scalar hscalar =>
                    cases hv'' with
                    | table _ _ _ _ => exact absurd rfl (hscalar _)
                    | scalar _ =>
                        rw [hshows.eq_scalar hscalar, hshows'.eq_scalar hscalar]
                        exact .scalar (machineScalar_ne_table v)
                | @table u u' h₁ h₂ h₃ h₄ =>
                    cases hv'' with
                    | scalar hscalar => exact absurd rfl (hscalar _)
                    | @table _ u'' g₁ g₂ g₃ g₄ =>
                        rcases Data.Table.mem_of_lookup hk with hmem | hmem
                        · exact iharray u hmem (.table h₁ h₂ h₃ h₄) (.table g₁ g₂ g₃ g₄) hshows
                            hshows'
                        · exact ihmap k u hmem (.table h₁ h₂ h₃ h₄) (.table g₁ g₂ g₃ g₄) hshows
                            hshows'

/-!
# Pushing
-/

namespace Interface

open Machine

/-- What pushing a listing `T'` of a host table `T` leaves: a new table on top, with
one entry for all keys of `T` that meet.  The entry of a key that prevails holds
that key's value. -/
structure Merges (w : World) (t : ThreadId) (T T' : Data.Table) (i : TableId) (w' : World) :
    Prop where
  pushed : (w'.thread t).values = (w.thread t).values ++ [.table i]
  older : w.heap.tables.Extends w'.heap.tables
  shows : Shows w'.heap.tables w.heap.tables.next w'.heap.tables.next (.table T') (.table i)
  keys : forall y, (exists x, (y, x) ∈ w'.heap.entriesOf i) ↔
    exists k v, T.lookup k = some v ∧ k.machineKey = y
  count : (w'.heap.entriesOf i).length + T.merged = T.narr + T.nrec
  prevails : forall k v, T.lookup k = some v -> T.Prevails k ->
    exists v' x, Data.Shuffled v v' ∧ (k.machineKey, x) ∈ w'.heap.entriesOf i ∧
      Shows w'.heap.tables w.heap.tables.next w'.heap.tables.next v' x

theorem merges_of_shows {w w' : World} {t : ThreadId} {T T' : Data.Table} {i : TableId}
    (ht : T.WellFormed) (hlisting : Data.Shuffled (.table T) (.table T'))
    (hpushed : (w'.thread t).values = (w.thread t).values ++ [.table i])
    (holder : w.heap.tables.Extends w'.heap.tables)
    (hshows : Shows w'.heap.tables w.heap.tables.next w'.heap.tables.next (.table T') (.table i)) :
    Merges w t T T' i w' := by
  have hself := hshows
  cases hself with
  | @table _ _ _ _ hnone hsome =>
      have hpresent : forall {k v}, T.lookup k = some v ->
          (w'.heap.tables.get i.index).find k.machineKey ≠ .nil := by
        intro k v hk
        rcases Data.Table.write_of_lookup ht hlisting hk with ⟨v', hmem, _⟩
        cases hlast : lastWrite T'.writes k.machineKey with
        | none => exact absurd rfl (Data.Table.lastWrite_eq_none.mp hlast (k, v') hmem)
        | some e =>
            rcases Data.Table.lookup_of_write ht hlisting (Data.Table.mem_of_lastWrite hlast)
              with ⟨u, hu, hlisted⟩
            exact (hsome _ e hlast).ne_nil (hlisted.ne_nil (Data.Table.lookup_ne_nil ht hu))
      -- the keys that the table has are the forms of the keys that are written
      have hfind : forall y, (w'.heap.tables.get i.index).find y ≠ .nil ↔
          exists k v, T.lookup k = some v ∧ k.machineKey = y := by
        intro y
        constructor
        · intro hy
          cases hlast : lastWrite T'.writes y with
          | none => exact absurd (hnone y hlast) hy
          | some e =>
              rcases Data.Table.lookup_of_write ht hlisting (Data.Table.mem_of_lastWrite hlast)
                with ⟨v, hk, _⟩
              exact ⟨e.1, v, hk, (Data.Table.lastWrite_eq_some hlast).1⟩
        · rintro ⟨k, v, hk, rfl⟩
          exact hpresent hk
      refine ⟨hpushed, holder, hshows, fun y => ?_, Data.Table.length_entries ht hfind, ?_⟩
      · rw [← hfind]
        constructor
        · rintro ⟨x, hx⟩
          rcases Table.mem_entries.mp hx with ⟨rfl, hne⟩
          exact hne
        · exact fun hy => ⟨_, Table.mem_entries.mpr ⟨rfl, hy⟩⟩
      · intro k v hk hprevails
        rcases Data.Table.lastWrite_of_prevails ht hlisting hk hprevails with ⟨v', hlast, hv'⟩
        exact ⟨v', _, hv', Table.mem_entries.mpr ⟨rfl, hpresent hk⟩, hsome _ _ hlast⟩

theorem returns_pushHost_produced {w : World} {t : ThreadId} (hlive : w.liveThread t = true)
    {v : Data.Value} (hroom : (w.thread t).Room (v.slots + 1)) :
    exists x w', Returns (pushHost t v) w () w' ∧ (w.thread t).Pushed x (w'.thread t) ∧
      w.heap.tables.Extends w'.heap.tables ∧
      Shows w'.heap.tables w.heap.tables.next w'.heap.tables.next v x := by
  rcases returns_pushHost_made hlive hroom (R := fun before after x =>
      before.Extends after ∧ Shows after before.next after.next v x) (produces_ofHost v) with
    ⟨x, w', hrun, hpushed, _, hextends, hshows⟩
  exact ⟨x, w', hrun, hpushed, hextends, hshows⟩

/-- A listing of a host table that was built is pushed where there is room, and
merges the entries whose keys meet.  Any two listings leave the same contents, if
no double meets a key of a map part at any level. -/
theorem pushHost_merges {T : Data.Table} (ht : T.Built) {w : World} {t : ThreadId}
    (hlive : w.liveThread t = true) (hbase : (w.thread t).base ≤ (w.thread t).top) :
    (forall T', Data.Shuffled (.table T) (.table T') -> (w.thread t).Room (T'.slots + 1) ->
      exists i w', Returns (pushHost t (.table T')) w () w' ∧ Merges w t T T' i w') ∧
    (T.Every Data.Table.Apart ->
      forall T' T'', Data.Shuffled (.table T) (.table T') -> Data.Shuffled (.table T) (.table T'') ->
      forall i i' w' w'', Merges w t T T' i w' -> Merges w t T T'' i' w'' ->
      SameEntries w'.heap.tables w''.heap.tables (.table i) (.table i')) := by
  have hbuilt := Data.Table.built_wellFormed ht
  constructor
  · intro T' hlisting hroom
    have hslots : (Data.Value.table T').slots = T'.slots := by rw [Data.Value.slots]
    rcases returns_pushHost_produced hlive (v := .table T') (by rw [hslots]; exact hroom) with
      ⟨x, w', hrun, hpushed, holder, hshows⟩
    cases hshows with
    | scalar hscalar => exact absurd rfl (hscalar _)
    | @table _ i hlo hhi hnone hsome =>
        exact ⟨i, w', hrun, merges_of_shows hbuilt.self hlisting (hpushed.values_eq hbase) holder
          (.table hlo hhi hnone hsome)⟩
  · intro hapart T' T'' h' h'' i i' w' w'' hmerges hmerges'
    exact sameEntries_listings (hbuilt.and hapart) h' h'' hmerges.shows hmerges'.shows

/-!
# An integer and the double that equals it
-/

/-- `{ "a", [1.0] = "b", [true] = {} }`. -/
def doubled : Data.Table :=
  ((Data.Table.empty.push (.string "a")).set (.float (.ofInt 1)) (.string "b")).set (.bool true)
    (.table .empty)

/-- `{ [3] = "a", [3.0] = "b" }`. -/
def detached : Data.Table :=
  (Data.Table.empty.set (.integer 3) (.string "a")).set (.float (.ofInt 3)) (.string "b")

/-- The same table, with the other order of its map. -/
def backwards (t : Data.Table) : Data.Table := .mk t.array t.map.reverse

theorem built_doubled : doubled.Built := by
  refine .set _ (.set _ (Data.Table.built_push .empty nofun) nofun) fun s hs => ?_
  cases hs
  exact .empty

theorem built_detached : detached.Built := .set _ (.set _ .empty nofun) nofun

theorem shuffled_backwards {t : Data.Table} (ht : t.Built) :
    Data.Shuffled (.table t) (.table (backwards t)) :=
  Data.shuffled_of_perm (Data.Table.built_wellFormed ht) (List.reverse_perm _)

theorem map_doubled :
    doubled.map = [(.bool true, .table .empty), (.number ⟨.ofInt 1⟩, .string "b")] := rfl

theorem apart_doubled : doubled.Every Data.Table.Apart := by
  have hempty : Data.Table.empty.Every Data.Table.Apart := by
    refine .intro ?_ ?_ ?_
    · intro x i v hmem
      cases hmem
    · intro s hs
      exact absurd hs (Array.not_mem_empty _)
    · intro k s hs
      cases hs
  refine .intro ?_ ?_ ?_
  · intro x i v _ _
    rw [map_doubled]
    exact by simp
  · intro s hs
    cases Array.mem_singleton.mp hs
  · intro k s hs
    rw [map_doubled] at hs
    rcases List.mem_pair.mp hs with h | h <;> cases h
    exact hempty

/-- Three host entries make two entries, in either order of the map. -/
theorem pushHost_merges_doubled :
    exists i w' i' w'',
      Returns (pushHost ⟨0⟩ (.table doubled)) emptyStack () w' ∧
      Returns (pushHost ⟨0⟩ (.table (backwards doubled))) emptyStack () w'' ∧
      (w'.heap.entriesOf i).length = 2 ∧ (.int 1, .ofText "b") ∈ w'.heap.entriesOf i ∧
      SameEntries w'.heap.tables w''.heap.tables (.table i) (.table i') := by
  have hlisting : Data.Shuffled (.table doubled) (.table doubled) :=
    Data.Shuffled.refl_table (Data.Table.built_wellFormed built_doubled)
  rcases pushHost_merges built_doubled (w := emptyStack) (t := ⟨0⟩) rfl (by decide) with
    ⟨hpush, hsame⟩
  rcases hpush doubled hlisting ⟨by decide, by decide⟩ with ⟨i, w', hrun, hmerges⟩
  rcases hpush _ (shuffled_backwards built_doubled) ⟨by decide, by decide⟩ with
    ⟨i', w'', hrun', hmerges'⟩
  have hwellFormed := (Data.Table.built_wellFormed built_doubled).self
  have hkey : doubled.lookup (.number ⟨.ofInt 1⟩) = some (.string "b") := rfl
  have hmeets : (TableKey.number ⟨.ofInt 1⟩).machineKey = .int 1 := by decide +kernel
  have hmerged : doubled.merged = 1 := by decide +kernel
  rcases hmerges.prevails _ _ hkey
    (Data.Table.prevails_number hwellFormed apart_doubled.self hkey) with
    ⟨v', x, hlisted, hmem, hshows⟩
  refine ⟨i, w', i', w'', hrun, hrun', ?_, ?_,
    hsame apart_doubled _ _ hlisting (shuffled_backwards built_doubled) i i' w' w'' hmerges
      hmerges'⟩
  · have hcount := hmerges.count
    rw [hmerged, show doubled.narr + doubled.nrec = 3 from rfl] at hcount
    omega
  · cases hlisted with
    | scalar _ =>
        rw [hshows.eq_scalar nofun, hmeets] at hmem
        exact hmem

/-- What a pushed table holds. -/
def pushedEntries (t : Data.Table) : List (Value × Value) :=
  (after (pushHost ⟨0⟩ (.table t)) emptyStack).heap.entriesOf ⟨0⟩

/-- Of three host entries one is lost, and of two whose keys meet in the map it
depends on their order which one is. -/
theorem entries_merged :
    doubled.narr + doubled.nrec = 3 ∧
      pushedEntries doubled = [(.int 1, .ofText "b"), (.bool true, .table ⟨1⟩)] ∧
      Data.Shuffled (.table detached) (.table (backwards detached)) ∧
      pushedEntries detached = [(.int 3, .ofText "b")] ∧
      pushedEntries (backwards detached) = [(.int 3, .ofText "a")] := by
  refine ⟨rfl, ?_, shuffled_backwards built_detached, ?_, ?_⟩ <;> decide +kernel

end Interface

end LuaHost
