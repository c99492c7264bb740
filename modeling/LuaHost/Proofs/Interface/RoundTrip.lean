import LuaHost.Proofs.Interface.Copying
import LuaHost.Proofs.Interface.Filling

/-!
# From the host and back

Pushing a host value makes a value of the machine that stands for it, and the
copy of that value is the host value.  A host's map may list its entries in
any order, at every level.
-/

namespace LuaHost

/-!
# Orders of a host map
-/

namespace Data

/-- Two listings of one value: their tables hold the same arrays, and the same
entries in some order. -/
inductive Shuffled : Value → Value → Prop where
  | scalar {v : Value} : (forall t, v ≠ .table t) → Shuffled v v
  | table {t t' : Table} : t'.array.size = t.array.size →
      (forall (i : Nat) v v', t.array[i]? = some v -> t'.array[i]? = some v' -> Shuffled v v') →
      (t'.map.map Prod.fst).Perm (t.map.map Prod.fst) →
      (forall k v v', (k, v) ∈ t.map -> (k, v') ∈ t'.map -> Shuffled v v') →
      Shuffled (.table t) (.table t')

theorem Shuffled.refl_table {t : Table} (h : Table.Every Table.WellFormed t) :
    Shuffled (.table t) (.table t) := by
  induction h with
  | @intro t ht _ _ iharray ihmap =>
      have hvalue : forall v, (forall s, v = .table s -> Shuffled (.table s) (.table s)) ->
          Shuffled v v := by
        intro v hv
        cases v with
        | table s => exact hv s rfl
        | _ => exact Shuffled.scalar nofun
      refine Shuffled.table rfl ?_ (List.Perm.refl _) ?_
      · intro i v v' hi hi'
        rw [hi] at hi'
        cases hi'
        apply hvalue
        intro s hs
        exact iharray s (hs ▸ Array.mem_of_getElem? hi)
      · intro k v v' hk hk'
        have hfind := Table.Entries.find?_of_mem ht.sorted hk
        rw [Table.Entries.find?_of_mem ht.sorted hk'] at hfind
        cases hfind
        apply hvalue
        intro s hs
        exact ihmap k s (hs ▸ hk)

/-- Every key of a table is a position of its array, or listed in its map. -/
theorem Table.position_or_listed {t : Table} {k : TableKey} {v : Value} (hk : t.lookup k = some v) :
    (exists q, q < t.narr ∧ k = positionKey (1 + q)) ∨ k ∈ t.map.map Prod.fst := by
  cases ho : offset? t.narr k with
  | some q =>
      have hq := offset?_some ho
      refine Or.inl ⟨q, by omega, ?_⟩
      rw [hq.2, Nat.add_comm]
  | none =>
      rw [lookup_of_no_offset ho] at hk
      exact Or.inr (List.mem_map_of_mem (f := Prod.fst) (Entries.mem_of_find? hk))

end Data

namespace Machine

/-!
# Making values
-/

/-- The computation makes a value that stands for `v`, out of new tables. -/
def Makes (v : Data.Value) (make : M Value) : Prop :=
  forall w : World, exists x s allocated,
    Returns make w x (w.withTables s allocated) ∧ w.heap.tables.Extends s ∧
      Enclosed s w.heap.tables.next s.next ∧ Image s w.heap.tables.next s.next v x

theorem makes_scalar {v : Data.Value} (h : forall t, v ≠ .table t) : Makes v (ofHost v) := by
  have hmade : exists x, (forall w, Returns (ofHost v) w x w) ∧ x.scalarForm? = some v ∧
      x.Held := by
    cases v with
    | table t => exact absurd rfl (h t)
    | nil => exact ⟨.nil, fun w => by rw [ofHost]; exact Returns.pure _ w, rfl, .nil⟩
    | bool b => exact ⟨.bool b, fun w => by rw [ofHost]; exact Returns.pure _ w, rfl, .bool b⟩
    | light p => exact ⟨.light p, fun w => by rw [ofHost]; exact Returns.pure _ w, rfl, .light p⟩
    | string s =>
        refine ⟨.ofText s, fun w => by rw [ofHost]; exact Returns.pure _ w, ?_, .text s⟩
        show some (Data.Value.string (Bytes.toText s.toUTF8)) = _
        rw [Bytes.toText_toUTF8]
    | number n =>
        cases n with
        | int i => exact ⟨.int i, fun w => by rw [ofHost]; exact Returns.pure _ w, rfl, .int i⟩
        | float y => exact ⟨.float y, fun w => by rw [ofHost]; exact Returns.pure _ w, rfl, .float y⟩
  rcases hmade with ⟨x, hrun, hform, hheld⟩
  intro w
  exact ⟨x, w.heap.tables, w.collector.allocated, hrun w, Store.Extends.refl _,
    enclosed_empty _ _, Image.scalar hform hheld⟩

/-!
# Filling a table
-/

section Fill

variable {t : Data.Table} (ht : t.WellFormed) (hkeys : t.NoPositiveIntegralKey) {i : TableId}

include ht hkeys

theorem returns_fill {done : TableKey → Prop} {w : World} (h : Filling t i done w.heap.tables)
    {k : TableKey} {v : Data.Value} (hk : t.lookup k = some v) (hnew : ¬ done k) {make : M Value}
    (hmake : Makes v make) :
    exists s allocated,
      Returns (make >>= fun x => modifyTable i (·.put k.machineKey x)) w ()
        (w.withTables s allocated) ∧
      Filling t i (fun k' => done k' ∨ k' = k) s ∧
      (forall j, j < i.index -> s.find? j = w.heap.tables.find? j) := by
  rcases hmake w with ⟨x, s, allocated, hrun, hextends, henclosed, himage⟩
  refine ⟨s.modify i.index (·.put k.machineKey x), allocated, ?_,
    h.step ht hkeys hk hnew hextends henclosed himage, ?_⟩
  · exact Returns.bind hrun (returns_modifyTable _ i _)
  · intro j hj
    have hbehind := h.behind
    rw [Store.find?_modify, if_neg (by omega)]
    exact hextends.find?_eq j (by omega)

theorem returns_fillValues (vs : List Data.Value) (p : Nat) {done : TableKey → Prop} {w : World}
    (h : Filling t i done w.heap.tables) (hp : p + vs.length ≤ 2 ^ 63)
    (hnew : forall q, p ≤ q -> q < 2 ^ 63 -> ¬ done (Data.Table.positionKey q))
    (hvs : forall q v', vs[q]? = some v' ->
      exists v, t.lookup (Data.Table.positionKey (p + q)) = some v ∧ Makes v (ofHost v')) :
    exists s allocated,
      Returns (fillValues i p vs) w () (w.withTables s allocated) ∧
      Filling t i (fun k => done k ∨ exists q, q < vs.length ∧
        k = Data.Table.positionKey (p + q)) s ∧
      (forall j, j < i.index -> s.find? j = w.heap.tables.find? j) := by
  induction vs generalizing p done w with
  | nil =>
      refine ⟨w.heap.tables, w.collector.allocated, ?_, ?_, fun _ _ => rfl⟩
      · rw [fillValues]
        exact Returns.pure _ w
      · apply h.congr
        intro k
        constructor
        · exact Or.inl
        · rintro (hk | ⟨q, hq, _⟩)
          · exact hk
          · cases hq
  | cons v' vs ih =>
      rw [List.length_cons] at hp
      rcases hvs 0 v' rfl with ⟨v, hlookup, hmake⟩
      rcases returns_fill ht hkeys h hlookup (hnew p (Nat.le_refl p) (by omega)) hmake with
        ⟨s, allocated, hrun, hfilling, hbelow⟩
      have hnew' : forall q, p + 1 ≤ q -> q < 2 ^ 63 ->
          ¬ (done (Data.Table.positionKey q) ∨
            Data.Table.positionKey q = Data.Table.positionKey (p + 0)) := by
        intro q hq hlt hor
        rcases hor with hdone | heq
        · exact hnew q (by omega) hlt hdone
        · have hinj := Data.Table.positionKey_inj hlt (by omega) heq
          omega
      rcases ih (p + 1) (w := w.withTables s allocated) hfilling (by omega) hnew'
        (by
          intro q u hq
          rcases hvs (q + 1) u hq with ⟨v₁, hv₁, hmake₁⟩
          refine ⟨v₁, ?_, hmake₁⟩
          rwa [show p + 1 + q = p + (q + 1) by omega]) with
        ⟨s', allocated', hrun', hfilling', hbelow'⟩
      refine ⟨s', allocated', ?_, ?_, ?_⟩
      · rw [fillValues, ← bind_assoc]
        exact Returns.bind hrun hrun'
      · apply hfilling'.congr
        intro k
        constructor
        · rintro ((hk | hk) | ⟨q, hq, hk⟩)
          · exact Or.inl hk
          · exact Or.inr ⟨0, Nat.succ_pos _, hk⟩
          · refine Or.inr ⟨q + 1, Nat.succ_lt_succ hq, ?_⟩
            rwa [show p + (q + 1) = p + 1 + q by omega]
        · rintro (hk | ⟨q, hq, hk⟩)
          · exact Or.inl (Or.inl hk)
          · cases q with
            | zero => exact Or.inl (Or.inr hk)
            | succ q =>
                refine Or.inr ⟨q, Nat.lt_of_succ_lt_succ hq, ?_⟩
                rwa [show p + 1 + q = p + (q + 1) by omega]
      · intro j hj
        rw [hbelow' j hj]
        exact hbelow j hj

theorem returns_fillEntries (es : List (TableKey × Data.Value)) {done : TableKey → Prop}
    {w : World} (h : Filling t i done w.heap.tables) (hnodup : (es.map Prod.fst).Nodup)
    (hnew : forall e, e ∈ es -> ¬ done e.1)
    (hes : forall e, e ∈ es -> exists v, t.lookup e.1 = some v ∧ Makes v (ofHost e.2)) :
    exists s allocated,
      Returns (fillEntries i es) w () (w.withTables s allocated) ∧
      Filling t i (fun k => done k ∨ k ∈ es.map Prod.fst) s ∧
      (forall j, j < i.index -> s.find? j = w.heap.tables.find? j) := by
  induction es generalizing done w with
  | nil =>
      refine ⟨w.heap.tables, w.collector.allocated, ?_, ?_, fun _ _ => rfl⟩
      · rw [fillEntries]
        exact Returns.pure _ w
      · apply h.congr
        intro k
        constructor
        · exact Or.inl
        · rintro (hk | hk)
          · exact hk
          · cases hk
  | cons e es ih =>
      rcases e with ⟨k, v'⟩
      rw [List.map_cons, List.nodup_cons] at hnodup
      rcases hes (k, v') List.mem_cons_self with ⟨v, hlookup, hmake⟩
      rcases returns_fill ht hkeys h hlookup (hnew _ List.mem_cons_self) hmake with
        ⟨s, allocated, hrun, hfilling, hbelow⟩
      have hnew' : forall e, e ∈ es -> ¬ (done e.1 ∨ e.1 = k) := by
        intro e he hor
        rcases hor with hdone | heq
        · exact hnew e (List.mem_cons_of_mem _ he) hdone
        · exact hnodup.1 (List.mem_map.mpr ⟨e, he, heq⟩)
      rcases ih (w := w.withTables s allocated) hfilling hnodup.2 hnew'
        (fun e he => hes e (List.mem_cons_of_mem _ he)) with
        ⟨s', allocated', hrun', hfilling', hbelow'⟩
      refine ⟨s', allocated', ?_, ?_, ?_⟩
      · rw [fillEntries, fillEntry]
        exact Returns.bind hrun hrun'
      · apply hfilling'.congr
        intro k'
        rw [List.map_cons, List.mem_cons]
        exact or_assoc
      · intro j hj
        rw [hbelow' j hj]
        exact hbelow j hj

end Fill

/-!
# Making tables
-/

theorem filling_new (t : Data.Table) (s : Store Table) (narr nrec : Nat) :
    Filling t ⟨s.next⟩ (fun _ => False) (s.push (Table.withRoom narr nrec)) := by
  have hfind : (s.push (Table.withRoom narr nrec)).find? s.next =
      some (Table.withRoom narr nrec) := by
    rw [Store.find?_push, if_pos rfl]
  have hnext : (s.push (Table.withRoom narr nrec)).next = s.next + 1 := Array.size_push _
  constructor
  case live => exact Store.live_of_find? hfind
  case behind => rw [hnext]
  case enclosed =>
    rw [hnext]
    exact enclosed_empty _ _
  case holds =>
    intro k v hk
    exact absurd hk id
  case only =>
    intro x hx
    rw [Store.get_of_find? hfind, Table.find_withRoom] at hx
    exact absurd rfl hx

/-- A table is made when the values inside it are, in whatever order its map
is listed. -/
theorem makes_listing {t : Data.Table} (ht : t.WellFormed) (hkeys : t.NoPositiveIntegralKey)
    {a : Array Data.Value} {m : List (TableKey × Data.Value)} (hsize : a.size = t.array.size)
    (harray : forall (i : Nat) v v', t.array[i]? = some v -> a[i]? = some v' -> Makes v (ofHost v'))
    (hperm : (m.map Prod.fst).Perm (t.map.map Prod.fst))
    (hmap : forall k v v', (k, v) ∈ t.map -> (k, v') ∈ m -> Makes v (ofHost v')) :
    Makes (.table t) (ofHost (.table (.mk a m))) := by
  intro w
  have hbound := ht.size_lt
  have hlen : a.toList.length = t.narr := hsize
  have hnew := filling_new t w.heap.tables a.size m.length
  rcases returns_fillValues ht hkeys a.toList 1 (w := w.withTables _ (w.collector.allocated + 1)) hnew
    (by omega) (fun q _ _ => id) (by
      intro q v' hq
      rw [Array.getElem?_toList] at hq
      have hq' : q < t.narr := by
        rw [← hlen]
        exact (Array.getElem?_eq_some_iff.mp hq).1
      have hv : t.array[q]? = some t.array[q] := Array.getElem?_eq_getElem hq'
      refine ⟨t.array[q], ?_, harray q _ _ hv hq⟩
      rw [Nat.add_comm, Data.Table.lookup_of_offset (i := q) (by
        rw [Data.Table.offset?_positionKey (by omega), if_pos hq']), hv]) with
    ⟨s, allocated, hrun, hfilling, hbelow⟩
  -- the map is listed in another order, but with the keys of the table
  have hkeyof : forall e, e ∈ m -> exists v, (e.1, v) ∈ t.map := by
    intro e he
    have hmem := hperm.mem_iff.mp (List.mem_map_of_mem (f := Prod.fst) he)
    rcases List.mem_map.mp hmem with ⟨⟨k, v⟩, hv, heq⟩
    exact ⟨v, heq ▸ hv⟩
  have hdisjoint : forall e, e ∈ m -> ¬ (False ∨ exists q, q < a.toList.length ∧
      e.1 = Data.Table.positionKey (1 + q)) := by
    rintro e he (hfalse | ⟨q, hq, heq⟩)
    · exact hfalse
    · rcases hkeyof e he with ⟨v, hv⟩
      have hfind := Data.Table.Entries.find?_of_mem ht.sorted hv
      rw [heq, Data.Table.find?_position_none ht (by omega) (by omega)] at hfind
      cases hfind
  have hnodup : (m.map Prod.fst).Nodup := by
    rw [hperm.nodup_iff]
    exact List.pairwise_map.mpr (ht.sorted.imp fun hlt => TableKey.ne_of_cmp_lt hlt)
  rcases returns_fillEntries ht hkeys m (w := w.withTables s allocated) hfilling hnodup hdisjoint
    (by
      intro e he
      rcases hkeyof e he with ⟨v, hv⟩
      exact ⟨v, Data.Table.lookup_of_mem_map ht hv, hmap e.1 v e.2 hv he⟩) with
    ⟨s', allocated', hrun', hfilling', hbelow'⟩
  have hdone : forall k v, t.lookup k = some v ->
      (False ∨ exists q, q < a.toList.length ∧ k = Data.Table.positionKey (1 + q)) ∨
        k ∈ m.map Prod.fst := by
    intro k v hk
    rw [hlen]
    exact (Data.Table.position_or_listed hk).imp Or.inr hperm.mem_iff.mpr
  -- the tables that there were are before the new one, and are not written to
  have hold : forall j, j < w.heap.tables.next -> s'.find? j = w.heap.tables.find? j := by
    intro j hj
    rw [hbelow' j hj]
    show s.find? j = _
    rw [hbelow j hj]
    show (w.heap.tables.push _).find? j = _
    rw [Store.find?_push, if_neg (by omega)]
  have hbehind : w.heap.tables.next + 1 ≤ s'.next := hfilling'.behind
  refine ⟨.table ⟨w.heap.tables.next⟩, s', allocated', ?_, ?_, hfilling'.encloses ht hkeys, ?_⟩
  · rw [ofHost, ofHostTable]
    refine Returns.bind (Returns.bind (returns_newTable w _) ?_) (Returns.pure _ _)
    rw [fillArray]
    exact Returns.bind hrun (Returns.bind hrun' (Returns.pure _ _))
  · exact ⟨Nat.le_of_succ_le hbehind, hold⟩
  · refine Image.table (Nat.le_refl _) hbehind ?_
    intro path hpath
    exact hfilling'.unfolds ht hkeys hdone hpath

/-- Every listing of a host value makes a value that stands for it. -/
theorem makes_shuffled {t t' : Data.Table}
    (ht : Data.Table.Every (fun s => s.WellFormed ∧ s.NoPositiveIntegralKey) t)
    (h : Data.Shuffled (.table t) (.table t')) : Makes (.table t) (ofHost (.table t')) := by
  induction ht generalizing t' with
  | @intro t hP _ _ iharray ihmap =>
      have hvalue : forall {v v' : Data.Value}, Data.Shuffled v v' ->
          (forall s, v = .table s -> forall s', Data.Shuffled (.table s) (.table s') ->
            Makes (.table s) (ofHost (.table s'))) -> Makes v (ofHost v') := by
        intro v v' hv hmake
        cases hv with
        | scalar hscalar => exact makes_scalar hscalar
        | @table s s' h₁ h₂ h₃ h₄ => exact hmake s rfl s' (Data.Shuffled.table h₁ h₂ h₃ h₄)
      rcases t' with ⟨a, m⟩
      cases h with
      | scalar hscalar => exact absurd rfl (hscalar _)
      | table hsize harray hperm hmap =>
          apply makes_listing hP.1 hP.2 hsize _ hperm
          · intro k v v' hv hv'
            apply hvalue (hmap k v v' hv hv')
            intro s hs s' hshuffled
            exact ihmap k s (hs ▸ hv) hshuffled
          · intro i v v' hv hv'
            apply hvalue (harray i v v' hv hv')
            intro s hs s' hshuffled
            exact iharray s (hs ▸ Array.mem_of_getElem? hv) hshuffled

end Machine

/-!
# Room for the way back
-/

namespace Data

theorem slots_le_values {v : Value} {vs : List Value} (h : v ∈ vs) : v.slots ≤ valuesSlots vs := by
  induction vs with
  | nil => cases h
  | cons u vs ih =>
      rw [valuesSlots]
      rcases List.mem_cons.mp h with heq | htail
      · rw [heq]
        exact Nat.le_max_left _ _
      · exact Nat.le_trans (ih htail) (Nat.le_max_right _ _)

theorem slots_le_entry (k : TableKey) (v : Value) : v.slots ≤ entrySlots (k, v) := by
  cases k with
  | string s =>
      rw [entrySlots]
      exact Nat.le_max_right _ _
  | integer i =>
      rw [entrySlots]
  | _ =>
      rw [entrySlots]
      exact Nat.le_add_left _ _

theorem slots_le_entries {k : TableKey} {v : Value} {m : List (TableKey × Value)}
    (h : (k, v) ∈ m) : v.slots ≤ entriesSlots m := by
  induction m with
  | nil => cases h
  | cons e m ih =>
      rw [entriesSlots]
      rcases List.mem_cons.mp h with heq | htail
      · rw [← heq]
        exact Nat.le_trans (slots_le_entry k v) (Nat.le_max_left _ _)
      · exact Nat.le_trans (ih htail) (Nat.le_max_right _ _)

theorem slots_inside {t s : Table} {k : TableKey} (h : t.lookup k = some (.table s)) :
    s.slots + 1 ≤ t.slots := by
  rcases t with ⟨⟨vs⟩, m⟩
  have hslots : (Value.table s).slots = s.slots := by rw [Value.slots]
  rw [Table.slots, ← hslots, Nat.add_comm 1]
  apply Nat.succ_le_succ
  rcases Table.mem_of_lookup h with hmem | hmem
  · have hvs : Value.table s ∈ vs := Array.mem_toList_iff.mpr hmem
    rw [arraySlots]
    exact Nat.le_trans (slots_le_values hvs) (Nat.le_max_left _ _)
  · exact Nat.le_trans (slots_le_entries hmem) (Nat.le_max_right _ _)

theorem slots_pos (t : Table) : 1 ≤ t.slots := by
  rcases t with ⟨a, m⟩
  rw [Table.slots]
  exact Nat.le_add_right _ _

end Data

/-- The traversal goes no deeper than the host table is nested. -/
theorem depth_traverse {entriesOf : TableId → List (Value × Value)} {path : List TableId}
    {i : TableId} {t : Data.Table} (h : Unfolds entriesOf path i t)
    (hkeys : forall j e, Within entriesOf i j -> e ∈ entriesOf j ->
      exists s, e.1.hostKey? = some s) (fuel : Nat) :
    (TableCopy.traverse entriesOf fuel path i).depth ≤ t.slots := by
  induction h generalizing fuel with
  | @intro path i t inner ht hentries _ ih =>
      cases fuel with
      | zero => exact Data.slots_pos t
      | succ fuel =>
          apply TableCopy.depth_fold _ (Data.slots_pos t)
          rintro ⟨k, v⟩ j k' he hv _ hj
          have hv' : v = .table j := hv
          subst hv'
          rcases hkeys i _ Within.self he with ⟨s, hs⟩
          have hlookup := (hentries s _).mpr ⟨k, .table j, he, hs, Value.hostForm?_table hj⟩
          have hdepth := ih k j he hj (fun l e hl => hkeys l e (hl.inside he)) fuel
          exact Nat.le_trans (Nat.succ_le_succ hdepth) (Data.slots_inside hlookup)

/-!
# There and back
-/

namespace Interface

open Machine

/-- Where the value that a host value becomes can be made, and the new tables are as they should
be, it is pushed and leaves the tables like that. -/
theorem returns_pushHost_made {w : World} {t : ThreadId} (hlive : w.liveThread t = true)
    {v : Data.Value} (hroom : (w.thread t).Room (v.slots + 1))
    {R : Store Table → Store Table → Value → Prop}
    (hmake : forall w : World, exists x s allocated,
      Returns (ofHost v) w x (w.withTables s allocated) ∧ R w.heap.tables s x) :
    exists x w', Returns (pushHost t v) w () w' ∧ (w.thread t).Pushed x (w'.thread t) ∧
      w'.liveThread t = true ∧ R w.heap.tables w'.heap.tables x := by
  rcases returns_needRoom hlive (hroom.mono (Nat.le_succ _)) with ⟨th, htop, hbelow, hle, hrun⟩
  have hth : (w.setThread t th).thread t = th := World.thread_setThread hlive th
  rcases hmake (w.setThread t th) with ⟨x, s, allocated, hmade, hnew⟩
  let w₁ := (w.setThread t th).withTables s allocated
  have hlive₁ : w₁.liveThread t = true := (World.liveThread_setThread w t t th).trans hlive
  refine ⟨x, w₁.setThread t (th.push x), ?_, ?_, ?_, hnew⟩
  · have hpush : Returns (push t x) w₁ () (w₁.setThread t (th.push x)) := by
      have hpushed := returns_push w₁ t x
      rwa [show w₁.thread t = th from hth] at hpushed
    exact Returns.bind hrun (Returns.bind hmade hpush)
  · rw [World.thread_setThread hlive₁]
    refine ⟨hbelow.topped htop x, ?_⟩
    rw [Thread.room_push]
    exact hle
  · rw [World.liveThread_setThread]
    exact hlive₁

/-- Pushing a host value, in whatever order its maps are listed, leaves one more
value on the stack. -/
theorem returns_pushHost {w : World} {t : ThreadId} (hlive : w.liveThread t = true)
    {v v' : Data.Value} (hroom : (w.thread t).Room (v'.slots + 1)) (hmake : Makes v (ofHost v')) :
    exists x w', Returns (pushHost t v') w () w' ∧ (w.thread t).Pushed x (w'.thread t) ∧
      w'.liveThread t = true ∧
      Enclosed w'.heap.tables w.heap.tables.next w'.heap.tables.next ∧
      Image w'.heap.tables w.heap.tables.next w'.heap.tables.next v x ∧
      w.heap.tables.Extends w'.heap.tables := by
  rcases returns_pushHost_made hlive hroom (R := fun before after x =>
      before.Extends after ∧ Enclosed after before.next after.next ∧
        Image after before.next after.next v x) hmake with
    ⟨x, w', hrun, hpushed, hlive', hextends, henclosed, himage⟩
  exact ⟨x, w', hrun, hpushed, hlive', henclosed, himage, hextends⟩

/-- The value that was pushed is copied as the host value. -/
theorem returns_toHost_image {w : World} {t : ThreadId} (hlive : w.liveThread t = true)
    {v : Data.Value} {x : Value} {lo : Nat} (himage : Image w.heap.tables lo w.heap.tables.next v x)
    (henclosed : Enclosed w.heap.tables lo w.heap.tables.next)
    (hroom : (w.thread t).Room (2 * v.slots)) {idx : Int}
    (hindex : validIndex (w.thread t).height idx = true)
    (hvalue : Returns (value? t idx) w (some x) w) :
    exists w', Returns (toHost t idx) w (some v) w' ∧ OnlyRoom t w w' ∧
      forall i order, x = .table i -> (forall j, (order j).Perm (w.heap.entriesOf j)) ->
        .table (TableCopy.traverse order (w.heap.tables.items.size + 1) [] i).table = v := by
  cases himage with
  | scalar hform =>
      refine ⟨w, ?_, OnlyRoom.refl t hroom.room_le, ?_⟩
      · refine Returns.bind (returns_checkIndex hindex) ?_
        refine Returns.bind hvalue ?_
        cases x with
        | table i => cases hform
        | _ =>
            rw [← hform]
            exact Returns.pure _ w
      · intro i order hx
        rw [hx] at hform
        cases hform
  | @table u i hlo hhi hunfolds =>
      have hu : Unfolds w.heap.entriesOf [] i u := hunfolds [] (fun j hj => by cases hj)
      have hrange : forall j, Within w.heap.entriesOf i j ->
          lo ≤ j.index ∧ j.index < w.heap.tables.next := fun j hj => henclosed.within hlo hhi hj
      have hapart : forall j, Within w.heap.entriesOf i j -> KeysApart (w.heap.entriesOf j) :=
        fun j hj => henclosed.keysApart (hrange j hj).1 (hrange j hj).2
      -- a traversal of the new tables goes no deeper than the host value is nested
      have hdepth : (w.heap.copyTable i).depth ≤ u.slots := by
        apply depth_traverse hu
        intro j e hj he
        rcases henclosed.keys j e (hrange j hj).1 (hrange j hj).2 he with ⟨k, hk, heq⟩
        exact ⟨k, heq ▸ hk.hostKey?_machineKey⟩
      have hslots : (Data.Value.table u).slots = u.slots := by rw [Data.Value.slots]
      have hroom' : (w.thread t).Room (2 * (w.heap.copyTable i).depth) := hroom.mono (by omega)
      rcases returns_copyTableOut hlive hroom' with ⟨w', honly, hcopy⟩
      have htable := (w.heap.copyTable_unfolds hapart).unique hu
      rw [htable] at hcopy
      refine ⟨w', returns_toHost_table hindex hvalue hcopy, honly, ?_⟩
      intro j order hj horder
      cases hj
      rw [(w.heap.traverse_unfolds horder hapart).unique hu]

/-- A host value comes back as it was, from any listing of its maps and by any
traversal of the new tables. -/
theorem pushHost_toHost {w : World} {t : ThreadId} (hlive : w.liveThread t = true)
    (hbase : (w.thread t).base ≤ (w.thread t).top) {v v' : Data.Value}
    (hbuilt : forall u, v = .table u -> u.Built ∧ u.Every Data.Table.NoPositiveIntegralKey)
    (hlisting : Data.Shuffled v v') (hpush : (w.thread t).Room (v'.slots + 1))
    (hcopy : (w.thread t).Room (2 * v.slots + 1)) :
    exists x w' w'',
      Returns (pushHost t v') w () w' ∧
      (w'.thread t).values = (w.thread t).values ++ [x] ∧
      Returns (toHost t (-1)) w' (some v) w'' ∧
      (w''.thread t).values = (w'.thread t).values ∧
      OnlyRoom t w' w'' ∧
      forall i order, x = .table i -> (forall j, (order j).Perm (w'.heap.entriesOf j)) ->
        .table (TableCopy.traverse order (w'.heap.tables.items.size + 1) [] i).table = v := by
  have hmake : Makes v (ofHost v') := by
    cases hlisting with
    | scalar hscalar => exact makes_scalar hscalar
    | @table u u' h₁ h₂ h₃ h₄ =>
        rcases hbuilt u rfl with ⟨hu, hkeys⟩
        exact makes_shuffled ((Data.Table.built_wellFormed hu).and hkeys)
          (Data.Shuffled.table h₁ h₂ h₃ h₄)
  rcases returns_pushHost hlive hpush hmake with
    ⟨x, w', hrun, hpushed, hlive', henclosed, himage, _⟩
  -- the new value takes a slot of the room that its copy may use
  have hroom : (w'.thread t).Room (2 * v.slots) := by
    refine ⟨hpushed.room_le, ?_⟩
    have htop := hcopy.top_le
    rw [hpushed.top_eq]
    omega
  have hheight : (w'.thread t).height = (w.thread t).height + 1 := by
    unfold Thread.height
    rw [hpushed.top_eq, hpushed.below.base_eq]
    omega
  have hindex : validIndex (w'.thread t).height (-1) = true := by
    rw [hheight]
    unfold validIndex
    simp only [Bool.and_eq_true, Bool.or_eq_true, decide_eq_true_eq, bne_iff_ne]
    refine ⟨by decide, Or.inr ?_⟩
    omega
  have hvalue : Returns (value? t (-1)) w' (some x) w' := by
    rw [← hpushed.slot_top]
    exact returns_value?_top hpushed.top_eq
  rcases returns_toHost_image hlive' himage henclosed hroom hindex hvalue with
    ⟨w'', hback, honly, horders⟩
  exact ⟨x, w', w'', hrun, hpushed.values_eq hbase, hback, honly.values_eq, honly, horders⟩

/-!
# A nested table whose map is listed backwards
-/

/-- A stack without values. -/
def emptyStack : World := { heap := { threads := { items := #[some Thread.fresh] } } }

/-- `{ false, [true] = {}, [0] = 2.5 }`. -/
def nested : Data.Table :=
  ((Data.Table.empty.push (.bool false)).set (.bool true) (.table .empty)).set (.integer 0)
    (.number (.float ⟨0x4004000000000000⟩))

theorem nested_eq :
    nested = .mk #[.bool false]
      [(.bool true, .table .empty), (.number ⟨⟨0⟩⟩, .number (.float ⟨0x4004000000000000⟩))] := rfl

/-- The same table, with another order of its map. -/
def nestedListing : Data.Table :=
  .mk #[.bool false]
    [(.number ⟨⟨0⟩⟩, .number (.float ⟨0x4004000000000000⟩)), (.bool true, .table .empty)]

theorem pushHost_toHost_nested :
    exists x w' w'',
      Returns (pushHost ⟨0⟩ (.table nestedListing)) emptyStack () w' ∧
      (w'.thread ⟨0⟩).values = [x] ∧
      Returns (toHost ⟨0⟩ (-1)) w' (some (.table nested)) w'' := by
  have hbuilt : nested.Built := by
    refine Data.Table.Built.set _ (Data.Table.Built.set _ (Data.Table.built_push
      Data.Table.Built.empty nofun) ?_) nofun
    intro s hs
    cases hs
    exact Data.Table.Built.empty
  have hempty : Data.Table.empty.Every Data.Table.NoPositiveIntegralKey := by
    refine Data.Table.Every.intro ?_ ?_ ?_
    · intro x v i hmem
      cases hmem
    · intro s hs
      exact absurd hs (Array.not_mem_empty _)
    · intro k s hs
      cases hs
  have hkeys : nested.Every Data.Table.NoPositiveIntegralKey := by
    rw [nested_eq]
    refine Data.Table.Every.intro ?_ ?_ ?_
    · intro x v i hmem hi
      have hzero := Double.toInt64?_of_isZero (x := ⟨0⟩) rfl
      rcases List.mem_cons.mp hmem with h | hmem
      · cases h
      · cases List.mem_singleton.mp hmem
        cases hzero.symm.trans hi
        decide
    · intro s hs
      cases Array.mem_singleton.mp hs
    · intro k s hs
      rcases List.mem_cons.mp hs with h | hs
      · cases h
        exact hempty
      · cases List.mem_singleton.mp hs
  have hlisting : Data.Shuffled (.table nested) (.table nestedListing) := by
    rw [nested_eq]
    refine Data.Shuffled.table rfl ?_ (by decide) ?_
    · intro i v v' hv hv'
      have hsame : some v = some v' := hv.symm.trans hv'
      cases hsame
      cases Array.mem_singleton.mp (Array.mem_of_getElem? hv)
      exact Data.Shuffled.scalar nofun
    · intro k v v' hv hv'
      rcases List.mem_cons.mp hv with h | hv
      · cases h
        rcases List.mem_cons.mp hv' with h | hv'
        · cases h
        · cases List.mem_singleton.mp hv'
          exact Data.Shuffled.refl_table (Data.Table.built_wellFormed Data.Table.Built.empty)
      · cases List.mem_singleton.mp hv
        rcases List.mem_cons.mp hv' with h | hv'
        · cases h
          exact Data.Shuffled.scalar nofun
        · cases List.mem_singleton.mp hv'
  rcases pushHost_toHost (w := emptyStack) (t := ⟨0⟩) rfl (by decide)
    (fun u hu => by cases hu; exact ⟨hbuilt, hkeys⟩) hlisting ⟨by decide, by decide⟩
    ⟨by decide, by decide⟩ with ⟨x, w', w'', hpush, hvalues, hback, _⟩
  exact ⟨x, w', w'', hpush, hvalues, hback⟩

end Interface

end LuaHost
