import LuaHost.Proofs.Machine.Reachability

/-!
# What a cycle collects

A cycle keeps what is reachable and what is noted for finalization.  The noted
objects that became due were not reachable when it began.
-/

namespace LuaHost

namespace Machine

/-- What a collector may do, in a whole cycle or a part of one, on behalf of a
running thread. -/
structure Collected (t : ThreadId) (w w' : World) : Prop where
  registry_eq : w'.registry = w.registry
  closing_eq : w'.collector.closing = w.collector.closing
  events_eq : w'.events = w.events
  /-- Objects that are due were noted, and not reachable. -/
  due : exists vs, w'.collector.pending = w.collector.pending ++ vs ∧
    (forall v, v ∈ w.collector.finalizable -> v ∈ w'.collector.finalizable ∨ v ∈ vs) ∧
    (forall v, v ∈ w'.collector.finalizable -> v ∈ w.collector.finalizable) ∧
    forall v, v ∈ vs -> v ∈ w.collector.finalizable ∧
      forall o, v.object? = some o -> ¬ w.heap.Reachable (roots w t) o
  /-- A table that is reachable stays.  It may lose entries if it is weak, but
  none of a string with a value that is no object. -/
  table : forall i T, w.heap.Reachable (roots w t) (.table i) ->
    w.heap.tables.find? i.index = some T ->
    exists T', w'.heap.tables.find? i.index = some T' ∧ (T.metatable = none -> T' = T) ∧
      forall s, (T.find (.str s)).object? = none -> T'.find (.str s) = T.find (.str s)
  /-- Userdata that is noted stays as it is, and none comes or changes. -/
  userdata_noted : forall u, Value.userdata u ∈ w.collector.finalizable ++ w.collector.pending ->
    w'.heap.userdata.find? u.index = w.heap.userdata.find? u.index
  userdata : forall i, w'.heap.userdata.find? i = w.heap.userdata.find? i ∨
    w'.heap.userdata.find? i = none
  userdata_next : w'.heap.userdata.next = w.heap.userdata.next

namespace Collected

variable {t : ThreadId} {w w' : World}

/-- What is noted or due stays so. -/
theorem noted_iff (h : Collected t w w') (v : Value) :
    v ∈ w'.collector.finalizable ++ w'.collector.pending ↔
      v ∈ w.collector.finalizable ++ w.collector.pending := by
  rcases h.due with ⟨vs, hpending, hnoted, hold, hdue⟩
  rw [hpending, List.mem_append, List.mem_append, List.mem_append]
  constructor
  · rintro (hv | hv | hv)
    · exact Or.inl (hold v hv)
    · exact Or.inr hv
    · exact Or.inl (hdue v hv).1
  · rintro (hv | hv)
    · exact (hnoted v hv).imp_right Or.inr
    · exact Or.inr (Or.inl hv)

theorem find?_userdata (h : Collected t w w') {i : Nat} {d : UserData}
    (hd : w'.heap.userdata.find? i = some d) : w.heap.userdata.find? i = some d := by
  rcases h.userdata i with hsame | hfreed
  · exact hsame.symm.trans hd
  · rw [hfreed] at hd
    cases hd

end Collected

end Machine

/-!
# Clearing weak tables
-/

namespace Heap

/-- Removing entries leaves the values of keys that the test accepts. -/
theorem find_clearTable (keep : Value × Value → Bool) (T : Table) {k : Value}
    (hkeep : keep (k, T.find k) = true) : (clearTable keep T).find k = T.find k := by
  have hfold : forall (es : List (Value × Value)) (T' : Table),
      (forall e, e ∈ es -> e.1 = k -> keep e = true) ->
      (es.foldl (fun t e => if keep e then t else t.put e.1 .nil) T').find k = T'.find k := by
    intro es
    induction es with
    | nil =>
        intro T' _
        rfl
    | cons e es ih =>
        intro T' hes
        rw [List.foldl_cons, ih _ fun e' he' => hes e' (List.mem_cons_of_mem e he')]
        by_cases he : keep e = true
        · rw [if_pos he]
        · rw [if_neg he, Table.find_put, if_neg]
          intro hk
          exact he (hes e (List.mem_cons_self ..) hk)
  apply hfold
  intro e he hk
  rcases e with ⟨k', v⟩
  have hk' : k' = k := hk
  have hv := (Table.mem_entries.mp he).1
  rw [hk'] at hv ⊢
  rwa [← hv]

theorem metatable_clearTable (keep : Value × Value → Bool) (T : Table) :
    (clearTable keep T).metatable = T.metatable := by
  have hfold : forall (es : List (Value × Value)) (T' : Table),
      (es.foldl (fun t e => if keep e then t else t.put e.1 .nil) T').metatable =
        T'.metatable := by
    intro es
    induction es with
    | nil =>
        intro T'
        rfl
    | cons e es ih =>
        intro T'
        rw [List.foldl_cons, ih]
        split
        · rfl
        · exact Table.metatable_put T' e.1 .nil
  exact hfold T.entries T

/-- A table before and after weak entries were removed. -/
structure Cleared (T T' : Table) : Prop where
  metatable_eq : T'.metatable = T.metatable
  plain_eq : T.metatable = none -> T' = T
  find_eq : forall s, (T.find (.str s)).object? = none -> T'.find (.str s) = T.find (.str s)

theorem Cleared.refl (T : Table) : Cleared T T := ⟨rfl, fun _ => rfl, fun _ _ => rfl⟩

theorem Cleared.trans {T T' T'' : Table} (h : Cleared T T') (h' : Cleared T' T'') :
    Cleared T T'' := by
  refine ⟨h'.metatable_eq.trans h.metatable_eq, ?_, ?_⟩
  · intro hplain
    rw [h'.plain_eq (h.metatable_eq.trans hplain), h.plain_eq hplain]
  · intro s hs
    have hfirst := h.find_eq s hs
    rw [← hfirst] at hs
    rw [h'.find_eq s hs, hfirst]

theorem find?_mapTables (h : Heap) (f : Table → Table) (i : Nat) :
    (h.mapTables f).tables.find? i = (h.tables.find? i).map f := by
  unfold mapTables Store.find?
  rw [Array.getElem?_map]
  cases h.tables.items[i]? with
  | none => rfl
  | some T => cases T <;> rfl

theorem weakness_plain (h : Heap) {T : Table} (hplain : T.metatable = none) :
    h.weakness T = .strong := by
  unfold weakness
  rw [hplain]

theorem cleared_clearValues (h : Heap) (m : Marks) {i : Nat} {T : Table}
    (hT : h.tables.find? i = some T) :
    exists T', (h.clearValues m).tables.find? i = some T' ∧ Cleared T T' := by
  unfold clearValues
  rw [find?_mapTables, hT]
  refine ⟨_, rfl, ?_⟩
  have hclear : Cleared T (clearTable (fun e => m.keeps e.2) T) ∨ T.metatable = none := by
    by_cases hplain : T.metatable = none
    · exact Or.inr hplain
    · refine Or.inl ⟨metatable_clearTable _ T, fun h => absurd h hplain, ?_⟩
      intro s hs
      apply find_clearTable
      unfold Marks.keeps
      dsimp only
      rw [hs]
  rcases hclear with hclear | hplain
  · dsimp only
    split
    · exact hclear
    · exact hclear
    · exact Cleared.refl T
  · dsimp only
    rw [weakness_plain h hplain]
    exact Cleared.refl T

theorem cleared_clearKeys (h : Heap) (m : Marks) {i : Nat} {T : Table}
    (hT : h.tables.find? i = some T) :
    exists T', (h.clearKeys m).tables.find? i = some T' ∧ Cleared T T' := by
  unfold clearKeys
  rw [find?_mapTables, hT]
  refine ⟨_, rfl, ?_⟩
  have hclear : Cleared T (clearTable (fun e => m.keeps e.1) T) ∨ T.metatable = none := by
    by_cases hplain : T.metatable = none
    · exact Or.inr hplain
    · refine Or.inl ⟨metatable_clearTable _ T, fun h => absurd h hplain, ?_⟩
      intro s _
      exact find_clearTable _ T rfl
  rcases hclear with hclear | hplain
  · dsimp only
    split
    · exact hclear
    · exact hclear
    · exact Cleared.refl T
  · dsimp only
    rw [weakness_plain h hplain]
    exact Cleared.refl T

/-!
# Sweeping
-/

theorem find?_sweepStore {α : Type} (s : Store α) (marked : Array Bool) (i : Nat) :
    (sweepStore s marked).find? i = if marked.getD i false then s.find? i else none := by
  unfold sweepStore Store.find?
  rw [Array.getElem?_mapIdx]
  cases s.items[i]? with
  | none => split <;> rfl
  | some o =>
      rw [Option.map_some]
      split <;> rfl

end Heap

namespace Machine

open Heap Marks

/-- No number occurs in a world that has not been given out. -/
structure SoundWorld (t : ThreadId) (w : World) : Prop where
  heap : w.heap.Sound
  roots : forall o, o ∈ roots w t -> w.heap.Numbered o
  finalizable : forall v o, v ∈ w.collector.finalizable -> v.object? = some o -> w.heap.Numbered o

theorem soundWorld_iff {t : ThreadId} {w : World} :
    SoundWorld t w ↔ w.heap.Sound ∧ (forall o, o ∈ roots w t -> w.heap.Numbered o) ∧
      forall v, v ∈ w.collector.finalizable -> forall o, o ∈ v.object? -> w.heap.Numbered o :=
  ⟨fun h => ⟨h.heap, h.roots, fun v hv o ho => h.finalizable v o hv ho⟩,
    fun h => ⟨h.1, h.2.1, fun v o hv ho => h.2.2 v hv o ho⟩⟩

instance (t : ThreadId) (w : World) : Decidable (SoundWorld t w) :=
  decidable_of_iff _ soundWorld_iff.symm

/-- The marks by which a cycle sweeps: what is reachable, and what the objects lead to
that have become due. -/
def sweepMarks (w : World) (t : ThreadId) : Marks :=
  let m := w.heap.reach (.none w.heap) (roots w t)
  let due := (w.collector.finalizable.partition m.keeps).2
  (w.heap.clearValues m).reach m (due.filterMap Value.object?)

/-- The marks of what is reachable, with which a cycle begins. -/
def reachMarks (w : World) (t : ThreadId) : Marks := w.heap.reach (.none w.heap) (roots w t)

/-- The noted values that a cycle makes due. -/
def dying (w : World) (t : ThreadId) : List Value :=
  (w.collector.finalizable.partition (reachMarks w t).keeps).2

section Marking

variable {t : ThreadId} {w : World}

theorem mem_dying {v : Value} :
    v ∈ dying w t ↔ v ∈ w.collector.finalizable ∧ (reachMarks w t).keeps v = false := by
  unfold dying
  rw [List.partition_eq_filter_filter, List.mem_filter]
  refine and_congr_right fun _ => ?_
  show (!(reachMarks w t).keeps v) = true ↔ _
  rw [Bool.not_eq_true']

theorem mem_finalizable_cycle {v : Value} : v ∈ (cycle w t).collector.finalizable ↔
    v ∈ w.collector.finalizable ∧ (reachMarks w t).keeps v = true := by
  show v ∈ (w.collector.finalizable.partition (reachMarks w t).keeps).1 ↔ _
  rw [List.partition_eq_filter_filter, List.mem_filter]

theorem subset_sweepMarks : (reachMarks w t).Subset (sweepMarks w t) :=
  (subset_visits _ (reachMarks w t, [])).trans (subset_reach (w.heap.clearValues (reachMarks w t)) _ _)

/-- What a cycle makes due is marked before it sweeps, with all that it leads to. -/
theorem has_sweepMarks_dying (hsound : SoundWorld t w) {v : Value} {o : ObjectId}
    (hv : v ∈ dying w t) (ho : v.object? = some o) : (sweepMarks w t).has o = true := by
  rcases closed_reach hsound.heap (covers_none w.heap) (closed_none w.heap) hsound.roots with
    ⟨hcovers, _⟩
  have hnumbered : forall o, o ∈ (dying w t).filterMap Value.object? -> w.heap.Numbered o := by
    intro o ho
    rcases List.mem_filterMap.mp ho with ⟨v, hv, hobject⟩
    exact hsound.finalizable v o (mem_dying.mp hv).1 hobject
  have hvisit := visited_foldl _ (reachMarks w t, []) hcovers hnumbered
  exact subset_reach (w.heap.clearValues (reachMarks w t)) _ _ o
    (hvisit.marked o (List.mem_filterMap.mpr ⟨v, hv, ho⟩))

theorem has_sweepMarks (hsound : SoundWorld t w) {o : ObjectId}
    (h : w.heap.Reachable (roots w t) o) : (sweepMarks w t).has o = true :=
  subset_sweepMarks o (reachable_marked hsound.heap hsound.roots h)

theorem has_sweepMarks_noted (hsound : SoundWorld t w) {v : Value} {o : ObjectId}
    (hv : v ∈ w.collector.finalizable ++ w.collector.pending) (ho : v.object? = some o) :
    (sweepMarks w t).has o = true := by
  rcases List.mem_append.mp hv with hnoted | hpending
  · cases hkeep : (reachMarks w t).keeps v with
    | true => exact subset_sweepMarks o (keeps_iff.mp hkeep o ho)
    | false => exact has_sweepMarks_dying hsound (mem_dying.mpr ⟨hnoted, hkeep⟩) ho
  · -- what is due already is among the roots
    refine has_sweepMarks hsound (.root ?_)
    exact List.mem_append_right _ (List.mem_filterMap.mpr ⟨v, hpending, ho⟩)

theorem unreachable_of_dying (hsound : SoundWorld t w) {v : Value} {o : ObjectId}
    (hv : v ∈ dying w t) (ho : v.object? = some o) : ¬ w.heap.Reachable (roots w t) o := by
  intro hreachable
  have hkeep : (reachMarks w t).keeps v = true := by
    apply keeps_iff.mpr
    intro o' ho'
    rw [ho] at ho'
    cases ho'
    exact reachable_marked hsound.heap hsound.roots hreachable
  rw [(mem_dying.mp hv).2] at hkeep
  cases hkeep

end Marking

theorem live_cycle {t c : ThreadId} {w : World} (hsound : SoundWorld t w)
    (h : w.heap.Reachable (roots w t) (.thread c))
    (hlive : w.heap.threads.live c.index = true) :
    (cycle w t).heap.threads.live c.index = true := by
  have hhas : (sweepMarks w t).threads.getD c.index false = true := has_sweepMarks hsound h
  show ((sweepStore w.heap.threads (sweepMarks w t).threads).find? c.index).isSome = true
  rw [find?_sweepStore, if_pos hhas]
  exact hlive

theorem find?_userdata_of_marked {t : ThreadId} {u : UserDataId} {w : World}
    (h : (sweepMarks w t).has (.userdata u) = true) :
    (cycle w t).heap.userdata.find? u.index = w.heap.userdata.find? u.index := by
  have hhas : (sweepMarks w t).userdata.getD u.index false = true := h
  show (sweepStore w.heap.userdata (sweepMarks w t).userdata).find? u.index = _
  rw [find?_sweepStore, if_pos hhas]

/-- A reachable table goes through three passes over the weak tables, and is not swept. -/
theorem cleared_cycle {t : ThreadId} {i : TableId} {w : World} (hsound : SoundWorld t w)
    (h : w.heap.Reachable (roots w t) (.table i)) {T : Table}
    (hT : w.heap.tables.find? i.index = some T) :
    exists T', (cycle w t).heap.tables.find? i.index = some T' ∧ Cleared T T' := by
  let h₁ := w.heap.clearValues (reachMarks w t)
  let h₂ := h₁.clearKeys (sweepMarks w t)
  rcases cleared_clearValues w.heap (reachMarks w t) hT with ⟨T₁, hT₁, hclear₁⟩
  rcases cleared_clearKeys h₁ (sweepMarks w t) hT₁ with ⟨T₂, hT₂, hclear₂⟩
  rcases cleared_clearValues h₂ (sweepMarks w t) hT₂ with ⟨T₃, hT₃, hclear₃⟩
  refine ⟨T₃, ?_, (hclear₁.trans hclear₂).trans hclear₃⟩
  have hhas : (sweepMarks w t).tables.getD i.index false = true := has_sweepMarks hsound h
  show (sweepStore (h₂.clearValues (sweepMarks w t)).tables (sweepMarks w t).tables).find? i.index = _
  rw [find?_sweepStore, if_pos hhas]
  exact hT₃

/-- A whole cycle is one of the things that a collector may do. -/
theorem cycle_collected {t : ThreadId} {w : World} (hsound : SoundWorld t w) :
    Collected t w (cycle w t) := by
  constructor
  case registry_eq => rfl
  case closing_eq => rfl
  case events_eq => rfl
  case due =>
    refine ⟨dying w t, rfl, ?_, fun v hv => (mem_finalizable_cycle.mp hv).1, ?_⟩
    · intro v hv
      cases hkeep : (reachMarks w t).keeps v with
      | true => exact Or.inl (mem_finalizable_cycle.mpr ⟨hv, hkeep⟩)
      | false => exact Or.inr (mem_dying.mpr ⟨hv, hkeep⟩)
    · exact fun v hv => ⟨(mem_dying.mp hv).1, fun o ho => unreachable_of_dying hsound hv ho⟩
  case table =>
    intro i T hreachable hT
    rcases cleared_cycle hsound hreachable hT with ⟨T', hT', hclear⟩
    exact ⟨T', hT', hclear.plain_eq, hclear.find_eq⟩
  case userdata_noted =>
    exact fun u hu => find?_userdata_of_marked (has_sweepMarks_noted hsound hu rfl)
  case userdata =>
    intro i
    show (sweepStore w.heap.userdata (sweepMarks w t).userdata).find? i = _ ∨
      (sweepStore w.heap.userdata (sweepMarks w t).userdata).find? i = _
    rw [find?_sweepStore]
    split
    · exact Or.inl rfl
    · exact Or.inr rfl
  case userdata_next =>
    show (sweepStore w.heap.userdata (sweepMarks w t).userdata).items.size = _
    exact Array.size_mapIdx

/-- A collector that also leaves the userdata alone that is reachable. -/
structure Swept (t : ThreadId) (w w' : World) : Prop extends Collected t w w' where
  userdata_reachable : forall u, w.heap.Reachable (roots w t) (.userdata u) ->
    w'.heap.userdata.find? u.index = w.heap.userdata.find? u.index

theorem cycle_swept {t : ThreadId} {w : World} (hsound : SoundWorld t w) :
    Swept t w (cycle w t) :=
  { cycle_collected hsound with userdata_reachable := fun _ hu => find?_userdata_of_marked (has_sweepMarks hsound hu) }

end Machine

end LuaHost
