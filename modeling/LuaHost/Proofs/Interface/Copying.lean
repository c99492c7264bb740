import LuaHost.Proofs.Interface.Room
import LuaHost.Proofs.Interface.Unfolding

/-!
# Copying out of the machine

Copying reads the heap and makes room for the traversal.  No script runs, no
table changes, and the values on the stack are the ones that were there.
-/

namespace LuaHost

namespace Interface

open Machine

/-- Two worlds that differ in the log, in how much room there is on one stack,
and in the free slots of that stack. -/
structure OnlyRoom (t : ThreadId) (w w' : World) : Prop where
  rest_eq : w' = (w.setThread t (w'.thread t)).setLog w'.log
  top_eq : (w'.thread t).top = (w.thread t).top
  below : (w.thread t).SameBelow (w.thread t).top (w'.thread t)
  room_le : (w'.thread t).room ≤ maxStack

theorem OnlyRoom.refl {w : World} (t : ThreadId) (hroom : (w.thread t).room ≤ maxStack) :
    OnlyRoom t w w := by
  refine ⟨?_, rfl, Thread.SameBelow.refl _ _, hroom⟩
  rw [World.setThread_thread]
  rfl

theorem OnlyRoom.values_eq {t : ThreadId} {w w' : World} (h : OnlyRoom t w w') :
    (w'.thread t).values = (w.thread t).values :=
  h.below.values_eq h.top_eq

theorem OnlyRoom.tables_eq {t : ThreadId} {w w' : World} (h : OnlyRoom t w w') :
    w'.heap.tables = w.heap.tables := by
  rw [h.rest_eq]
  rfl

theorem returns_checkIndex {w : World} {t : ThreadId} {idx : Int}
    (h : validIndex (w.thread t).height idx = true) : Returns (checkIndex t idx) w () w := by
  refine Returns.bind (returns_height w t) ?_
  rw [h]
  exact Returns.pure _ w

theorem returns_copyTableOut {w : World} {t : ThreadId} (hlive : w.liveThread t = true)
    {i : TableId} (hroom : (w.thread t).Room (2 * (w.heap.copyTable i).depth)) :
    exists w', OnlyRoom t w w' ∧ Returns (copyTableOut t i) w (w.heap.copyTable i).table w' := by
  rcases returns_needRoom hlive hroom with ⟨th, htop, hbelow, hle, hrun⟩
  let w' := (w.setThread t th).setLog ((w.heap.copyTable i).log ++ w.log)
  have hth : w'.thread t = th := World.thread_setThread hlive th
  refine ⟨w', ?_, ?_⟩
  · constructor
    · rw [hth]
      rfl
    · rw [hth, htop]
    · rw [hth]
      exact hbelow
    · rw [hth]
      exact hle
  · refine Returns.bind (returns_get w) ?_
    refine Returns.bind hrun ?_
    exact Returns.bind (returns_modify _ _) (Returns.pure _ _)

theorem returns_value?_top {w : World} {t : ThreadId} {n : Nat} (h : (w.thread t).top = n + 1) :
    Returns (value? t (-1)) w (some ((w.thread t).slot n)) w := by
  have hplace : Returns (place t (-1)) w (.slot n) w := by
    refine Returns.bind (returns_thread w t) ?_
    rw [if_neg (by decide), if_pos (by decide), h, show (((n + 1 : Nat) : Int) + -1).toNat = n by omega]
    exact Returns.pure _ w
  refine Returns.bind hplace ?_
  exact Returns.bind (Returns.bind (returns_thread w t) (Returns.pure _ w)) (Returns.pure _ w)

theorem returns_toHost_table {w w' : World} {t : ThreadId} {idx : Int} {i : TableId}
    {c : Data.Table} (hindex : validIndex (w.thread t).height idx = true)
    (hvalue : Returns (value? t idx) w (some (.table i)) w)
    (hcopy : Returns (copyTableOut t i) w c w') :
    Returns (toHost t idx) w (some (.table c)) w' := by
  refine Returns.bind (returns_checkIndex hindex) ?_
  refine Returns.bind hvalue ?_
  exact Returns.bind hcopy (Returns.pure _ _)

theorem returns_copyTable {w w' : World} {t : ThreadId} {idx : Int} {i : TableId}
    {c : Data.Table} (hindex : validIndex (w.thread t).height idx = true)
    (hvalue : Returns (value? t idx) w (some (.table i)) w)
    (hcopy : Returns (copyTableOut t i) w c w') : Returns (copyTable t idx) w c w' := by
  have hkind : Returns (typeOf t idx) w .table w :=
    Returns.bind (returns_checkIndex hindex) (Returns.bind hvalue (Returns.pure _ w))
  refine Returns.bind hkind ?_
  exact Returns.bind (returns_value hvalue) hcopy

/-- Copying the table at an index, alone or as a value, returns its acyclic
unfolding, the one copy there is in whatever order the entries are met. -/
theorem copying_unfolds {w : World} {t : ThreadId} {idx : Int} {i : TableId}
    (hlive : w.liveThread t = true) (hindex : validIndex (w.thread t).height idx = true)
    (hvalue : Returns (value? t idx) w (some (.table i)) w)
    (hapart : forall j, Within w.heap.entriesOf i j -> KeysApart (w.heap.entriesOf j))
    (hroom : (w.thread t).Room (2 * (w.heap.copyTable i).depth)) :
    exists c w',
      Returns (copyTable t idx) w c w' ∧
      Returns (toHost t idx) w (some (.table c)) w' ∧
      Unfolds w.heap.entriesOf [] i c ∧
      (forall c', Unfolds w.heap.entriesOf [] i c' -> c' = c) ∧
      (forall order, (forall j, (order j).Perm (w.heap.entriesOf j)) ->
        (TableCopy.traverse order (w.heap.tables.items.size + 1) [] i).table = c) ∧
      w'.heap.tables = w.heap.tables ∧
      (w'.thread t).values = (w.thread t).values ∧
      OnlyRoom t w w' := by
  have hunfolds := w.heap.copyTable_unfolds hapart
  rcases returns_copyTableOut hlive hroom with ⟨w', honly, hcopy⟩
  refine ⟨(w.heap.copyTable i).table, w', returns_copyTable hindex hvalue hcopy,
    returns_toHost_table hindex hvalue hcopy, hunfolds, ?_, ?_, honly.tables_eq,
    honly.values_eq, honly⟩
  · intro c' hc'
    exact hc'.unique hunfolds
  · intro order horder
    exact (w.heap.traverse_unfolds horder hapart).unique hunfolds

/-!
# A table that holds itself
-/

/-- A stack with one value, the table `0`, which holds itself and a number. -/
def selfHolding : World :=
  { heap :=
      { tables :=
          { items := #[some ((Table.set {} (.int 1) (.table ⟨0⟩)).set (.bool true) (.int 7))] }
        threads := { items := #[some (Thread.fresh.push (.table ⟨0⟩))] } } }

theorem entriesOf_selfHolding :
    selfHolding.heap.entriesOf ⟨0⟩ = [(.int 1, .table ⟨0⟩), (.bool true, .int 7)] := by
  decide +kernel

theorem within_selfHolding {j : TableId} (h : Within selfHolding.heap.entriesOf ⟨0⟩ j) :
    j = ⟨0⟩ := by
  induction h with
  | self => rfl
  | entry _ hstep ih =>
      subst ih
      rw [entriesOf_selfHolding] at hstep
      simp only [List.mem_cons, Prod.mk.injEq, List.not_mem_nil] at hstep
      rcases hstep with ⟨_, h⟩ | ⟨_, h⟩ | h <;> cases h
      rfl

theorem keysApart_selfHolding {j : TableId} (h : Within selfHolding.heap.entriesOf ⟨0⟩ j) :
    KeysApart (selfHolding.heap.entriesOf j) := by
  rw [within_selfHolding h, entriesOf_selfHolding]
  intro e f s he hf hes hfs
  simp only [List.mem_cons, List.not_mem_nil, or_false] at he hf
  rcases he with he | he <;> rcases hf with hf | hf <;> subst he <;> subst hf
  · rfl
  · exact absurd (hes.trans hfs.symm) (by decide)
  · exact absurd (hes.trans hfs.symm) (by decide)
  · rfl

theorem copying_unfolds_selfHolding :
    exists c w',
      Returns (copyTable ⟨0⟩ 1) selfHolding c w' ∧
      Unfolds selfHolding.heap.entriesOf [] ⟨0⟩ c ∧
      w'.heap.tables = selfHolding.heap.tables ∧
      (w'.thread ⟨0⟩).values = [.table ⟨0⟩] := by
  have hdepth : (selfHolding.heap.copyTable ⟨0⟩).depth = 1 := by decide +kernel
  have hroom : (selfHolding.thread ⟨0⟩).Room (2 * (selfHolding.heap.copyTable ⟨0⟩).depth) := by
    rw [hdepth]
    exact ⟨by decide, by decide⟩
  have hvalue : Returns (value? ⟨0⟩ 1) selfHolding (some (.table ⟨0⟩)) selfHolding := fun _ => rfl
  rcases copying_unfolds rfl (by decide) hvalue (fun _ => keysApart_selfHolding) hroom with
    ⟨c, w', hcopy, _, hunfolds, _, _, htables, hvalues, _⟩
  exact ⟨c, w', hcopy, hunfolds, htables, hvalues⟩

end Interface

end LuaHost
