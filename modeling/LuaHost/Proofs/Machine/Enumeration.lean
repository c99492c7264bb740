import LuaHost.Proofs.Machine.Contents
import Std.Data.DTreeMap.Lemmas

/-!
# Enumerating a machine table

A traversal asks for the entry after a key, again and again.  Removed keys are
passed over, so that what it meets are the entries of the table, each once and
in their order.
-/

namespace LuaHost

namespace Value

/-!
# Stored forms
-/

theorem asKey_float (x : Double) : (float x).asKey =
    match x.toInt64? with
    | some i => .int i
    | none => .float x :=
  rfl

theorem asKey_integral {x : Double} {i : Int64} (h : x.toInt64? = some i) :
    (float x).asKey = .int i := by
  rw [asKey_float, h]

theorem asKey_fraction {x : Double} (h : x.toInt64? = none) : (float x).asKey = .float x := by
  rw [asKey_float, h]

theorem asKey_asKey (k : Value) : k.asKey.asKey = k.asKey := by
  cases k with
  | float x =>
      cases hx : x.toInt64? with
      | some i =>
          rw [asKey_float, hx]
          rfl
      | none => rw [asKey_float, hx, asKey_float, hx]
  | _ => rfl

theorem asKey_ne_nil {k : Value} (hk : k ≠ .nil) : k.asKey ≠ .nil := by
  cases k with
  | float x =>
      rw [asKey_float]
      cases x.toInt64? <;> exact nofun
  | _ => exact hk

end Value

namespace Table

/-!
# Neighbours in the map
-/

instance : @Std.TransOrd Value ⟨Value.keyCmp⟩ := inferInstanceAs (Std.TransCmp Value.keyCmp)

theorem getEntryGT?_eq_find? (m : Std.TreeMap Value Value Value.keyCmp) (k : Value) :
    m.getEntryGT? k = m.toList.find? fun e => (Value.keyCmp e.1 k).isGT := by
  let _ : Ord Value := ⟨Value.keyCmp⟩
  show Std.DTreeMap.Internal.Impl.Const.getEntryGT? k m.inner.inner =
    (Std.DTreeMap.Internal.Impl.Const.toList m.inner.inner).find? _
  rw [Std.DTreeMap.Internal.Impl.Const.getEntryGT?_eq_map,
    Std.DTreeMap.Internal.Impl.getEntryGT?_eq_find? m.inner.wf.ordered,
    Std.DTreeMap.Internal.Impl.Const.toList_eq_toListModel_map, List.find?_map]
  rfl

theorem minEntry?_eq_head? (m : Std.TreeMap Value Value Value.keyCmp) :
    m.minEntry? = m.toList.head? := by
  let _ : Ord Value := ⟨Value.keyCmp⟩
  show Std.DTreeMap.Internal.Impl.Const.minEntry? m.inner.inner =
    (Std.DTreeMap.Internal.Impl.Const.toList m.inner.inner).head?
  rw [Std.DTreeMap.Internal.Impl.Const.minEntry?_eq_minEntry?,
    Std.DTreeMap.Internal.Impl.minEntry?_eq_minEntry? m.inner.wf.ordered,
    Std.DTreeMap.Internal.Impl.Const.toList_eq_toListModel_map, List.head?_map,
    Std.Internal.List.minEntry?_eq_head? m.inner.wf.ordered]

theorem getEntryGT?_of_append {m : Std.TreeMap Value Value Value.keyCmp}
    {before after : List (Value × Value)} {e : Value × Value}
    (h : m.toList = before ++ e :: after) : m.getEntryGT? e.1 = after.head? := by
  have hsorted : m.toList.Pairwise fun a b => Value.keyCmp a.1 b.1 = .lt :=
    Std.TreeMap.ordered_keys_toList
  rw [h, List.pairwise_append] at hsorted
  rcases hsorted with ⟨_, hafter, hbefore⟩
  have hskip : forall x, x ∈ before -> ¬ (Value.keyCmp x.1 e.1).isGT = true := by
    intro x hx
    rw [hbefore x hx e (List.mem_cons_self ..)]
    exact Bool.false_ne_true
  have hself : ¬ (Value.keyCmp e.1 e.1).isGT = true := by
    rw [show Value.keyCmp e.1 e.1 = .eq from Std.ReflCmp.compare_self]
    exact Bool.false_ne_true
  rw [getEntryGT?_eq_find?, h, List.find?_append, List.find?_eq_none.mpr hskip, Option.none_or,
    List.find?_cons_of_neg (p := fun x : Value × Value => (Value.keyCmp x.1 e.1).isGT) hself]
  cases after with
  | nil => rfl
  | cons f after =>
      have hlt := (List.pairwise_cons.mp hafter).1 f (List.mem_cons_self ..)
      rw [List.find?_cons_of_pos]
      · rfl
      · rw [Std.OrientedCmp.gt_of_lt hlt]
        rfl

/-!
# The next entry
-/

variable {T : Table}

theorem entryAfter_of_append {fuel : Nat} {before after : List (Value × Value)}
    {e : Value × Value} (h : T.contents.toList = before ++ e :: after)
    (hfuel : after.length < fuel) :
    T.entryAfter e.1 fuel = (after.filter fun e => !e.2.isNil).head? := by
  induction after generalizing before e fuel with
  | nil =>
      cases fuel with
      | zero => rfl
      | succ fuel =>
          unfold entryAfter
          rw [getEntryGT?_of_append h]
          rfl
  | cons f after ih =>
      rcases f with ⟨k, v⟩
      cases fuel with
      | zero => cases hfuel
      | succ fuel =>
          unfold entryAfter
          rw [getEntryGT?_of_append h]
          dsimp only [List.head?_cons]
          rw [List.filter_cons]
          cases hv : v.isNil with
          | true =>
              rw [if_pos rfl, Bool.not_true, if_neg Bool.false_ne_true]
              have hplace : T.contents.toList = (before ++ [e]) ++ (k, v) :: after := by
                rw [h, List.append_assoc]
                rfl
              exact ih hplace (Nat.lt_of_succ_lt_succ hfuel)
          | false =>
              rw [if_neg Bool.false_ne_true, Bool.not_false, if_pos rfl]
              rfl

theorem size_contents (T : Table) : T.contents.size = T.contents.toList.length :=
  Std.TreeMap.length_toList.symm

/-- A traversal begins with the first entry. -/
theorem next_nil (T : Table) : T.next .nil = some T.entries.head? := by
  show some T.firstEntry = _
  unfold firstEntry entries
  rw [minEntry?_eq_head?]
  cases hlist : T.contents.toList with
  | nil => rfl
  | cons e after =>
      rcases e with ⟨k, v⟩
      dsimp only [List.head?_cons]
      rw [List.filter_cons]
      cases hv : v.isNil with
      | true =>
          rw [if_pos rfl, Bool.not_true, if_neg Bool.false_ne_true]
          have hfuel : after.length < T.contents.size := by
            rw [size_contents, hlist]
            exact Nat.lt_succ_self _
          have hplace : T.contents.toList = [] ++ (k, v) :: after := hlist
          exact congrArg some (entryAfter_of_append hplace hfuel)
      | false =>
          rw [if_neg Bool.false_ne_true, Bool.not_false, if_pos rfl]
          rfl

/-- The keys of a table are in stored form, as writes put them there. -/
def Stored (T : Table) : Prop := forall e, e ∈ T.entries -> e.1.asKey = e.1 ∧ e.1 ≠ .nil

/-- A traversal goes on from an entry to the one after it. -/
theorem next_entries (hT : T.Stored) {before after : List (Value × Value)} {e : Value × Value}
    (h : T.entries = before ++ e :: after) : T.next e.1 = some after.head? := by
  rcases hT e (by rw [h]; exact List.mem_append_right _ (List.mem_cons_self ..)) with ⟨hkey, hnil⟩
  have hentries : T.contents.toList.filter (fun e => !e.2.isNil) = before ++ e :: after := h
  rcases List.filter_eq_append_iff.mp hentries with ⟨front, back, hlist, _, hback⟩
  rcases List.filter_eq_cons_iff.mp hback with ⟨skipped, rest, rfl, _, _, rfl⟩
  have hplace : T.contents.toList = (front ++ skipped) ++ e :: rest := by
    rw [hlist, List.append_assoc]
  have hcontains : T.contents.contains e.1 = true := by
    rw [Std.TreeMap.contains_iff_mem, Std.TreeMap.mem_iff_isSome_getElem?]
    have hmem : e ∈ T.contents.toList := by
      rw [hplace]
      exact List.mem_append_right _ (List.mem_cons_self ..)
    rw [Std.TreeMap.mem_toList_iff_getElem?_eq_some.mp hmem]
    rfl
  have hfuel : rest.length < T.contents.size + 1 := by
    rw [size_contents, hplace, List.length_append, List.length_cons]
    omega
  have hnext : T.next e.1 = some (T.entryAfter e.1 (T.contents.size + 1)) := by
    unfold next
    split
    · next hfirst => exact absurd hfirst hnil
    · dsimp only
      rw [hkey, hcontains, Bool.or_true, if_pos rfl]
  rw [hnext, entryAfter_of_append hplace hfuel]

/-!
# Keys in stored form
-/

theorem stored_withRoom (narr nrec : Nat) : (withRoom narr nrec).Stored := by
  intro e he
  have hentry := mem_entries.mp he
  rw [find_withRoom] at hentry
  exact absurd hentry.1.symm hentry.2

theorem Stored.set (hT : T.Stored) {k : Value} (hk : k ≠ .nil) (v : Value) :
    (T.set k v).Stored := by
  rintro ⟨k', v'⟩ he
  have hentry := mem_entries.mp he
  rw [find_set] at hentry
  by_cases hsame : k.asKey = k'
  · subst hsame
    exact ⟨k.asKey_asKey, Value.asKey_ne_nil hk⟩
  · rw [if_neg hsame] at hentry
    exact hT _ (mem_entries.mpr hentry)

end Table

end LuaHost
