import LuaHost.Proofs.Machine.KeyOrder

/-!
# What a machine table holds

A table is a finite map whatever the sizes of its parts: choosing new sizes
changes no entry, and a write changes the entry of its key alone.
-/

namespace LuaHost

namespace Table

/-!
# Lookup after a change of the map
-/

theorem find_contents (t : Table) (k : Value) : t.find k = t.contents.getD k .nil := rfl

theorem getD_insert (m : Std.TreeMap Value Value Value.keyCmp) (k v k' : Value) :
    (m.insert k v).getD k' .nil = if k = k' then v else m.getD k' .nil := by
  rw [Std.TreeMap.getD_insert]
  by_cases h : k = k'
  · rw [if_pos h, if_pos (Std.LawfulEqCmp.compare_eq_iff_eq.mpr h)]
  · rw [if_neg h, if_neg (fun h' => h (Std.LawfulEqCmp.compare_eq_iff_eq.mp h'))]

theorem getD_erase (m : Std.TreeMap Value Value Value.keyCmp) (k k' : Value) :
    (m.erase k).getD k' .nil = if k = k' then .nil else m.getD k' .nil := by
  rw [Std.TreeMap.getD_erase]
  by_cases h : k = k'
  · rw [if_pos h, if_pos (Std.LawfulEqCmp.compare_eq_iff_eq.mpr h)]
  · rw [if_neg h, if_neg (fun h' => h (Std.LawfulEqCmp.compare_eq_iff_eq.mp h'))]

/-- Forgetting removed keys changes no lookup. -/
theorem getD_filter (m : Std.TreeMap Value Value Value.keyCmp) (k : Value) :
    (m.filter fun _ v => !v.isNil).getD k .nil = m.getD k .nil := by
  rw [Std.TreeMap.getD_eq_getD_getElem?, Std.TreeMap.getD_eq_getD_getElem?,
    Std.TreeMap.getElem?_filter']
  cases h : m[k]? with
  | none => rfl
  | some v =>
      cases v with
      | nil => rfl
      | _ => rfl

theorem find_resize (t : Table) (arraySize nodeCount : Nat) (k : Value) :
    (t.resize arraySize nodeCount).find k = t.find k :=
  getD_filter t.contents k

theorem find_rehash (t : Table) (k k' : Value) : (t.rehash k).find k' = t.find k' :=
  find_resize t _ _ k'

theorem find_withRoom (narr nrec : Nat) (k : Value) : (withRoom narr nrec).find k = .nil :=
  Std.TreeMap.getD_emptyc

/-!
# Lookup after a write
-/

theorem find_put (t : Table) (k v k' : Value) :
    (t.put k v).find k' = if k = k' then v else t.find k' := by
  have hinsert : forall s : Table, (forall k', s.find k' = t.find k') ->
      (s.contents.insert k v).getD k' .nil = if k = k' then v else t.find k' := by
    intro s hs
    rw [getD_insert, ← hs k']
    rfl
  unfold put
  -- wherever the value is put, the contents are the old ones with the one key changed
  by_cases harray : t.inArray k
  · rw [if_pos harray]
    by_cases hnil : v.isNil
    · rw [if_pos hnil]
      have hv : v = .nil := by
        cases v with
        | nil => rfl
        | _ => cases hnil
      rw [hv]
      exact getD_erase t.contents k k'
    · rw [if_neg hnil]
      exact hinsert t fun _ => rfl
  · rw [if_neg harray]
    by_cases hcontains : t.contents.contains k
    · rw [if_pos hcontains]
      exact hinsert t fun _ => rfl
    · rw [if_neg hcontains]
      by_cases hnil : v.isNil
      · rw [if_pos hnil]
        have hv : v = .nil := by
          cases v with
          | nil => rfl
          | _ => cases hnil
        by_cases hk : k = k'
        · rw [if_pos hk, ← hk, hv]
          exact Std.TreeMap.getD_eq_fallback_of_contains_eq_false (Bool.eq_false_iff.mpr hcontains)
        · rw [if_neg hk]
      · rw [if_neg hnil]
        by_cases hroom : t.nodes < t.capacity
        · simp only [if_pos hroom, if_neg harray]
          exact hinsert t fun _ => rfl
        · simp only [if_neg hroom]
          split
          · exact hinsert (t.rehash k) (find_rehash t k)
          · exact hinsert (t.rehash k) (find_rehash t k)

theorem find_set (t : Table) (k v k' : Value) :
    (t.set k v).find k' = if k.asKey = k' then v else t.find k' :=
  find_put t k.asKey v k'

theorem metatable_put (t : Table) (k v : Value) : (t.put k v).metatable = t.metatable := by
  unfold put
  split
  · split <;> rfl
  · split
    · rfl
    · split
      · rfl
      · by_cases hroom : t.nodes < t.capacity
        · simp only [if_pos hroom]
          split <;> rfl
        · simp only [if_neg hroom]
          split <;> rfl

/-!
# Entries
-/

theorem isNil_eq_true {v : Value} : v.isNil = true ↔ v = .nil := by
  cases v with
  | nil => exact ⟨fun _ => rfl, fun _ => rfl⟩
  | _ => exact ⟨nofun, nofun⟩

theorem mem_entries {t : Table} {k v : Value} : (k, v) ∈ t.entries ↔ t.find k = v ∧ v ≠ .nil := by
  unfold entries
  rw [List.mem_filter, Std.TreeMap.mem_toList_iff_getElem?_eq_some, find_contents,
    Std.TreeMap.getD_eq_getD_getElem?]
  constructor
  · intro h
    rw [h.1]
    refine ⟨rfl, ?_⟩
    intro hv
    rw [hv] at h
    exact Bool.false_ne_true h.2
  · intro h
    cases hk : t.contents[k]? with
    | none =>
        rw [hk] at h
        exact absurd h.1.symm h.2
    | some w =>
        rw [hk] at h
        have hw : w = v := h.1
        refine ⟨by rw [hw], ?_⟩
        simp only [Bool.not_eq_true', Bool.eq_false_iff, ne_eq, isNil_eq_true]
        exact h.2

theorem entries_key_inj {t : Table} {e f : Value × Value} (he : e ∈ t.entries)
    (hf : f ∈ t.entries) (h : e.1 = f.1) : e = f := by
  rcases e with ⟨k, v⟩
  rcases f with ⟨k', v'⟩
  have hk : k = k' := h
  have hv := (mem_entries.mp he).1
  have hv' := (mem_entries.mp hf).1
  rw [hk] at hv
  rw [hk, ← hv, ← hv']

end Table

end LuaHost
