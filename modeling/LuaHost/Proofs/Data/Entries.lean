import LuaHost.Data.Value
import Mathlib.Data.List.Basic
import Std.Data.TreeMap

/-!
# The map part of a host table

The map part is a list in strict key order.  Keys are totally ordered, lookup
after a write or a removal is lookup in the older list except at the key
concerned, and two ordered lists with the same lookups are the same list.
-/

namespace LuaHost

namespace TableKey

/-!
# The order of stored keys
-/

theorem cmp_swap (a b : TableKey) : cmp a b = (cmp b a).swap := by
  cases a <;> cases b <;> first
    | rfl
    | exact @Std.OrientedCmp.eq_swap _ compare _ _ _

theorem cmp_isLE_trans {a b c : TableKey}
    (hab : (cmp a b).isLE) (hbc : (cmp b c).isLE) : (cmp a c).isLE := by
  cases a <;> cases b <;> cases c <;> first
    | rfl
    | exact @Std.TransCmp.isLE_trans _ compare _ _ _ _ hab hbc
    | (cases hab; done)
    | cases hbc

theorem eq_of_cmp_eq {a b : TableKey} (h : cmp a b = .eq) : a = b := by
  cases a with
  | bool x =>
      cases b with
      | bool y => rw [@Std.LawfulEqCmp.eq_of_compare _ compare _ x y h]
      | _ => cases h
  | string x =>
      cases b with
      | string y => rw [@Std.LawfulEqCmp.eq_of_compare _ compare _ x y h]
      | _ => cases h
  | integer x =>
      cases b with
      | integer y => rw [@Std.LawfulEqCmp.eq_of_compare _ compare _ x y h]
      | _ => cases h
  | number x =>
      cases b with
      | number y =>
          rcases x with ⟨⟨x⟩⟩
          rcases y with ⟨⟨y⟩⟩
          rw [@Std.LawfulEqCmp.eq_of_compare _ compare _ x y h]
      | _ => cases h

instance : Std.TransCmp cmp where
  eq_swap := cmp_swap _ _
  isLE_trans := cmp_isLE_trans

instance : Std.LawfulEqCmp cmp where
  compare_self := by
    intro a
    cases a <;> exact @Std.ReflCmp.compare_self _ compare _ _
  eq_of_compare := eq_of_cmp_eq

theorem cmp_lt_trans {a b c : TableKey}
    (hab : cmp a b = .lt) (hbc : cmp b c = .lt) : cmp a c = .lt :=
  Std.TransCmp.lt_trans hab hbc

theorem cmp_lt_of_gt {a b : TableKey} (h : cmp a b = .gt) : cmp b a = .lt := by
  rw [cmp_swap, h]
  rfl

theorem cmp_self (a : TableKey) : cmp a a = .eq := Std.ReflCmp.compare_self

theorem ne_of_cmp_lt {a b : TableKey} (h : cmp a b = .lt) : a ≠ b := by
  intro hab
  rw [hab, cmp_self] at h
  cases h

theorem ne_of_cmp_gt {a b : TableKey} (h : cmp a b = .gt) : a ≠ b :=
  fun hab => ne_of_cmp_lt (cmp_lt_of_gt h) hab.symm

end TableKey

namespace Data.Table.Entries

/-- The keys of a map part stand in strict order. -/
def Sorted (m : Entries) : Prop :=
  m.Pairwise fun e f => TableKey.cmp e.1 f.1 = .lt

/-!
# Lookup after a write or a removal
-/

@[simp] theorem find?_nil (k : TableKey) : find? k [] = none := rfl

theorem find?_cons (k k' : TableKey) (v : Value) (m : Entries) :
    find? k ((k', v) :: m) = if k' = k then some v else find? k m := rfl

theorem find?_insert (k k' : TableKey) (v : Value) (m : Entries) :
    find? k' (insert k v m) = if k = k' then some v else find? k' m := by
  induction m with
  | nil => rfl
  | cons e m ih =>
      rcases e with ⟨k₁, v₁⟩
      unfold insert
      cases hcmp : TableKey.cmp k k₁ with
      | lt => rfl
      | eq =>
          have hk : k = k₁ := TableKey.eq_of_cmp_eq hcmp
          subst hk
          simp only [find?_cons]
          split <;> rfl
      | gt =>
          have hne := TableKey.ne_of_cmp_gt hcmp
          simp only [find?_cons, ih]
          by_cases hk : k = k'
          · have hk' : ¬ k₁ = k' := fun h => hne (hk.trans h.symm)
            rw [if_neg hk', if_pos hk, if_pos hk]
          · rw [if_neg hk, if_neg hk]

theorem mem_of_find? {k : TableKey} {v : Value} {m : Entries}
    (h : find? k m = some v) : (k, v) ∈ m := by
  induction m with
  | nil => cases h
  | cons e m ih =>
      rcases e with ⟨k₁, v₁⟩
      rw [find?_cons] at h
      split at h
      · next hk =>
          cases h
          subst hk
          exact List.mem_cons_self
      · exact List.mem_cons_of_mem _ (ih h)

theorem find?_eq_none {k : TableKey} {m : Entries}
    (h : forall e, e ∈ m -> e.1 ≠ k) : find? k m = none := by
  induction m with
  | nil => rfl
  | cons e m ih =>
      rcases e with ⟨k₁, v₁⟩
      rw [find?_cons, if_neg (h (k₁, v₁) List.mem_cons_self)]
      exact ih fun e he => h e (List.mem_cons_of_mem _ he)

theorem find?_head_tail {k : TableKey} {v : Value} {m : Entries}
    (h : Sorted ((k, v) :: m)) : find? k m = none := by
  apply find?_eq_none
  intro e he hk
  exact TableKey.ne_of_cmp_lt ((List.pairwise_cons.mp h).1 e he) hk.symm

theorem find?_of_mem {k : TableKey} {v : Value} {m : Entries}
    (hm : Sorted m) (h : (k, v) ∈ m) : find? k m = some v := by
  induction m with
  | nil => cases h
  | cons e m ih =>
      rcases e with ⟨k₁, v₁⟩
      rcases List.mem_cons.mp h with heq | htail
      · cases heq
        rw [find?_cons, if_pos rfl]
      · have hlt := (List.pairwise_cons.mp hm).1 (k, v) htail
        rw [find?_cons, if_neg (TableKey.ne_of_cmp_lt hlt)]
        exact ih (List.pairwise_cons.mp hm).2 htail

theorem find?_erase {m : Entries} (hm : Sorted m) (k k' : TableKey) :
    find? k' (erase k m) = if k = k' then none else find? k' m := by
  induction m with
  | nil =>
      show none = _
      split <;> rfl
  | cons e m ih =>
      rcases e with ⟨k₁, v₁⟩
      unfold erase
      split
      · next hk =>
          subst hk
          by_cases hk' : k₁ = k'
          · subst hk'
            rw [if_pos rfl, find?_head_tail hm]
          · rw [find?_cons, if_neg hk', if_neg hk']
      · next hk =>
          rw [find?_cons, find?_cons, ih (List.pairwise_cons.mp hm).2]
          by_cases hk' : k = k'
          · have hne : ¬ k₁ = k' := fun h => hk (h.trans hk'.symm)
            rw [if_neg hne, if_pos hk', if_pos hk']
          · rw [if_neg hk', if_neg hk']

/-!
# Order and membership
-/

theorem mem_insert {k : TableKey} {v : Value} {m : Entries} {e : TableKey × Value}
    (h : e ∈ insert k v m) : e = (k, v) ∨ e ∈ m := by
  induction m with
  | nil => exact Or.inl (List.mem_singleton.mp h)
  | cons e₁ m ih =>
      rcases e₁ with ⟨k₁, v₁⟩
      unfold insert at h
      split at h
      · exact List.mem_cons.mp h
      · rcases List.mem_cons.mp h with heq | htail
        · exact Or.inl heq
        · exact Or.inr (List.mem_cons_of_mem _ htail)
      · rcases List.mem_cons.mp h with heq | htail
        · exact Or.inr (heq ▸ List.mem_cons_self)
        · rcases ih htail with heq | hmem
          · exact Or.inl heq
          · exact Or.inr (List.mem_cons_of_mem _ hmem)

theorem mem_erase {k : TableKey} {m : Entries} {e : TableKey × Value}
    (h : e ∈ erase k m) : e ∈ m := by
  induction m with
  | nil => exact h
  | cons e₁ m ih =>
      rcases e₁ with ⟨k₁, v₁⟩
      unfold erase at h
      split at h
      · exact List.mem_cons_of_mem _ h
      · rcases List.mem_cons.mp h with heq | htail
        · exact heq ▸ List.mem_cons_self
        · exact List.mem_cons_of_mem _ (ih htail)

theorem sorted_insert {m : Entries} (hm : Sorted m) (k : TableKey) (v : Value) :
    Sorted (insert k v m) := by
  induction m with
  | nil => exact List.pairwise_singleton _ _
  | cons e m ih =>
      rcases e with ⟨k₁, v₁⟩
      have hhead := (List.pairwise_cons.mp hm).1
      have htail := (List.pairwise_cons.mp hm).2
      unfold insert
      cases hcmp : TableKey.cmp k k₁ with
      | lt =>
          refine List.pairwise_cons.mpr ⟨?_, hm⟩
          intro e he
          rcases List.mem_cons.mp he with heq | hmem
          · exact heq ▸ hcmp
          · exact TableKey.cmp_lt_trans hcmp (hhead e hmem)
      | eq =>
          have hk : k = k₁ := TableKey.eq_of_cmp_eq hcmp
          subst hk
          exact List.pairwise_cons.mpr ⟨hhead, htail⟩
      | gt =>
          refine List.pairwise_cons.mpr ⟨?_, ih htail⟩
          intro e he
          rcases mem_insert he with heq | hmem
          · exact heq ▸ TableKey.cmp_lt_of_gt hcmp
          · exact hhead e hmem

theorem sorted_erase {m : Entries} (hm : Sorted m) (k : TableKey) : Sorted (erase k m) := by
  induction m with
  | nil => exact hm
  | cons e m ih =>
      rcases e with ⟨k₁, v₁⟩
      have hhead := (List.pairwise_cons.mp hm).1
      have htail := (List.pairwise_cons.mp hm).2
      unfold erase
      split
      · exact htail
      · exact List.pairwise_cons.mpr ⟨fun e he => hhead e (mem_erase he), ih htail⟩

theorem length_erase {k : TableKey} {v : Value} {m : Entries} (h : find? k m = some v) :
    (erase k m).length + 1 = m.length := by
  induction m with
  | nil => cases h
  | cons e m ih =>
      rcases e with ⟨k₁, v₁⟩
      rw [find?_cons] at h
      unfold erase
      by_cases hk : k₁ = k
      · rw [if_pos hk, List.length_cons]
      · rw [if_neg hk] at h
        rw [if_neg hk, List.length_cons, List.length_cons, ih h]

/-- An ordered map part is determined by its lookups. -/
theorem eq_of_find?_eq {m m' : Entries} (hm : Sorted m) (hm' : Sorted m')
    (h : forall k, find? k m = find? k m') : m = m' := by
  have hnodup : forall {m : Entries}, Sorted m -> m.Nodup := by
    intro m hm
    refine List.Pairwise.imp ?_ hm
    intro e f hlt hef
    exact TableKey.ne_of_cmp_lt hlt (congrArg Prod.fst hef)
  have hmem : forall e : TableKey × Value, e ∈ m ↔ e ∈ m' := by
    intro e
    constructor
    · intro he
      exact mem_of_find? ((h e.1).symm.trans (find?_of_mem hm he))
    · intro he
      exact mem_of_find? ((h e.1).trans (find?_of_mem hm' he))
  have hperm : m.Perm m' := (List.perm_ext_iff_of_nodup (hnodup hm) (hnodup hm')).mpr hmem
  refine hperm.eq_of_pairwise ?_ hm hm'
  intro e f _ _ hef hfe
  exact absurd rfl (TableKey.ne_of_cmp_lt (TableKey.cmp_lt_trans hef hfe))

end Data.Table.Entries

end LuaHost
