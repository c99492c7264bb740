import LuaHost.Proofs.Data.Commuting
import Mathlib.Data.List.Pairwise

/-!
# Collecting what a table lists

A table lists its array under the positions and its map under the keys that the
values of the stored keys are.  Every one of these keys is stored again in the
form it came from, whatever has been written before.  So the entries are enough
to build the table, and since their keys are different, any order of them will
do.
-/

namespace LuaHost

/-- The value of a stored key that is no `NaN` is the key that it stands for. -/
theorem TableKey.ofValue_toValue {s : TableKey} (hs : s.toKey.isNaN = false) :
    Key.ofValue s.toValue = some s.toKey := by
  cases s with
  | bool b => rfl
  | string s => rfl
  | integer i => rfl
  | number x =>
      have hx : x.value.isNaN = false := hs
      show (if x.value.isNaN then none else some (Key.float x.value)) = some (.float x.value)
      rw [hx]
      rfl

namespace Data.Table

/-!
# The entries
-/

/-- What a host goes through: the elements of the array under their positions,
and the entries of the map under the keys that the values of the stored keys
are, where they are keys. -/
def listing (t : Table) : List (Option Key × Value) :=
  t.array.toList.mapIdx (fun i v => (some (.integer (Int64.ofNat (i + 1))), v)) ++
    t.map.map fun e => (Key.ofValue e.1.toValue, e.2)

/-- The entries of a table under the keys that its stored keys stand for. -/
def entries (t : Table) : List (Key × Value) :=
  t.array.toList.mapIdx (fun i v => ((positionKey (i + 1)).toKey, v)) ++
    t.map.map fun e => (e.1.toKey, e.2)

theorem map_fst_entries (t : Table) :
    t.entries.map Prod.fst = t.storedKeys.map TableKey.toKey := by
  unfold entries storedKeys
  rw [List.map_append, List.map_append, List.map_map, List.map_map, List.map_map]
  congr 1
  apply List.ext_getElem
  · rw [List.length_map, List.length_mapIdx, List.length_map, List.length_range]
    exact Array.length_toList
  · intro i hi hi'
    rw [List.getElem_map, List.getElem_mapIdx, List.getElem_map, List.getElem_range]
    rfl

theorem pairwise_entries {t : Table} (ht : WellFormed t) :
    t.entries.Pairwise fun e f => ¬ e.1.Same f.1 :=
  List.pairwise_map.mp (map_fst_entries t ▸ pairwise_toKey_storedKeys ht)

theorem lookup_of_mem_entries {t : Table} (ht : WellFormed t) {e : Key × Value}
    (he : e ∈ t.entries) : exists s, e.1.stored? = some s ∧ t.lookup s = some e.2 := by
  rcases List.mem_append.mp he with he | he
  · rcases List.mem_mapIdx.mp he with ⟨i, hi, rfl⟩
    have hi : i < t.narr := hi
    have hsize := ht.size_lt
    have hs : positionKey (i + 1) ∈ t.storedKeys :=
      List.mem_append_left _ (List.mem_map.mpr ⟨i, List.mem_range.mpr hi, rfl⟩)
    refine ⟨positionKey (i + 1), stored?_toKey ht hs, ?_⟩
    rw [lookup_of_offset (i := i) (by rw [offset?_positionKey (by omega), if_pos hi])]
    exact Array.getElem?_eq_getElem hi
  · rcases List.mem_map.mp he with ⟨⟨s, v⟩, hv, rfl⟩
    have hs : s ∈ t.storedKeys := List.mem_append_right _ (List.mem_map_of_mem hv)
    exact ⟨s, stored?_toKey ht hs, lookup_of_mem_map ht hv⟩

theorem mem_entries_of_lookup {t : Table} (ht : WellFormed t) {s : TableKey} {v : Value}
    (hv : t.lookup s = some v) : exists e, e ∈ t.entries ∧ e.1.stored? = some s ∧ e.2 = v := by
  have hs : s ∈ t.storedKeys := (mem_storedKeys ht).mpr (Option.isSome_iff_exists.mpr ⟨v, hv⟩)
  have hkey : s.toKey ∈ t.entries.map Prod.fst :=
    map_fst_entries t ▸ List.mem_map_of_mem hs
  rcases List.mem_map.mp hkey with ⟨e, he, heq⟩
  have hstored : e.1.stored? = some s := heq ▸ stored?_toKey ht hs
  rcases lookup_of_mem_entries ht he with ⟨s', hs', hlookup⟩
  rw [hstored] at hs'
  cases hs'
  exact ⟨e, he, hstored, Option.some.inj (hlookup.symm.trans hv)⟩

theorem listing_eq {t : Table} (ht : WellFormed t) :
    t.listing = t.entries.map fun e => (some e.1, e.2) := by
  unfold listing entries
  rw [List.map_append, List.map_map]
  congr 1
  · rw [List.mapIdx_eq_zipIdx_map, List.mapIdx_eq_zipIdx_map, List.map_map]
    rfl
  · apply List.map_congr_left
    intro e he
    have hs : e.1 ∈ t.storedKeys := List.mem_append_right _ (List.mem_map_of_mem he)
    have hnan : e.1.toKey.isNaN = false := by
      apply Bool.eq_false_iff.mpr
      intro hnan
      have hstored := stored?_toKey ht hs
      rw [Key.stored?_eq_none.mpr hnan] at hstored
      cases hstored
    show (Key.ofValue e.1.toValue, e.2) = (some e.1.toKey, e.2)
    rw [TableKey.ofValue_toValue hnan]

/-!
# Writing them
-/

theorem lookup_foldl_set_of_absent {es : List (Key × Value)} {s : TableKey}
    (hs : forall e, e ∈ es -> e.1.stored? ≠ some s) {t : Table} (ht : WellFormed t) :
    (es.foldl (fun t e => t.set e.1 e.2) t).lookup s = t.lookup s := by
  induction es generalizing t with
  | nil => rfl
  | cons e es ih =>
      have hrest := ih (fun f hf => hs f (List.mem_cons_of_mem e hf)) (wellFormed_set ht e.1 e.2)
      rw [List.foldl_cons, hrest]
      cases hk : e.1.stored? with
      | none => rw [set_of_not_stored ht hk]
      | some s' =>
          have hne : s' ≠ s := fun heq => hs e List.mem_cons_self (heq ▸ hk)
          rw [lookup_set ht hk, if_neg hne]

theorem lookup_foldl_set_of_mem {es : List (Key × Value)}
    (hdifferent : es.Pairwise fun e f => ¬ e.1.Same f.1) {e : Key × Value} (he : e ∈ es)
    {s : TableKey} (hs : e.1.stored? = some s) {t : Table} (ht : WellFormed t) :
    (es.foldl (fun t e => t.set e.1 e.2) t).lookup s = e.2.present? := by
  induction es generalizing t with
  | nil => cases he
  | cons f es ih =>
      rcases List.pairwise_cons.mp hdifferent with ⟨hfirst, hrest⟩
      have hset := wellFormed_set ht f.1 f.2
      rcases List.mem_cons.mp he with rfl | he
      · -- no later entry has its key
        have habsent : forall f, f ∈ es -> f.1.stored? ≠ some s :=
          fun f hf hf' => hfirst f hf (Key.same_iff.mpr ⟨s, hs, hf'⟩)
        rw [List.foldl_cons, lookup_foldl_set_of_absent habsent hset, lookup_set ht hs, if_pos rfl]
      · exact ih hrest he hset

theorem ofEntries_entries {t : Table} (ht : WellFormed t) : ofEntries t.entries = t := by
  apply ext_lookup (wellFormed_foldl_set t.entries wellFormed_empty) ht
  intro s
  cases hs : t.lookup s with
  | some v =>
      rcases mem_entries_of_lookup ht hs with ⟨e, he, hstored, rfl⟩
      rw [lookup_foldl_set_of_mem (pairwise_entries ht) he hstored wellFormed_empty]
      exact Value.present?_of_ne (lookup_ne_nil ht hs)
  | none =>
      rw [lookup_foldl_set_of_absent ?_ wellFormed_empty, lookup_empty]
      intro e he hstored
      rcases lookup_of_mem_entries ht he with ⟨s', hs', hlookup⟩
      rw [hstored] at hs'
      cases hs'
      rw [hs] at hlookup
      cases hlookup

/-- A table of a host can be built from what it lists.  Everything it lists has
a key, under which the table holds the value that is listed with it; no two of
the keys are the same; and collecting the entries in any order makes the same
array and the same map. -/
theorem reached_collected {t : Table} (h : Reached t) :
    exists es : List (Key × Value), t.listing = es.map (fun e => (some e.1, e.2)) ∧
      (forall e, e ∈ es -> t.get e.1 = some e.2) ∧
      es.Pairwise (fun e f => ¬ e.1.Same f.1) ∧
      forall es' : List (Key × Value), es'.Perm es ->
        (ofEntries es').array = t.array ∧ (ofEntries es').map = t.map := by
  have ht := h.wellFormed
  have hdifferent := pairwise_entries ht
  refine ⟨t.entries, listing_eq ht, ?_, hdifferent, ?_⟩
  · intro e he
    rcases lookup_of_mem_entries ht he with ⟨s, hs, hlookup⟩
    rw [get_eq_lookup ht, hs]
    exact hlookup
  · intro es' hperm
    have heq : ofEntries es' = t :=
      (foldl_set_perm hperm.symm hdifferent wellFormed_empty).symm.trans (ofEntries_entries ht)
    exact ⟨congrArg array heq, congrArg map heq⟩

/-- From the last entry to the first: all values wait in the map until the first
position is written, and those behind the gap still wait. -/
theorem reached_collected_gapped :
    Reached gapped ∧
      gapped.listing =
        [(some (.integer 1), .bool true), (some (.integer 3), .bool false),
          (some (.integer 4), .string "d"), (some (.integer 5), .string "e")] ∧
      (ofEntries [(.integer 5, .string "e"), (.integer 4, .string "d"), (.integer 3, .bool false),
        (.integer 1, .bool true)]).map = gapped.map := by
  rcases reached_collected reached_gapped with ⟨es, hlisting, _, _, hcollect⟩
  have hinj : Function.Injective fun e : Key × Value => (some e.1, e.2) := by
    rintro ⟨k, v⟩ ⟨k', v'⟩ heq
    rcases Prod.mk.inj heq with ⟨hk, hv⟩
    exact Prod.ext (Option.some.inj hk) hv
  have hes : [(.integer 1, .bool true), (.integer 3, .bool false), (.integer 4, .string "d"),
      (.integer 5, .string "e")] = es :=
    List.map_injective_iff.mpr hinj hlisting
  exact ⟨reached_gapped, rfl, (hcollect _ (hes ▸ List.reverse_perm [_, _, _, _])).2⟩

end Data.Table

end LuaHost
