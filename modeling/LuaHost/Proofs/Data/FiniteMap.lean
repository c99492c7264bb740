import LuaHost.Proofs.Data.Building
import LuaHost.Proofs.Numeric.Equality
import Mathlib.Data.List.Perm.Subperm
import Mathlib.Order.Bounds.Basic

/-!
# Host tables as finite maps

Whatever a host writes to a table, the table is a finite map from keys to values
that are not `nil`: a write changes one key, and the two parts together have one
entry for each key that is present.  The two parts keep their layout, so that
the length of the array is the first border.
-/

namespace LuaHost

/-- A stored key as a caller gives it. -/
def TableKey.toKey : TableKey → Key
  | .bool b => .bool b
  | .string s => .string s
  | .integer i => .integer i
  | .number x => .float x.value

namespace Key

/-!
# When two keys are one
-/

def isNaN : Key → Bool
  | .float x => x.isNaN
  | _ => false

/-- The double that a key stands for; a positive integer stands for itself. -/
def double? : Key → Option Double
  | .integer i => if 1 ≤ i.toInt then none else some (.ofInt64 i)
  | .float x => some x
  | _ => none

/-- The keys that are the same: positive integers are kept apart from doubles,
and every other number is the double that it is equal to. -/
inductive Same : Key → Key → Prop where
  | bool (b : Bool) : Same (.bool b) (.bool b)
  | string (s : String) : Same (.string s) (.string s)
  | position {i : Int64} : 1 ≤ i.toInt -> Same (.integer i) (.integer i)
  | number {k k' : Key} {x y : Double} :
      k.double? = some x -> k'.double? = some y -> x.eq y = true -> Same k k'

theorem stored?_of_double {k : Key} {x : Double} (h : k.double? = some x) :
    k.stored? = (FloatKey.ofDouble x).map .number := by
  cases k with
  | bool b => cases h
  | string s => cases h
  | float y =>
      cases h
      rfl
  | integer i =>
      unfold double? at h
      unfold stored?
      dsimp only at h ⊢
      by_cases hi : 1 ≤ i.toInt
      · rw [if_pos hi] at h
        cases h
      · rw [if_neg hi] at h ⊢
        cases h
        rfl

theorem double_of_stored {k : Key} {f : FloatKey} (h : k.stored? = some (.number f)) :
    exists x, k.double? = some x ∧ FloatKey.ofDouble x = some f := by
  have hnumber : forall x : Double, (FloatKey.ofDouble x).map TableKey.number = some (.number f) ->
      FloatKey.ofDouble x = some f := by
    intro x hx
    rcases Option.map_eq_some_iff.mp hx with ⟨f', hf', heq⟩
    cases heq
    exact hf'
  cases k with
  | bool b => cases h
  | string s => cases h
  | float x => exact ⟨x, rfl, hnumber x h⟩
  | integer i =>
      unfold stored? at h
      unfold double?
      dsimp only at h ⊢
      by_cases hi : 1 ≤ i.toInt
      · rw [if_pos hi] at h
        cases h
      · rw [if_neg hi] at h ⊢
        exact ⟨_, rfl, hnumber _ h⟩

theorem stored_cases {k : Key} {s : TableKey} (h : k.stored? = some s) :
    (exists f, s = .number f) ∨ (k = s.toKey ∧ k.Same k) := by
  have hnumber : forall x : Double, (FloatKey.ofDouble x).map TableKey.number = some s ->
      exists f, s = .number f := by
    intro x hx
    rcases Option.map_eq_some_iff.mp hx with ⟨f, _, rfl⟩
    exact ⟨f, rfl⟩
  cases k with
  | bool b =>
      cases h
      exact Or.inr ⟨rfl, .bool b⟩
  | string t =>
      cases h
      exact Or.inr ⟨rfl, .string t⟩
  | float x => exact Or.inl (hnumber x h)
  | integer i =>
      unfold stored? at h
      dsimp only at h
      by_cases hi : 1 ≤ i.toInt
      · rw [if_pos hi] at h
        cases h
        exact Or.inr ⟨rfl, .position hi⟩
      · rw [if_neg hi] at h
        exact Or.inl (hnumber _ h)

theorem same_iff {k k' : Key} :
    k.Same k' ↔ exists s, k.stored? = some s ∧ k'.stored? = some s := by
  constructor
  · intro h
    cases h with
    | bool b => exact ⟨.bool b, rfl, rfl⟩
    | string s => exact ⟨.string s, rfl, rfl⟩
    | @position i hi => exact ⟨.integer i, if_pos hi, if_pos hi⟩
    | number hx hy heq =>
        rcases FloatKey.ofDouble_eq_iff.mpr heq with ⟨f, hfx, hfy⟩
        refine ⟨.number f, ?_, ?_⟩
        · rw [stored?_of_double hx, hfx]
          rfl
        · rw [stored?_of_double hy, hfy]
          rfl
  · rintro ⟨s, hk, hk'⟩
    by_cases hnumber : exists f, s = .number f
    · rcases hnumber with ⟨f, rfl⟩
      rcases double_of_stored hk with ⟨x, hx, hfx⟩
      rcases double_of_stored hk' with ⟨y, hy, hfy⟩
      exact .number hx hy (FloatKey.ofDouble_eq_iff.mp ⟨f, hfx, hfy⟩)
    · rcases (stored_cases hk).resolve_left hnumber with ⟨heq, hself⟩
      rw [((stored_cases hk').resolve_left hnumber).1, ← heq]
      exact hself

instance (k k' : Key) : Decidable (k.Same k') :=
  decidable_of_iff (k.stored?.isSome ∧ k'.stored? = k.stored?) <| by
    rw [same_iff, Option.isSome_iff_exists]
    constructor
    · rintro ⟨⟨s, hs⟩, heq⟩
      exact ⟨s, hs, heq.trans hs⟩
    · rintro ⟨s, hs, hs'⟩
      exact ⟨⟨s, hs⟩, hs'.trans hs.symm⟩

theorem stored?_eq_none {k : Key} : k.stored? = none ↔ k.isNaN = true := by
  cases k with
  | bool b => exact ⟨nofun, nofun⟩
  | string s => exact ⟨nofun, nofun⟩
  | float x =>
      show (FloatKey.ofDouble x).map TableKey.number = none ↔ x.isNaN = true
      rw [Option.map_eq_none_iff, FloatKey.ofDouble_eq_none]
  | integer i =>
      have hnumber := FloatKey.ofDouble_of_number (Double.isNaN_ofInt64 i)
      unfold stored? isNaN
      dsimp only
      by_cases hi : 1 ≤ i.toInt
      · rw [if_pos hi]
        exact ⟨nofun, nofun⟩
      · rw [if_neg hi, hnumber]
        exact ⟨nofun, nofun⟩

end Key

namespace Data.Table

/-!
# Tables of a host
-/

/-- The tables that a host can have: an empty one, whatever room it was given,
or one made from values or entries, and what writing and pushing make of it.  A
copy of a table is the table. -/
inductive Reached : Table → Prop where
  | empty : Reached .empty
  | ofValues (vs : List Value) : Reached (.ofValues vs)
  | ofEntries (es : List (Key × Value)) : Reached (.ofEntries es)
  | set {t : Table} (k : Key) (v : Value) : Reached t -> Reached (t.set k v)
  | push {t : Table} (v : Value) : Reached t -> Reached (t.push v)

theorem wellFormed_foldl_set (es : List (Key × Value)) {t : Table} (ht : WellFormed t) :
    WellFormed (es.foldl (fun t e => t.set e.1 e.2) t) := by
  induction es generalizing t with
  | nil => exact ht
  | cons e es ih => exact ih (wellFormed_set ht e.1 e.2)

theorem Reached.wellFormed {t : Table} (h : Reached t) : WellFormed t := by
  induction h with
  | empty => exact wellFormed_empty
  | ofValues vs =>
      have hfold : forall t : Table, WellFormed t -> WellFormed (vs.foldl Table.push t) := by
        induction vs with
        | nil => exact fun t ht => ht
        | cons v vs ih => exact fun t ht => ih _ (wellFormed_push ht v)
      exact hfold _ wellFormed_empty
  | ofEntries es => exact wellFormed_foldl_set es wellFormed_empty
  | set k v _ ih => exact wellFormed_set ih k v
  | push v _ ih => exact wellFormed_push ih v

/-!
# Counting keys
-/

/-- The stored keys of all entries: the positions of the array, and the keys of
the map. -/
def storedKeys (t : Table) : List TableKey :=
  (List.range t.narr).map (fun i => positionKey (i + 1)) ++ t.map.map Prod.fst

theorem length_storedKeys (t : Table) : t.storedKeys.length = t.narr + t.nrec := by
  unfold storedKeys
  rw [List.length_append, List.length_map, List.length_range, List.length_map]
  rfl

theorem mem_storedKeys {t : Table} (ht : WellFormed t) {s : TableKey} :
    s ∈ t.storedKeys ↔ (t.lookup s).isSome = true := by
  have hsize := ht.size_lt
  unfold storedKeys
  rw [List.mem_append, List.mem_map, List.mem_map, Option.isSome_iff_exists]
  constructor
  · rintro (⟨i, hi, rfl⟩ | ⟨⟨s', v⟩, hv, rfl⟩)
    · have hi := List.mem_range.mp hi
      rw [lookup_of_offset (i := i) (by rw [offset?_positionKey (by omega), if_pos hi])]
      exact ⟨_, Array.getElem?_eq_getElem hi⟩
    · exact ⟨v, lookup_of_mem_map ht hv⟩
  · rintro ⟨v, hv⟩
    cases ho : offset? t.narr s with
    | some i =>
        have hi := offset?_some ho
        exact Or.inl ⟨i, List.mem_range.mpr hi.1, hi.2.symm⟩
    | none =>
        rw [lookup_of_no_offset ho] at hv
        exact Or.inr ⟨_, Entries.mem_of_find? hv, rfl⟩

theorem nodup_storedKeys {t : Table} (ht : WellFormed t) : t.storedKeys.Nodup := by
  have hsize := ht.size_lt
  refine List.nodup_append.mpr ⟨?_, ?_, ?_⟩
  · refine List.pairwise_map.mpr (List.Pairwise.imp_of_mem ?_ List.nodup_range)
    intro i j hi hj hne heq
    have hi := List.mem_range.mp hi
    have hj := List.mem_range.mp hj
    exact hne (Nat.succ_inj.mp (positionKey_inj (by omega) (by omega) heq))
  · refine List.pairwise_map.mpr (List.Pairwise.imp ?_ ht.sorted)
    exact fun hlt => TableKey.ne_of_cmp_lt hlt
  · rintro s hs s' hs' rfl
    rcases List.mem_map.mp hs with ⟨i, hi, rfl⟩
    rcases List.mem_map.mp hs' with ⟨⟨s, v⟩, hv, heq⟩
    have hi := List.mem_range.mp hi
    have hfind := Entries.find?_of_mem ht.sorted hv
    have heq : s = positionKey (i + 1) := heq
    rw [heq, find?_position_none ht (by omega) (by omega)] at hfind
    cases hfind

theorem stored?_toKey {t : Table} (ht : WellFormed t) {s : TableKey}
    (hs : s ∈ t.storedKeys) : s.toKey.stored? = some s := by
  have hsize := ht.size_lt
  cases s with
  | bool b => rfl
  | string s => rfl
  | integer i =>
      have hpos : 1 ≤ i.toInt := by
        rcases List.mem_append.mp hs with hs | hs
        · rcases List.mem_map.mp hs with ⟨j, hj, heq⟩
          have hj := List.mem_range.mp hj
          unfold positionKey at heq
          injection heq with heq
          rw [← heq, toInt_ofNat (by omega)]
          omega
        · rcases List.mem_map.mp hs with ⟨⟨s, v⟩, hv, rfl⟩
          have hfar := ht.integer_far i v hv
          omega
      exact if_pos hpos
  | number x =>
      have hnormal : FloatKey.ofDouble x.value = some x := by
        rcases List.mem_append.mp hs with hs | hs
        · rcases List.mem_map.mp hs with ⟨j, _, heq⟩
          cases heq
        · rcases List.mem_map.mp hs with ⟨⟨s, v⟩, hv, rfl⟩
          exact ht.number_stored x v hv
      show (FloatKey.ofDouble x.value).map TableKey.number = _
      rw [hnormal]
      rfl

/-- The keys of the entries are all different, also as a caller gives them. -/
theorem pairwise_toKey_storedKeys {t : Table} (ht : WellFormed t) :
    (t.storedKeys.map TableKey.toKey).Pairwise fun k k' => ¬ k.Same k' := by
  refine List.pairwise_map.mpr (List.Pairwise.imp_of_mem ?_ (nodup_storedKeys ht))
  intro s s' hs hs' hne hsame
  rcases Key.same_iff.mp hsame with ⟨s₁, h, h'⟩
  rw [stored?_toKey ht hs] at h
  rw [stored?_toKey ht hs'] at h'
  exact hne (Option.some.inj (h.trans h'.symm))

/-- The lengths of lists of different keys that are present. -/
def keyCounts (t : Table) : Set Nat :=
  { n | exists ks : List Key, ks.length = n ∧ ks.Pairwise (fun k k' => ¬ k.Same k') ∧
    forall k, k ∈ ks -> (t.get k).isSome = true }

theorem storedKeys_of_get {t : Table} (ht : WellFormed t) {k : Key}
    (hk : (t.get k).isSome = true) : exists s, k.stored? = some s ∧ s ∈ t.storedKeys := by
  rw [get_eq_lookup ht] at hk
  cases hs : k.stored? with
  | none =>
      rw [hs] at hk
      cases hk
  | some s =>
      rw [hs] at hk
      exact ⟨s, rfl, (mem_storedKeys ht).mpr hk⟩

/-- There are as many entries as different keys that are present. -/
theorem isGreatest_keyCounts {t : Table} (ht : WellFormed t) :
    IsGreatest t.keyCounts (t.narr + t.nrec) := by
  constructor
  · refine ⟨t.storedKeys.map TableKey.toKey, ?_, pairwise_toKey_storedKeys ht, ?_⟩
    · rw [List.length_map, length_storedKeys]
    · intro k hk
      rcases List.mem_map.mp hk with ⟨s, hs, rfl⟩
      rw [get_eq_lookup ht, stored?_toKey ht hs]
      exact (mem_storedKeys ht).mp hs
  · rintro n ⟨ks, rfl, hpairwise, hpresent⟩
    -- different keys have different stored forms, all of them among the entries
    have hnodup : (ks.filterMap Key.stored?).Nodup := by
      refine List.Pairwise.filterMap _ ?_ hpairwise
      intro k k' hne s hs s' hs' heq
      subst heq
      exact hne (Key.same_iff.mpr ⟨s, hs, hs'⟩)
    have hsubset : ks.filterMap Key.stored? ⊆ t.storedKeys := by
      intro s hs
      rcases List.mem_filterMap.mp hs with ⟨k, hk, hks⟩
      rcases storedKeys_of_get ht (hpresent k hk) with ⟨s', hs', hmem⟩
      rw [hks] at hs'
      cases hs'
      exact hmem
    have hlength : (ks.filterMap Key.stored?).length = ks.length := by
      apply List.filterMap_length_eq_length.mpr
      intro k hk
      rcases storedKeys_of_get ht (hpresent k hk) with ⟨s, hs, _⟩
      rw [hs]
      rfl
    calc ks.length = (ks.filterMap Key.stored?).length := hlength.symm
      _ ≤ t.storedKeys.length := (List.subperm_of_subset hnodup hsubset).length_le
      _ = t.narr + t.nrec := length_storedKeys t

/-!
# The finite map
-/

theorem get_set {t : Table} (ht : WellFormed t) {k : Key} (hk : k.isNaN = false) (v : Value)
    (k' : Key) : (t.set k v).get k' = if k.Same k' then v.present? else t.get k' := by
  rcases Option.ne_none_iff_exists'.mp
    (fun h => Bool.eq_false_iff.mp hk (Key.stored?_eq_none.mp h)) with ⟨s, hs⟩
  rw [get_eq_lookup (wellFormed_set ht k v), get_eq_lookup ht]
  cases hk' : k'.stored? with
  | none =>
      rw [if_neg]
      · rfl
      · intro hsame
        rcases Key.same_iff.mp hsame with ⟨s', _, hs'⟩
        rw [hk'] at hs'
        cases hs'
  | some s' =>
      rw [Option.bind_some, Option.bind_some, lookup_set ht hs]
      by_cases heq : s = s'
      · rw [if_pos heq, if_pos (Key.same_iff.mpr ⟨s, hs, heq ▸ hk'⟩)]
      · rw [if_neg heq, if_neg]
        intro hsame
        rcases Key.same_iff.mp hsame with ⟨s₁, h, h'⟩
        rw [hs] at h
        rw [hk'] at h'
        exact heq (Option.some.inj (h.trans h'.symm))

/-- A table of a host is a finite map.  A write changes what its key holds and
nothing else, a `NaN` is no key, and the two parts have one entry for each key
that is present. -/
theorem reached_finiteMap {t : Table} (h : Reached t) :
    (forall k v k', k.isNaN = false ->
      (t.set k v).get k' = if k.Same k' then v.present? else t.get k') ∧
    (forall k v, k.isNaN = true -> t.set k v = t ∧ t.get k = none) ∧
    IsGreatest t.keyCounts (t.narr + t.nrec) := by
  have ht := h.wellFormed
  refine ⟨fun k v k' hk => get_set ht hk v k', ?_, isGreatest_keyCounts ht⟩
  intro k v hk
  have hnone := Key.stored?_eq_none.mpr hk
  refine ⟨set_of_not_stored ht hnone v, ?_⟩
  rw [get_eq_lookup ht, hnone]
  rfl

/-- Five values, the second of which was removed: the ones behind it wait in the
map. -/
def gapped : Table :=
  (ofValues [.bool true, .string "b", .bool false, .string "d", .string "e"]).set (.integer 2) .nil

theorem reached_gapped : Reached gapped := .set _ _ (.ofValues _)

/-- The gap is closed, the values behind it are found again, and the other key
with the number two is none of them. -/
theorem reached_finiteMap_gapped :
    Reached gapped ∧ gapped.narr = 1 ∧ IsGreatest gapped.keyCounts 4 ∧
      (gapped.set (.integer 2) (.string "x")).get (.integer 2) = some (.string "x") ∧
      (gapped.set (.integer 2) (.string "x")).get (.integer 5) = some (.string "e") ∧
      (gapped.set (.integer 2) (.string "x")).get (.float (.ofInt 2)) = none ∧
      gapped.set (.float .nan) .nil = gapped := by
  rcases reached_finiteMap reached_gapped with ⟨hget, hnan, hcount⟩
  refine ⟨reached_gapped, rfl, hcount, ?_, ?_, ?_, (hnan (.float .nan) .nil rfl).1⟩
  · rw [hget _ _ _ rfl, if_pos (by decide)]
    rfl
  · rw [hget _ _ _ rfl, if_neg (by decide)]
    rfl
  · rw [hget _ _ _ rfl, if_neg (by decide)]
    rfl

/-!
# The layout of the two parts
-/

/-- Neither part of a table holds `nil`, the length of the array is the first
border, the map keeps no key that the array could take, and its doubles are
neither a `NaN` nor the negative zero. -/
theorem reached_layout {t : Table} (h : Reached t) :
    (forall v, v ∈ t.array -> v ≠ .nil) ∧
    (forall k v, (k, v) ∈ t.map -> v ≠ .nil) ∧
    (forall i v, (.integer i, v) ∈ t.map -> (t.narr : Int) + 2 ≤ i.toInt) ∧
    (forall x v, (.number x, v) ∈ t.map -> x.value.isNaN = false ∧ x.value ≠ Double.zero.neg) ∧
    (forall i : Int64, 1 ≤ i.toInt -> i.toInt ≤ t.narr -> (t.get (.integer i)).isSome = true) ∧
    (forall i : Int64, i.toInt = t.narr + 1 ->
      t.get (.integer i) = none ∧ forall v, (.integer i, v) ∉ t.map) := by
  have ht := h.wellFormed
  -- at a position a caller's key is its own stored form
  have hget : forall i : Int64, 1 ≤ i.toInt -> t.get (.integer i) = t.lookup (.integer i) := by
    intro i hi
    rw [get_eq_lookup ht, show (Key.integer i).stored? = some (.integer i) from if_pos hi]
    rfl
  refine ⟨ht.array_present, fun k v hv => ht.map_present (k, v) hv, ht.integer_far, ?_, ?_, ?_⟩
  · intro x v hv
    have hnormal := FloatKey.normal_of_ofDouble (ht.number_stored x v hv)
    refine ⟨hnormal.1, fun hneg => ?_⟩
    have hzero := hnormal.2 (by rw [hneg]; rfl)
    rw [hneg] at hzero
    exact absurd hzero (by decide)
  · intro i hlow hhigh
    rw [hget i hlow, lookup_of_offset (i := (i.toInt - 1).toNat)
      (by rw [offset?_integer, if_pos ⟨hlow, hhigh⟩])]
    have hlt : (i.toInt - 1).toNat < t.array.size := by
      have hnarr : t.narr = t.array.size := rfl
      omega
    rw [Array.getElem?_eq_getElem hlt]
    rfl
  · intro i hi
    have hnone : Entries.find? (.integer i) t.map = none := by
      rw [positionKey_of_toInt (i := t.narr + 1) (by omega)]
      exact find?_behind_none ht
    refine ⟨?_, fun v hv => ?_⟩
    · have hoffset : offset? t.narr (.integer i) = none := by
        rw [offset?_integer, if_neg (by omega)]
      rw [hget i (by omega), lookup_of_no_offset hoffset, hnone]
    · rw [Entries.find?_of_mem ht.sorted hv] at hnone
      cases hnone

theorem reached_layout_gapped :
    Reached gapped ∧ (.integer 3, .bool false) ∈ gapped.map ∧ (gapped.narr : Int) + 2 ≤ 3 ∧
      gapped.get (.integer 2) = none := by
  have hmem : (TableKey.integer 3, Value.bool false) ∈ gapped.map := List.mem_cons_self ..
  rcases reached_layout reached_gapped with ⟨_, _, hfar, _, _, hborder⟩
  exact ⟨reached_gapped, hmem, hfar 3 _ hmem, (hborder 2 rfl).1⟩

end Data.Table

end LuaHost
