import Mathlib.Algebra.Group.Nat.Defs
import LuaHost.Proofs.Data.Entries

/-!
# The two parts of a host table

A key has one place: a position inside the array part, or an entry of the map
part.  The layout of a table says that the array has no holes, that the map
holds no key that the array should hold, and that stored doubles are in their
normal form.  A write changes the lookup at its key and nowhere else, and a
table with this layout is determined by its lookups.
-/

namespace LuaHost

/-- The form in which a key is stored.  Integers that are not positive are
stored as doubles, and a `NaN` is not stored. -/
def Key.stored? : Key → Option TableKey
  | .bool b => some (.bool b)
  | .string s => some (.string s)
  | .integer k =>
    if 1 ≤ k.toInt then some (.integer k)
    else (FloatKey.ofDouble (Double.ofInt64 k)).map .number
  | .float x => (FloatKey.ofDouble x).map .number

namespace Data

/-- A value as an entry: `nil` is no entry. -/
def Value.present? : Value → Option Value
  | .nil => none
  | v => some v

theorem Value.present?_of_ne {v : Value} (h : v ≠ .nil) : v.present? = some v := by
  cases v with
  | nil => exact absurd rfl h
  | _ => rfl

namespace Table

/-!
# Positions
-/

/-- The offset of a stored key in an array part of `n` elements. -/
def offset? (n : Nat) : TableKey → Option Nat
  | .integer k => if 1 ≤ k.toInt ∧ k.toInt ≤ n then some (k.toInt - 1).toNat else none
  | _ => none

theorem offset?_integer (n : Nat) (k : Int64) :
    offset? n (.integer k) =
      if 1 ≤ k.toInt ∧ k.toInt ≤ n then some (k.toInt - 1).toNat else none := rfl

theorem toInt_ofNat {i : Nat} (h : i < 2 ^ 63) : (Int64.ofNat i).toInt = i :=
  Int64.toInt_ofNat_of_lt h

theorem positionKey_of_toInt {k : Int64} {i : Nat} (h : k.toInt = i) :
    TableKey.integer k = positionKey i := by
  unfold positionKey
  rw [← Int64.ofInt_eq_ofNat, ← h, Int64.ofInt_toInt]

theorem offset?_some {n i : Nat} {k : TableKey} (h : offset? n k = some i) :
    i < n ∧ k = positionKey (i + 1) := by
  cases k with
  | integer k =>
      rw [offset?_integer] at h
      by_cases hk : 1 ≤ k.toInt ∧ k.toInt ≤ n
      · rw [if_pos hk] at h
        have hi : (k.toInt - 1).toNat = i := Option.some.inj h
        exact ⟨by omega, positionKey_of_toInt (by omega)⟩
      · rw [if_neg hk] at h
        cases h
  | bool b => cases h
  | string s => cases h
  | number x => cases h

theorem offset?_positionKey {n i : Nat} (hi : i + 1 < 2 ^ 63) :
    offset? n (positionKey (i + 1)) = if i < n then some i else none := by
  unfold positionKey
  rw [offset?_integer, toInt_ofNat hi]
  by_cases h : i < n
  · rw [if_pos h, if_pos (by omega)]
    congr 1
    omega
  · rw [if_neg h, if_neg (by omega)]

theorem positionKey_inj {i j : Nat} (hi : i < 2 ^ 63) (hj : j < 2 ^ 63)
    (h : positionKey i = positionKey j) : i = j := by
  unfold positionKey at h
  injection h with h
  have hint := congrArg Int64.toInt h
  rw [toInt_ofNat hi, toInt_ofNat hj] at hint
  exact_mod_cast hint

/-- The place of a stored key. -/
def slotFor (n : Nat) (s : TableKey) : Slot :=
  match offset? n s with
  | some i => .array i
  | none => if s = positionKey (n + 1) then .append else .map s

theorem slotFor_integer {n : Nat} (hn : n < 2 ^ 63) {k : Int64} (h : 1 ≤ k.toInt) :
    slotFor n (.integer k) =
      if k.toInt ≤ n then .array (k.toInt - 1).toNat
      else if k.toInt = n + 1 then .append
      else .map (.integer k) := by
  unfold slotFor
  rw [offset?_integer]
  by_cases h2 : k.toInt ≤ n
  · rw [if_pos ⟨h, h2⟩, if_pos h2]
  · rw [if_neg (fun hk => h2 hk.2), if_neg h2]
    by_cases h3 : k.toInt = n + 1
    · rw [if_pos h3, if_pos (positionKey_of_toInt (by omega))]
    · have hk : TableKey.integer k ≠ positionKey (n + 1) := by
        intro hk
        unfold positionKey at hk
        injection hk with hk
        by_cases hlast : n + 1 < 2 ^ 63
        · rw [hk, toInt_ofNat hlast] at h3
          exact h3 (by omega)
        · have hn' : n + 1 = 2 ^ 63 := by omega
          rw [hk, hn'] at h
          exact absurd h (by decide)
      rw [if_neg h3, if_neg hk]

theorem slotOf_eq {n : Nat} (hn : n < 2 ^ 63) (k : Key) : slotOf n k = k.stored?.map (slotFor n) := by
  cases k with
  | bool b => rfl
  | string s => rfl
  | float x =>
      show (FloatKey.ofDouble x).map (.map ∘ .number) =
        ((FloatKey.ofDouble x).map .number).map (slotFor n)
      cases FloatKey.ofDouble x <;> rfl
  | integer k =>
      show (if 1 ≤ k.toInt then _ else _) = ((if 1 ≤ k.toInt then _ else _) : Option _).map _
      by_cases h : 1 ≤ k.toInt
      · rw [if_pos h, if_pos h, Option.map_some, slotFor_integer hn h]
        split
        · rfl
        · split <;> rfl
      · rw [if_neg h, if_neg h]
        cases FloatKey.ofDouble (Double.ofInt64 k) <;> rfl

/-!
# Lookup and layout
-/

/-- What a table holds under a stored key. -/
def lookup (t : Table) (k : TableKey) : Option Value :=
  match offset? t.narr k with
  | some i => t.array[i]?
  | none => Entries.find? k t.map

/-- The layout of a table whose map part keeps integer keys that lie at least
`gap` behind the end of the array. -/
structure Layout (gap : Nat) (t : Table) : Prop where
  size_lt : t.narr < 2 ^ 63
  array_present : forall v, v ∈ t.array -> v ≠ .nil
  sorted : Entries.Sorted t.map
  map_present : forall e, e ∈ t.map -> e.2 ≠ .nil
  integer_far : forall k v, (.integer k, v) ∈ t.map -> (t.narr : Int) + gap ≤ k.toInt
  number_stored : forall x v, (.number x, v) ∈ t.map -> FloatKey.ofDouble x.value = some x

/-- The layout that all operations keep: the key behind the array is absent. -/
abbrev WellFormed (t : Table) : Prop := Layout 2 t

theorem wellFormed_empty : WellFormed empty where
  size_lt := by decide
  array_present := by
    intro v hv
    cases Array.not_mem_empty v hv
  sorted := List.Pairwise.nil
  map_present := by
    intro e he
    cases he
  integer_far := by
    intro k v h
    cases h
  number_stored := by
    intro x v h
    cases h

theorem lookup_of_offset {t : Table} {k : TableKey} {i : Nat}
    (h : offset? t.narr k = some i) : t.lookup k = t.array[i]? := by
  unfold lookup
  rw [h]

theorem lookup_of_no_offset {t : Table} {k : TableKey} (h : offset? t.narr k = none) :
    t.lookup k = Entries.find? k t.map := by
  unfold lookup
  rw [h]

theorem lookup_empty (k : TableKey) : empty.lookup k = none := by
  cases ho : offset? empty.narr k with
  | some i => rw [lookup_of_offset ho]; rfl
  | none => rw [lookup_of_no_offset ho]; rfl

theorem lookup_ne_nil {gap : Nat} {t : Table} (ht : Layout gap t) {k : TableKey} {v : Value}
    (h : t.lookup k = some v) : v ≠ .nil := by
  cases ho : offset? t.narr k with
  | some i =>
      rw [lookup_of_offset ho] at h
      exact ht.array_present v (Array.mem_of_getElem? h)
  | none =>
      rw [lookup_of_no_offset ho] at h
      exact ht.map_present (k, v) (Entries.mem_of_find? h)

/-- The map part holds no key that has an offset, nor any up to `gap` behind. -/
theorem find?_position_none {gap : Nat} {t : Table} (ht : Layout gap t) {i : Nat}
    (hi : i < t.narr + gap) (hlt : i < 2 ^ 63) : Entries.find? (positionKey i) t.map = none := by
  cases h : Entries.find? (positionKey i) t.map with
  | none => rfl
  | some v =>
      have hfar := ht.integer_far _ v (Entries.mem_of_find? h)
      rw [toInt_ofNat hlt] at hfar
      omega

/-- Also when the position behind the array is past the last integer. -/
theorem find?_behind_none {t : Table} (ht : WellFormed t) :
    Entries.find? (positionKey (t.narr + 1)) t.map = none := by
  by_cases hlt : t.narr + 1 < 2 ^ 63
  · exact find?_position_none ht (by omega) hlt
  · cases hf : Entries.find? (positionKey (t.narr + 1)) t.map with
    | none => rfl
    | some v =>
        have hfar := ht.integer_far _ v (Entries.mem_of_find? hf)
        have hmax := (Int64.ofNat (t.narr + 1)).toInt_lt
        omega

theorem get_eq_lookup {t : Table} (ht : WellFormed t) (k : Key) :
    t.get k = k.stored?.bind t.lookup := by
  unfold get
  rw [slotOf_eq ht.size_lt]
  cases k.stored? with
  | none => rfl
  | some s =>
      simp only [Option.map_some, Option.bind_some, slotFor]
      cases ho : offset? t.narr s with
      | some i => rw [lookup_of_offset ho]
      | none =>
          simp only
          rw [lookup_of_no_offset ho]
          by_cases hs : s = positionKey (t.narr + 1)
          · rw [if_pos hs, hs, find?_behind_none ht]
          · rw [if_neg hs]

/-- A table with the layout is determined by its lookups. -/
theorem ext_lookup {t t' : Table} (ht : WellFormed t) (ht' : WellFormed t')
    (h : forall k, t.lookup k = t'.lookup k) : t = t' := by
  -- the array ends where the first position is absent, which is a matter of lookups
  have hle : forall {t t' : Table}, WellFormed t -> WellFormed t' ->
      (forall k, t.lookup k = t'.lookup k) -> t'.narr ≤ t.narr := by
    intro t t' ht ht' h
    by_contra hlt
    have hsize := ht'.size_lt
    have hk := h (positionKey (t.narr + 1))
    rw [lookup_of_no_offset (by rw [offset?_positionKey (by omega), if_neg (by omega)]),
      find?_position_none ht (by omega) (by omega),
      lookup_of_offset (i := t.narr) (by
        rw [offset?_positionKey (by omega), if_pos (by omega)])] at hk
    have hpos : t.narr < t'.array.size := Nat.lt_of_not_le hlt
    rw [Array.getElem?_eq_getElem hpos] at hk
    cases hk
  have hnarr : t.narr = t'.narr :=
    Nat.le_antisymm (hle ht' ht fun k => (h k).symm) (hle ht ht' h)
  have harray : t.array = t'.array := by
    apply Array.ext_getElem?
    intro i
    by_cases hi : i < t.narr
    · have hsize := ht.size_lt
      have hk := h (positionKey (i + 1))
      rw [lookup_of_offset (i := i) (by rw [offset?_positionKey (by omega), if_pos hi]),
        lookup_of_offset (i := i) (by
          rw [offset?_positionKey (by omega), if_pos (hnarr ▸ hi)])] at hk
      exact hk
    · have hi' : ¬ i < t'.narr := by rwa [hnarr] at hi
      rw [Array.getElem?_eq_none (Nat.le_of_not_lt hi),
        Array.getElem?_eq_none (Nat.le_of_not_lt hi')]
  -- inside the array both maps are silent, and outside the lookups are those of the maps
  have hmap : t.map = t'.map := by
    apply Entries.eq_of_find?_eq ht.sorted ht'.sorted
    intro k
    cases ho : offset? t.narr k with
    | none =>
        have hk := h k
        rw [lookup_of_no_offset ho, lookup_of_no_offset (hnarr ▸ ho)] at hk
        exact hk
    | some i =>
        have hoff := offset?_some ho
        have hsize := ht.size_lt
        rw [hoff.2, find?_position_none ht (by omega) (by omega),
          find?_position_none ht' (by omega) (by omega)]
  rcases t with ⟨a, m⟩
  rcases t' with ⟨a', m'⟩
  have ha : a = a' := harray
  have hm : m = m' := hmap
  rw [ha, hm]

end Table

end Data

end LuaHost
