import Mathlib.Algebra.Group.Nat.Defs
import LuaHost.Proofs.Machine.Contents

/-!
# The border of a table without holes

Where a border is looked for depends on the sizes of the parts of a table and
on earlier searches.  A table whose integer keys are the numbers from one to
`n` has no other border than `n`, so every search ends there.
-/

namespace LuaHost

namespace Table

/-!
# Integer keys without holes
-/

/-- The integer keys with a value are the numbers from one to `n`. -/
structure Filled (t : Table) (n : Nat) : Prop where
  lt_limit : n < 2 ^ 63 - 1
  iff : forall i : Int64, t.getInt i ≠ .nil ↔ 1 ≤ i.toInt ∧ i.toInt ≤ n

theorem Filled.present_iff {t : Table} {n : Nat} (h : t.Filled n) {i : Nat} (hpos : 1 ≤ i)
    (hlt : i < 2 ^ 63) : t.present i = true ↔ i ≤ n := by
  have hiff := h.iff (Int64.ofNat i)
  rw [Int64.toInt_ofNat_of_lt hlt] at hiff
  unfold present
  rw [Bool.not_eq_true', Bool.eq_false_iff, ne_eq, isNil_eq_true]
  refine hiff.trans ?_
  omega

theorem Filled.present_eq_false {t : Table} {n : Nat} (h : t.Filled n) {i : Nat} (hn : n < i)
    (hlt : i < 2 ^ 63) : t.present i = false := by
  rw [Bool.eq_false_iff, ne_eq, h.present_iff (by omega) hlt]
  omega

/-!
# Searches
-/

theorem Filled.searchBetween_eq {t : Table} {n : Nat} (h : t.Filled n) :
    forall (fuel i j : Nat), i ≤ n -> n < j -> j < 2 ^ 63 -> j ≤ i + 2 ^ fuel ->
      t.searchBetween i j fuel = n := by
  intro fuel
  induction fuel with
  | zero =>
      intro i j hi hj _ hgap
      unfold searchBetween
      omega
  | succ fuel ih =>
      intro i j hi hj hlt hgap
      have hpow : 2 ^ (fuel + 1) = 2 ^ fuel * 2 := Nat.pow_succ 2 fuel
      unfold searchBetween
      by_cases hwide : j - i > 1
      · rw [if_pos hwide]
        dsimp only
        by_cases hmiddle : (i + j) / 2 ≤ n
        · rw [if_pos ((h.present_iff (by omega) (by omega)).mpr hmiddle)]
          exact ih _ _ hmiddle hj hlt (by omega)
        · rw [if_neg (by rw [h.present_iff (by omega) (by omega)]; exact hmiddle)]
          exact ih _ _ hi (by omega) (by omega) (by omega)
      · rw [if_neg hwide]
        omega

/-- The doubling ends before the fuel does, because indices are bounded. -/
theorem Filled.searchUnbound_eq {t : Table} {n : Nat} (h : t.Filled n) :
    forall (fuel i j : Nat), i ≤ n -> 1 ≤ j -> j < 2 ^ 63 -> 2 ^ 65 ≤ j * 2 ^ fuel ->
      t.searchUnbound i j fuel = n := by
  have hlast : lastIndex = 2 ^ 63 - 1 := rfl
  have hlimit := h.lt_limit
  intro fuel
  induction fuel with
  | zero =>
      intro i j _ _ hlt hfuel
      omega
  | succ fuel ih =>
      intro i j hi hpos hlt hfuel
      unfold searchUnbound
      by_cases hpresent : j ≤ n
      · rw [if_pos ((h.present_iff hpos hlt).mpr hpresent)]
        by_cases hhalf : j ≤ lastIndex / 2
        · rw [if_pos hhalf]
          have hdouble : j * 2 ^ (fuel + 1) = j * 2 * 2 ^ fuel := by
            rw [Nat.pow_succ 2 fuel, Nat.mul_comm (2 ^ fuel) 2, Nat.mul_assoc]
          rw [hdouble] at hfuel
          exact ih j (j * 2) hpresent (by omega) (by omega) hfuel
        · rw [if_neg hhalf, if_neg (by rw [h.present_iff (by omega) (by omega)]; omega)]
          exact h.searchBetween_eq 64 _ _ hpresent (by omega) (by omega) (by omega)
      · rw [if_neg (by rw [h.present_iff hpos hlt]; exact hpresent)]
        exact h.searchBetween_eq 64 _ _ hi (by omega) hlt (by omega)

theorem Filled.borderOutside_eq {t : Table} {n m : Nat} (h : t.Filled n) (hm : m ≤ n)
    (hsmall : m ≤ 2 ^ 31) (hroom : t.capacity ≠ 0) : t.borderOutside m = n := by
  have hlimit := h.lt_limit
  have hcapacity : (t.capacity == 0) = false := beq_false_of_ne hroom
  unfold borderOutside
  rw [hcapacity, Bool.false_or]
  by_cases hnext : m + 1 ≤ n
  · rw [(h.present_iff (by omega) (by omega)).mpr hnext, if_neg (by decide)]
    by_cases hzero : m = 0
    · rw [if_pos (beq_iff_eq.mpr hzero)]
      exact h.searchUnbound_eq 64 1 2 (by omega) (by omega) (by omega) (by omega)
    · rw [if_neg (fun hm' => hzero (beq_iff_eq.mp hm'))]
      exact h.searchUnbound_eq 64 m (m * 2) hm (by omega) (by omega) (by omega)
  · rw [h.present_eq_false (by omega) (by omega), if_pos (by decide)]
    omega

theorem searchBetween_lt (t : Table) : forall (fuel i j : Nat), i < j -> t.searchBetween i j fuel < j := by
  intro fuel
  induction fuel with
  | zero =>
      intro i j hij
      exact hij
  | succ fuel ih =>
      intro i j hij
      unfold searchBetween
      split
      · dsimp only
        split
        · exact ih _ _ (by omega)
        · exact Nat.lt_trans (ih _ _ (by omega)) (by omega)
      · exact hij

/-!
# Sizes of the parts
-/

/-- The parts are of the sizes that a table gets, and there is room outside the
array. -/
structure Laid (t : Table) : Prop where
  array_le : t.arraySize ≤ 2 ^ 31
  hint_le : t.hint ≤ 2 ^ 31
  roomy : t.capacity ≠ 0

/-- Every search in a table without holes finds its one border. -/
theorem Filled.borderAndHint_fst {t : Table} {n : Nat} (h : t.Filled n) (hlaid : t.Laid) :
    t.borderAndHint.1 = n := by
  have harray := hlaid.array_le
  have hhint := hlaid.hint_le
  unfold borderAndHint
  dsimp only
  -- the hint lies behind the border, at it or before it
  by_cases hpast : n < t.hint
  · rw [h.present_eq_false hpast (by omega), if_pos (by simp; omega)]
    dsimp only
    by_cases hbefore : 2 ≤ t.hint ∧ t.hint - 1 ≤ n
    · rw [(h.present_iff (by omega) (by omega)).mpr hbefore.2, if_pos (by simp; omega)]
      omega
    · have hnot : ¬(decide (t.hint ≥ 2) && t.present (t.hint - 1)) = true := by
        intro hand
        rw [Bool.and_eq_true, decide_eq_true_eq] at hand
        exact hbefore ⟨hand.1, (h.present_iff (by omega) (by omega)).mp hand.2⟩
      rw [if_neg hnot]
      exact h.searchBetween_eq 64 _ _ (by omega) hpast (by omega) (by omega)
  · have hfirst : ¬(decide (t.hint > 0) && !t.present t.hint) = true := by
      intro hand
      rw [Bool.and_eq_true, decide_eq_true_eq, Bool.not_eq_true'] at hand
      rw [(h.present_iff (by omega) (by omega)).mpr (by omega)] at hand
      exact Bool.noConfusion hand.2
    rw [if_neg hfirst]
    -- the border is not before the hint: it is next to it, in the array, or behind the array
    by_cases hinside : t.hint < t.arraySize
    · rw [if_pos hinside]
      by_cases hnext : t.hint + 1 ≤ n
      · rw [(h.present_iff (by omega) (by omega)).mpr hnext, if_neg (by decide)]
        by_cases hlast : t.arraySize ≤ n
        · rw [(h.present_iff (by omega) (by omega)).mpr hlast, if_neg (by decide)]
          exact h.borderOutside_eq hlast harray hlaid.roomy
        · rw [h.present_eq_false (by omega) (by omega), if_pos (by decide)]
          exact h.searchBetween_eq 64 _ _ (by omega) (by omega) (by omega) (by omega)
      · rw [h.present_eq_false (by omega) (by omega), if_pos (by decide)]
        show t.hint = n
        omega
    · rw [if_neg hinside]
      exact h.borderOutside_eq (by omega) hhint hlaid.roomy

/-- A search leaves its hint within the sizes of the parts. -/
theorem borderAndHint_snd_le (t : Table) : t.borderAndHint.2 ≤ max t.hint t.arraySize := by
  unfold borderAndHint
  dsimp only
  split
  · next hpast =>
      have hpos : 0 < t.hint := by
        rw [Bool.and_eq_true, decide_eq_true_eq] at hpast
        exact hpast.1
      have hbetween := t.searchBetween_lt 64 0 t.hint hpos
      split
      · dsimp only
        split <;> omega
      · dsimp only
        split <;> omega
  · split
    · next hinside =>
        have hbetween := t.searchBetween_lt 64 t.hint t.arraySize hinside
        split
        · exact Nat.le_max_left _ _
        · split
          · dsimp only
            omega
          · exact Nat.le_max_left _ _
    · exact Nat.le_max_left _ _

theorem Laid.search {t : Table} (h : t.Laid) : Laid { t with hint := t.borderAndHint.2 } :=
  ⟨h.array_le, Nat.le_trans t.borderAndHint_snd_le (Nat.max_le.mpr ⟨h.hint_le, h.array_le⟩),
    h.roomy⟩

theorem chooseArray_fst_le (slices : Array Nat) (total : Nat) :
    forall (fuel i size below : Nat) (best : Nat × Nat), size * 2 ^ fuel ≤ 2 ^ 32 ->
      best.1 ≤ 2 ^ 31 -> (chooseArray slices total i size below best fuel).1 ≤ 2 ^ 31 := by
  intro fuel
  induction fuel with
  | zero =>
      intro i size below best _ hbest
      exact hbest
  | succ fuel ih =>
      intro i size below best hsize hbest
      have hdouble : size * 2 ^ (fuel + 1) = size * 2 * 2 ^ fuel := by
        rw [Nat.pow_succ 2 fuel, Nat.mul_comm (2 ^ fuel) 2, Nat.mul_assoc]
      rw [hdouble] at hsize
      unfold chooseArray
      split
      · exact hbest
      · refine ih _ _ _ _ hsize ?_
        split
        · have hpow : 1 ≤ 2 ^ fuel := Nat.one_le_two_pow
          have hle : size * 2 * 1 ≤ size * 2 * 2 ^ fuel := Nat.mul_le_mul_left _ hpow
          show size ≤ 2 ^ 31
          omega
        · exact hbest

theorem powerAbove_ne_zero {n : Nat} (h : n ≠ 0) : powerAbove n ≠ 0 := by
  unfold powerAbove
  split
  · exact h
  · rw [Nat.one_shiftLeft]
    exact Nat.ne_of_gt (Nat.two_pow_pos _)

theorem outside_pos (p : Value → Bool) :
    forall (es : List (Value × Value)) (n : Nat),
      n ≤ es.foldl (fun n e => if p e.1 then n else n + 1) n ∧
        ((exists e, e ∈ es ∧ p e.1 = false) ->
          n < es.foldl (fun n e => if p e.1 then n else n + 1) n) := by
  intro es
  induction es with
  | nil =>
      intro n
      refine ⟨Nat.le_refl n, ?_⟩
      intro hex
      rcases hex with ⟨e, hmem, _⟩
      exact absurd hmem List.not_mem_nil
  | cons e es ih =>
      intro n
      rw [List.foldl_cons]
      cases hp : p e.1 with
      | true =>
          rw [if_pos rfl]
          refine ⟨(ih n).1, ?_⟩
          intro hex
          rcases hex with ⟨e', hmem, hp'⟩
          rcases List.mem_cons.mp hmem with rfl | hmem
          · rw [hp] at hp'
            exact Bool.noConfusion hp'
          · exact (ih n).2 ⟨e', hmem, hp'⟩
      | false =>
          rw [if_neg Bool.false_ne_true]
          have hle := (ih (n + 1)).1
          exact ⟨by omega, fun _ => by omega⟩

/-- With an entry that no array holds, there is room outside the array. -/
theorem capacity_resize_ne_zero {t : Table} {s : Bytes} (h : t.getStr s ≠ .nil)
    (arraySize nodeCount : Nat) : (t.resize arraySize nodeCount).capacity ≠ 0 := by
  have hkept : (t.resize arraySize nodeCount).find (.str s) ≠ .nil := by
    rw [find_resize]
    exact h
  apply powerAbove_ne_zero
  have hentry : exists v, (Value.str s, v) ∈ (t.contents.filter fun _ v => !v.isNil).toList := by
    cases hfound : (t.contents.filter fun _ v => !v.isNil)[Value.str s]? with
    | none =>
        rw [find_contents, Std.TreeMap.getD_eq_getD_getElem?] at hkept
        exact absurd (congrArg (fun o : Option Value => o.getD .nil) hfound) hkept
    | some v => exact ⟨v, Std.TreeMap.mem_toList_iff_getElem?_eq_some.mpr hfound⟩
  rcases hentry with ⟨v, hmem⟩
  rw [Std.TreeMap.foldl_eq_foldl_toList]
  have hpos := (outside_pos
    (inArray { t with contents := t.contents.filter fun _ v => !v.isNil, arraySize,
                      hint := arraySize }) _ 0).2 ⟨_, hmem, rfl⟩
  omega

theorem Laid.rehash {t : Table} {s : Bytes} (h : t.getStr s ≠ .nil) (k : Value) :
    (t.rehash k).Laid := by
  unfold Table.rehash
  dsimp only
  refine ⟨?_, ?_, capacity_resize_ne_zero h _ _⟩
  · exact chooseArray_fst_le _ _ 32 0 1 0 (0, 0) (by omega) (by omega)
  · exact chooseArray_fst_le _ _ 32 0 1 0 (0, 0) (by omega) (by omega)

/-- A write keeps the sizes of the parts within bounds. -/
theorem Laid.put {t : Table} (hlaid : t.Laid) {s : Bytes} (h : t.getStr s ≠ .nil) (k v : Value) :
    (t.put k v).Laid := by
  have hrehash := Laid.rehash h k
  unfold Table.put
  by_cases harray : t.inArray k
  · rw [if_pos harray]
    split <;> exact ⟨hlaid.array_le, hlaid.hint_le, hlaid.roomy⟩
  · rw [if_neg harray]
    split
    · exact ⟨hlaid.array_le, hlaid.hint_le, hlaid.roomy⟩
    · split
      · exact hlaid
      · by_cases hroom : t.nodes < t.capacity
        · simp only [if_pos hroom]
          split <;> exact ⟨hlaid.array_le, hlaid.hint_le, hlaid.roomy⟩
        · simp only [if_neg hroom]
          split <;> exact ⟨hrehash.array_le, hrehash.hint_le, hrehash.roomy⟩

end Table

end LuaHost
