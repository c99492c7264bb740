import LuaHost.Proofs.Data.Layout

/-!
# Writes to a host table

Cutting the array moves its tail to the map and pulling keys in moves them
back; neither changes what the table holds.  A write therefore changes the
table at one key, keeps the layout, and commutes with writes to other keys.
-/

namespace LuaHost

namespace Data.Table

/-!
# Changes of one part
-/

theorem lookup_push_array {a : Array Value} {m : Entries} {v : Value}
    (hlt : a.size + 1 < 2 ^ 63) (k : TableKey) :
    lookup (.mk (a.push v) m) k =
      if positionKey (a.size + 1) = k then some v else lookup (.mk a m) k := by
  by_cases hk : positionKey (a.size + 1) = k
  · have hnew : offset? (a.push v).size k = some a.size := by
      rw [← hk, offset?_positionKey hlt, Array.size_push, if_pos (by omega)]
    rw [if_pos hk, @lookup_of_offset (.mk (a.push v) m) k a.size hnew]
    exact Array.getElem?_push_size
  · -- any other key has the offset that it had, or none as before
    have hsame : offset? (a.push v).size k = offset? a.size k := by
      cases hnew : offset? (a.push v).size k with
      | none =>
          cases hold : offset? a.size k with
          | none => rfl
          | some i =>
              have hi := offset?_some hold
              rw [hi.2, offset?_positionKey (by omega), Array.size_push,
                if_pos (by omega)] at hnew
              cases hnew
      | some i =>
          have hi := offset?_some hnew
          rw [Array.size_push] at hi
          have hne : i ≠ a.size := by
            intro h
            exact hk (h ▸ hi.2.symm)
          rw [hi.2, offset?_positionKey (by omega), if_pos (by omega)]
    rw [if_neg hk]
    cases hold : offset? a.size k with
    | none =>
        rw [@lookup_of_no_offset (.mk (a.push v) m) k (hsame.trans hold),
          @lookup_of_no_offset (.mk a m) k hold]
        rfl
    | some i =>
        rw [@lookup_of_offset (.mk (a.push v) m) k i (hsame.trans hold),
          @lookup_of_offset (.mk a m) k i hold]
        have hi := (offset?_some hold).1
        show (a.push v)[i]? = a[i]?
        rw [Array.getElem?_push, if_neg (by omega)]

theorem lookup_erase_map {a : Array Value} {m : Entries} (hm : Entries.Sorted m) {k : TableKey}
    (hk : offset? a.size k = none) (k' : TableKey) :
    lookup (.mk a (Entries.erase k m)) k' = if k = k' then none else lookup (.mk a m) k' := by
  cases ho : offset? a.size k' with
  | none =>
      rw [@lookup_of_no_offset (.mk a (Entries.erase k m)) k' ho, @lookup_of_no_offset (.mk a m) k' ho]
      exact Entries.find?_erase hm k k'
  | some i =>
      have hne : k ≠ k' := by
        intro h
        rw [h, ho] at hk
        cases hk
      rw [if_neg hne]
      rw [@lookup_of_offset (.mk a (Entries.erase k m)) k' i ho, @lookup_of_offset (.mk a m) k' i ho]
      rfl

theorem lookup_insert_map {a : Array Value} {m : Entries} {k : TableKey} (v : Value)
    (hk : offset? a.size k = none) (k' : TableKey) :
    lookup (.mk a (Entries.insert k v m)) k' = if k = k' then some v else lookup (.mk a m) k' := by
  cases ho : offset? a.size k' with
  | none =>
      rw [@lookup_of_no_offset (.mk a (Entries.insert k v m)) k' ho,
        @lookup_of_no_offset (.mk a m) k' ho]
      exact Entries.find?_insert k k' v m
  | some i =>
      have hne : k ≠ k' := by
        intro h
        rw [h, ho] at hk
        cases hk
      rw [if_neg hne]
      rw [@lookup_of_offset (.mk a (Entries.insert k v m)) k' i ho,
        @lookup_of_offset (.mk a m) k' i ho]
      rfl

theorem lookup_set_array {a : Array Value} {m : Entries} {i : Nat} (v : Value) (hi : i < a.size)
    (hsize : a.size < 2 ^ 63) (k : TableKey) :
    lookup (.mk (a.set! i v) m) k =
      if positionKey (i + 1) = k then some v else lookup (.mk a m) k := by
  have hsame : offset? (a.set! i v).size k = offset? a.size k := by
    rw [Array.set!_eq_setIfInBounds, Array.size_setIfInBounds]
  cases ho : offset? a.size k with
  | none =>
      have hne : positionKey (i + 1) ≠ k := by
        intro h
        rw [← h, offset?_positionKey (by omega), if_pos hi] at ho
        cases ho
      rw [if_neg hne, @lookup_of_no_offset (.mk (a.set! i v) m) k (hsame.trans ho),
        @lookup_of_no_offset (.mk a m) k ho]
      rfl
  | some j =>
      rw [@lookup_of_offset (.mk (a.set! i v) m) k j (hsame.trans ho), @lookup_of_offset (.mk a m) k j ho]
      have hj := offset?_some ho
      show (a.set! i v)[j]? = if positionKey (i + 1) = k then some v else a[j]?
      rw [Array.set!_eq_setIfInBounds, Array.getElem?_setIfInBounds, hj.2]
      by_cases hij : i = j
      · subst hij
        rw [if_pos rfl, if_pos rfl, if_pos hi]
      · have hne : positionKey (i + 1) ≠ positionKey (j + 1) := by
          intro h
          have hinj := positionKey_inj (by omega) (by omega) h
          exact hij (by omega)
        rw [if_neg hij, if_neg hne]

/-!
# Pulling keys in
-/

theorem layout_pull {a : Array Value} {m : Entries} {v : Value}
    (ht : Layout 1 (.mk a m)) (hv : Entries.find? (positionKey (a.size + 1)) m = some v) :
    Layout 1 (.mk (a.push v) (Entries.erase (positionKey (a.size + 1)) m)) := by
  have hmem := Entries.mem_of_find? hv
  have hfar := ht.integer_far _ v hmem
  have hsize : a.size < 2 ^ 63 := ht.size_lt
  -- the key is one of the map, and so no position past the last integer, which would be negative
  have hlt : a.size + 1 < 2 ^ 63 := by
    by_contra hge
    have hlast : a.size + 1 = 2 ^ 63 := by omega
    have hsmall : (Int64.ofNat (a.size + 1)).toInt < 0 := by
      rw [hlast]
      decide
    have hpos : 0 ≤ (Int64.ofNat (a.size + 1)).toInt :=
      Int.le_trans (Int.natCast_nonneg _) hfar
    omega
  constructor
  case size_lt =>
    show (a.push v).size < 2 ^ 63
    rw [Array.size_push]
    exact hlt
  case array_present =>
    intro w hw
    rcases Array.mem_push.mp hw with hold | hnew
    · exact ht.array_present w hold
    · exact hnew ▸ ht.map_present (_, v) hmem
  case sorted => exact Entries.sorted_erase ht.sorted _
  case map_present =>
    intro e he
    exact ht.map_present e (Entries.mem_erase he)
  case integer_far =>
    intro k w hk
    show ((a.push v).size : Int) + 1 ≤ k.toInt
    have hold : ((a.size : Nat) : Int) + 1 ≤ k.toInt := ht.integer_far k w (Entries.mem_erase hk)
    have hne : k.toInt ≠ ((a.size + 1 : Nat) : Int) := by
      intro heq
      have hfind := Entries.find?_of_mem (Entries.sorted_erase ht.sorted _) hk
      rw [positionKey_of_toInt heq, Entries.find?_erase ht.sorted, if_pos rfl] at hfind
      cases hfind
    rw [Array.size_push]
    omega
  case number_stored =>
    intro x w hx
    exact ht.number_stored x w (Entries.mem_erase hx)

theorem lookup_pull {a : Array Value} {m : Entries} {v : Value}
    (ht : Layout 1 (.mk a m)) (hv : Entries.find? (positionKey (a.size + 1)) m = some v)
    (k : TableKey) :
    lookup (.mk (a.push v) (Entries.erase (positionKey (a.size + 1)) m)) k =
      lookup (.mk a m) k := by
  have hlt : a.size + 1 < 2 ^ 63 := by
    have hsize : (a.push v).size < 2 ^ 63 := (layout_pull ht hv).size_lt
    rwa [Array.size_push] at hsize
  have hold : offset? a.size (positionKey (a.size + 1)) = none := by
    rw [offset?_positionKey hlt, if_neg (by omega)]
  have hsorted : Entries.Sorted m := ht.sorted
  rw [lookup_push_array hlt, lookup_erase_map hsorted hold]
  by_cases hk : positionKey (a.size + 1) = k
  · rw [if_pos hk, ← hk, @lookup_of_no_offset (.mk a m) _ hold]
    exact hv.symm
  · rw [if_neg hk, if_neg hk]

/-- Where the next key is absent, the loose layout is the one that is kept. -/
theorem layout_tighten {a : Array Value} {m : Entries} (ht : Layout 1 (.mk a m))
    (hnone : Entries.find? (positionKey (a.size + 1)) m = none) : WellFormed (.mk a m) := by
  refine ⟨ht.size_lt, ht.array_present, ht.sorted, ht.map_present, ?_, ht.number_stored⟩
  intro k v hk
  have hfar : ((a.size : Nat) : Int) + 1 ≤ k.toInt := ht.integer_far k v hk
  show ((a.size : Nat) : Int) + 2 ≤ k.toInt
  by_contra hlt
  have heq : k.toInt = ((a.size + 1 : Nat) : Int) := by omega
  have hfind : Entries.find? _ m = _ := Entries.find?_of_mem ht.sorted hk
  rw [positionKey_of_toInt heq, hnone] at hfind
  cases hfind

theorem absorbFrom_spec (fuel : Nat) {a : Array Value} {m : Entries}
    (ht : Layout 1 (.mk a m)) (hfuel : m.length ≤ fuel) :
    WellFormed (absorbFrom a m fuel) ∧
      forall k, lookup (absorbFrom a m fuel) k = lookup (.mk a m) k := by
  induction fuel generalizing a m with
  | zero =>
      have hm : m = [] := List.eq_nil_of_length_eq_zero (Nat.le_zero.mp hfuel)
      subst hm
      exact ⟨layout_tighten ht rfl, fun _ => rfl⟩
  | succ fuel ih =>
      rw [absorbFrom]
      cases hfind : Entries.find? (positionKey (a.size + 1)) m with
      | none => exact ⟨layout_tighten ht hfind, fun _ => rfl⟩
      | some v =>
          have hlen := Entries.length_erase hfind
          have hrest := ih (layout_pull ht hfind) (by omega)
          exact ⟨hrest.1, fun k => (hrest.2 k).trans (lookup_pull ht hfind k)⟩

theorem absorb_spec {t : Table} (ht : Layout 1 t) :
    WellFormed t.absorb ∧ forall k, t.absorb.lookup k = t.lookup k := by
  rcases t with ⟨a, m⟩
  exact absorbFrom_spec m.length ht (Nat.le_refl _)

/-!
# Cutting the array
-/

theorem sorted_detach (j : Nat) (vs : List Value) {m : Entries} (hm : Entries.Sorted m) :
    Entries.Sorted (detach j vs m) := by
  induction vs generalizing j m with
  | nil => exact hm
  | cons v vs ih => exact ih (j + 1) (Entries.sorted_insert hm _ v)

theorem mem_detach {j : Nat} {vs : List Value} {m : Entries} {e : TableKey × Value}
    (h : e ∈ detach j vs m) :
    e ∈ m \/ (e.2 ∈ vs /\ exists p, p < vs.length /\ e.1 = positionKey (j + p + 1)) := by
  induction vs generalizing j m with
  | nil => exact Or.inl h
  | cons v vs ih =>
      rcases ih h with hins | ⟨hmem, p, hp, hkey⟩
      · rcases Entries.mem_insert hins with heq | hold
        · subst heq
          exact Or.inr ⟨List.mem_cons_self, 0, Nat.succ_pos _, rfl⟩
        · exact Or.inl hold
      · refine Or.inr ⟨List.mem_cons_of_mem _ hmem, p + 1, Nat.succ_lt_succ hp, ?_⟩
        rw [hkey]
        congr 1
        omega

theorem find?_detach {j : Nat} {vs : List Value} {m : Entries}
    (hlt : j + vs.length < 2 ^ 63) (k : TableKey) :
    Entries.find? k (detach j vs m) =
      match offset? (j + vs.length) k with
      | some i => if j ≤ i then vs[i - j]? else Entries.find? k m
      | none => Entries.find? k m := by
  -- the values come from one position after the other: the first one is inserted before the others
  -- are
  induction vs generalizing j m with
  | nil =>
      cases ho : offset? (j + ([] : List Value).length) k with
      | none => rfl
      | some i =>
          have hi := (offset?_some ho).1
          rw [List.length_nil] at hi
          show Entries.find? k m = if j ≤ i then _ else _
          rw [if_neg (by omega)]
  | cons v vs ih =>
      have hlen : j + (v :: vs).length = j + 1 + vs.length := by
        rw [List.length_cons]
        omega
      rw [detach, ih (by omega), hlen]
      cases ho : offset? (j + 1 + vs.length) k with
      | none =>
          have hne : positionKey (j + 1) ≠ k := by
            intro h
            rw [← h, offset?_positionKey (by omega), if_pos (by omega)] at ho
            cases ho
          simp only
          rw [Entries.find?_insert, if_neg hne]
      | some i =>
          have hi := offset?_some ho
          simp only
          by_cases hij : i = j
          · subst hij
            rw [if_neg (by omega), if_pos (Nat.le_refl i), Entries.find?_insert, if_pos hi.2.symm,
              Nat.sub_self]
            rfl
          · have hne : positionKey (j + 1) ≠ k := by
              intro h
              have hinj := positionKey_inj (by omega) (by omega) (h.trans hi.2)
              omega
            by_cases hlt' : j ≤ i
            · rw [if_pos (by omega), if_pos hlt']
              have hsub : i - j = (i - (j + 1)) + 1 := by omega
              rw [hsub, List.getElem?_cons_succ]
            · rw [if_neg (by omega), if_neg hlt', Entries.find?_insert, if_neg hne]

theorem narr_truncate {t : Table} {i : Nat} (hi : i < t.narr) : (t.truncate i).narr = i := by
  show (t.array.take i).size = i
  rw [Array.take_eq_extract, Array.size_extract, Nat.sub_zero]
  exact Nat.min_eq_left (Nat.le_of_lt hi)

theorem length_behind (t : Table) (i : Nat) :
    (t.array.toList.drop (i + 1)).length = t.narr - (i + 1) := by
  rw [List.length_drop]
  rfl

theorem wellFormed_truncate {t : Table} (ht : WellFormed t) {i : Nat} (hi : i < t.narr) :
    WellFormed (t.truncate i) := by
  have hsize := ht.size_lt
  have hnarr := narr_truncate hi
  have hdrop := length_behind t i
  constructor
  case size_lt => omega
  case array_present =>
    intro v hv
    have hv' : v ∈ t.array.take i := hv
    rw [Array.take_eq_extract] at hv'
    rcases Array.mem_extract_iff_getElem.mp hv' with ⟨p, hp, hget⟩
    exact ht.array_present v (hget ▸ Array.getElem_mem _)
  case sorted => exact sorted_detach _ _ ht.sorted
  case map_present =>
    intro e he
    rcases mem_detach he with hold | ⟨hmem, _⟩
    · exact ht.map_present e hold
    · exact ht.array_present _ (Array.mem_toList_iff.mp (List.mem_of_mem_drop hmem))
  case integer_far =>
    intro k v hk
    rw [hnarr]
    rcases mem_detach hk with hold | ⟨_, p, hp, hkey⟩
    · have hfar := ht.integer_far k v hold
      omega
    · have hkey' : TableKey.integer k = .integer (Int64.ofNat (i + 1 + p + 1)) := hkey
      injection hkey' with hkey'
      rw [hkey', toInt_ofNat (by omega)]
      omega
  case number_stored =>
    intro x v hx
    rcases mem_detach hx with hold | ⟨_, p, _, hkey⟩
    · exact ht.number_stored x v hold
    · cases hkey

theorem lookup_truncate {t : Table} (ht : WellFormed t) {i : Nat} (hi : i < t.narr)
    (k : TableKey) :
    (t.truncate i).lookup k = if positionKey (i + 1) = k then none else t.lookup k := by
  have hsize := ht.size_lt
  have hnarr := narr_truncate hi
  have hdrop := length_behind t i
  have hdetach := find?_detach (m := t.map) (k := k) (by omega :
    i + 1 + (t.array.toList.drop (i + 1)).length < 2 ^ 63)
  rw [show i + 1 + (t.array.toList.drop (i + 1)).length = t.narr by omega] at hdetach
  -- three kinds of keys: those still in the array, those moved to the map, and those that were
  -- there
  cases hnew : offset? i k with
  | some p =>
      have hp := offset?_some hnew
      have hne : positionKey (i + 1) ≠ k := by
        intro h
        have hinj := positionKey_inj (by omega) (by omega) (h.trans hp.2)
        omega
      have hold : offset? t.narr k = some p := by
        rw [hp.2, offset?_positionKey (by omega), if_pos (by omega)]
      rw [if_neg hne, lookup_of_offset (hnarr.symm ▸ hnew), lookup_of_offset hold]
      show (t.array.take i)[p]? = t.array[p]?
      have hmin : p < min i t.array.size - 0 := by
        have hnarr' : t.narr = t.array.size := rfl
        omega
      rw [Array.take_eq_extract, Array.getElem?_extract, if_pos hmin, Nat.zero_add]
  | none =>
      rw [lookup_of_no_offset (hnarr.symm ▸ hnew)]
      show Entries.find? k (detach (i + 1) (t.array.toList.drop (i + 1)) t.map) = _
      rw [hdetach]
      cases hold : offset? t.narr k with
      | none =>
          have hne : positionKey (i + 1) ≠ k := by
            intro h
            rw [← h, offset?_positionKey (by omega), if_pos hi] at hold
            cases hold
          rw [if_neg hne, lookup_of_no_offset hold]
      | some p =>
          have hp := offset?_some hold
          rw [hp.2, offset?_positionKey (by omega)] at hnew
          have hip : i ≤ p := by
            by_contra hlt
            rw [if_pos (by omega)] at hnew
            cases hnew
          rw [lookup_of_offset hold]
          show (if i + 1 ≤ p then _ else _) = _
          by_cases heq : i = p
          · subst heq
            rw [if_neg (by omega), if_pos hp.2.symm, hp.2]
            exact find?_position_none ht (by omega) (by omega)
          · have hne : positionKey (i + 1) ≠ k := by
              intro h
              have hinj := positionKey_inj (by omega) (by omega) (h.trans hp.2)
              omega
            rw [if_pos (by omega), if_neg hne, List.getElem?_drop, Array.getElem?_toList]
            congr 1
            omega

/-!
# Writes
-/

theorem floatKey_stored {x : Double} {y : FloatKey} (h : FloatKey.ofDouble x = some y) :
    FloatKey.ofDouble y.value = some y := by
  unfold FloatKey.ofDouble at h
  split at h
  · cases h
  · next hnan =>
      cases h
      by_cases hzero : x.isZero
      · rw [if_pos hzero]
        rfl
      · unfold FloatKey.ofDouble
        simp only [if_neg hzero, if_neg hnan]

/-- A key has one stored form: it is the stored form of what it stands for. -/
theorem stored_number {k : Key} {x : FloatKey} (h : k.stored? = some (.number x)) :
    FloatKey.ofDouble x.value = some x := by
  have hmap : forall y : Double, (FloatKey.ofDouble y).map TableKey.number = some (.number x) ->
      FloatKey.ofDouble x.value = some x := by
    intro y hy
    cases hf : FloatKey.ofDouble y with
    | none =>
        rw [hf] at hy
        cases hy
    | some z =>
        rw [hf] at hy
        cases hy
        exact floatKey_stored hf
  cases k with
  | bool b => cases h
  | string s => cases h
  | float y => exact hmap y h
  | integer i =>
      unfold Key.stored? at h
      simp only at h
      split at h
      · cases h
      · exact hmap _ h

theorem stored_integer {k : Key} {i : Int64} (h : k.stored? = some (.integer i)) :
    1 ≤ i.toInt := by
  cases k with
  | bool b => cases h
  | string s => cases h
  | float y =>
      unfold Key.stored? at h
      simp only at h
      cases hf : FloatKey.ofDouble y with
      | none =>
          rw [hf] at h
          cases h
      | some z =>
          rw [hf] at h
          cases h
  | integer j =>
      unfold Key.stored? at h
      simp only at h
      split at h
      · next hj =>
          cases h
          exact hj
      · cases hf : FloatKey.ofDouble (Double.ofInt64 j) with
        | none =>
            rw [hf] at h
            cases h
        | some z =>
            rw [hf] at h
            cases h

theorem wellFormed_set_array {t : Table} (ht : WellFormed t) {i : Nat} {v : Value}
    (hv : v ≠ .nil) : WellFormed (.mk (t.array.set! i v) t.map) := by
  have hsame : (t.array.set! i v).size = t.narr := by
    rw [Array.set!_eq_setIfInBounds, Array.size_setIfInBounds]
    rfl
  constructor
  case size_lt =>
    show (t.array.set! i v).size < 2 ^ 63
    rw [hsame]
    exact ht.size_lt
  case array_present =>
    intro w hw
    rcases Array.mem_or_eq_of_mem_setIfInBounds hw with hold | hnew
    · exact ht.array_present w hold
    · exact hnew ▸ hv
  case sorted => exact ht.sorted
  case map_present => exact ht.map_present
  case integer_far =>
    intro k w hk
    show (((t.array.set! i v).size : Nat) : Int) + 2 ≤ k.toInt
    rw [hsame]
    exact ht.integer_far k w hk
  case number_stored => exact ht.number_stored

theorem layout_append {t : Table} (ht : WellFormed t) {v : Value} (hv : v ≠ .nil)
    (hlt : t.narr + 1 < 2 ^ 63) : Layout 1 (.mk (t.array.push v) t.map) := by
  have hsame : (t.array.push v).size = t.narr + 1 := Array.size_push v
  constructor
  case size_lt =>
    show (t.array.push v).size < 2 ^ 63
    rw [hsame]
    exact hlt
  case array_present =>
    intro w hw
    rcases Array.mem_push.mp hw with hold | hnew
    · exact ht.array_present w hold
    · exact hnew ▸ hv
  case sorted => exact ht.sorted
  case map_present => exact ht.map_present
  case integer_far =>
    intro k w hk
    have hfar := ht.integer_far k w hk
    show (((t.array.push v).size : Nat) : Int) + 1 ≤ k.toInt
    rw [hsame]
    omega
  case number_stored => exact ht.number_stored

theorem append_spec {t : Table} (ht : WellFormed t) {v : Value} (hv : v ≠ .nil)
    (hlt : t.narr + 1 < 2 ^ 63) :
    WellFormed (absorb (.mk (t.array.push v) t.map)) ∧
      forall k, (absorb (.mk (t.array.push v) t.map)).lookup k =
        if positionKey (t.narr + 1) = k then some v else t.lookup k := by
  have habsorb := absorb_spec (layout_append ht hv hlt)
  exact ⟨habsorb.1, fun k => (habsorb.2 k).trans (lookup_push_array hlt k)⟩

theorem wellFormed_erase_map {t : Table} (ht : WellFormed t) (k : TableKey) :
    WellFormed (.mk t.array (Entries.erase k t.map)) where
  size_lt := ht.size_lt
  array_present := ht.array_present
  sorted := Entries.sorted_erase ht.sorted k
  map_present := fun e he => ht.map_present e (Entries.mem_erase he)
  integer_far := fun i v hi => ht.integer_far i v (Entries.mem_erase hi)
  number_stored := fun x v hx => ht.number_stored x v (Entries.mem_erase hx)

/-- An entry for the map: its key lies neither inside the array nor just behind it. -/
theorem wellFormed_insert_map {t : Table} (ht : WellFormed t) {k : Key} {s : TableKey}
    (hk : k.stored? = some s) {v : Value} (hv : v ≠ .nil) (ho : offset? t.narr s = none)
    (hs : s ≠ positionKey (t.narr + 1)) : WellFormed (.mk t.array (Entries.insert s v t.map)) := by
  refine ⟨ht.size_lt, ht.array_present, Entries.sorted_insert ht.sorted s v, ?_, ?_, ?_⟩
  · intro e he
    rcases Entries.mem_insert he with heq | hold
    · exact heq ▸ hv
    · exact ht.map_present e hold
  · intro i w hi
    rcases Entries.mem_insert hi with heq | hold
    · injection heq with heq _
      subst heq
      have hpos := stored_integer hk
      have hnot : ¬ (1 ≤ i.toInt ∧ i.toInt ≤ t.narr) := by
        intro h
        rw [offset?_integer, if_pos h] at ho
        cases ho
      have hne : i.toInt ≠ ((t.narr + 1 : Nat) : Int) := fun h => hs (positionKey_of_toInt h)
      show (t.narr : Int) + 2 ≤ i.toInt
      omega
    · exact ht.integer_far i w hold
  · intro x w hx
    rcases Entries.mem_insert hx with heq | hold
    · injection heq with heq _
      subst heq
      exact stored_number hk
    · exact ht.number_stored x w hold

theorem set_of_not_stored {t : Table} (ht : WellFormed t) {k : Key} (hk : k.stored? = none)
    (v : Value) : t.set k v = t := by
  unfold set
  rw [slotOf_eq ht.size_lt, hk]
  rfl

/-- A write keeps the layout and changes the lookup of its key. -/
theorem set_spec {t : Table} (ht : WellFormed t) {k : Key} {s : TableKey}
    (hk : k.stored? = some s) (v : Value) :
    WellFormed (t.set k v) ∧
      forall s', (t.set k v).lookup s' = if s = s' then v.present? else t.lookup s' := by
  have hsize := ht.size_lt
  unfold set
  rw [slotOf_eq hsize, hk, Option.map_some]
  unfold slotFor
  -- inside the array, at the position behind it, or in the map
  cases ho : offset? t.narr s with
  | some i =>
      have hi := offset?_some ho
      rw [hi.2]
      cases v with
      | nil => exact ⟨wellFormed_truncate ht hi.1, lookup_truncate ht hi.1⟩
      | _ => exact ⟨wellFormed_set_array ht nofun, lookup_set_array _ hi.1 hsize⟩
  | none =>
      by_cases hs : s = positionKey (t.narr + 1)
      · subst hs
        simp only [if_pos]
        have hlt : t.narr + 1 < 2 ^ 63 := by
          have hpos := stored_integer hk
          by_contra hge
          rw [show t.narr + 1 = 2 ^ 63 by omega] at hpos
          exact absurd hpos (by decide)
        cases v with
        | nil =>
            refine ⟨ht, ?_⟩
            intro s'
            by_cases hs' : positionKey (t.narr + 1) = s'
            · rw [if_pos hs', ← hs', lookup_of_no_offset ho]
              exact find?_behind_none ht
            · rw [if_neg hs']
        | _ => exact append_spec ht nofun hlt
      · simp only [if_neg hs]
        cases v with
        | nil => exact ⟨wellFormed_erase_map ht s, lookup_erase_map ht.sorted ho⟩
        | _ => exact ⟨wellFormed_insert_map ht hk nofun ho hs, lookup_insert_map _ ho⟩

theorem wellFormed_set {t : Table} (ht : WellFormed t) (k : Key) (v : Value) :
    WellFormed (t.set k v) := by
  cases hk : k.stored? with
  | none => rwa [set_of_not_stored ht hk]
  | some s => exact (set_spec ht hk v).1

theorem lookup_set {t : Table} (ht : WellFormed t) {k : Key} {s : TableKey}
    (hk : k.stored? = some s) (v : Value) (s' : TableKey) :
    (t.set k v).lookup s' = if s = s' then v.present? else t.lookup s' :=
  (set_spec ht hk v).2 s'

theorem wellFormed_push {t : Table} (ht : WellFormed t) (v : Value) : WellFormed (t.push v) :=
  wellFormed_set ht _ v

end Data.Table

end LuaHost
