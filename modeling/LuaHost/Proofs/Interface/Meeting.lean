import LuaHost.Proofs.Data.FiniteMap
import LuaHost.Proofs.Interface.RoundTrip

/-!
# Keys that meet

A host table keeps a positive integer and the double that equals it apart, as
keys of two entries.  The machine stores both under the integer.  A host table
writes its array first, and its map in some order: of two entries whose keys
meet, the one that is written last prevails.
-/

namespace LuaHost

namespace Table

theorem nodup_entries (T : Table) : (T.entries.map Prod.fst).Nodup := by
  have hdistinct : T.entries.Pairwise fun a b => ¬ Value.keyCmp a.1 b.1 = .eq :=
    Std.TreeMap.distinct_keys_toList.sublist List.filter_sublist
  refine List.pairwise_map.mpr (hdistinct.imp fun hne heq => hne ?_)
  rw [heq]
  exact Std.ReflCmp.compare_self

end Table

namespace Data

/-!
# Writes
-/

namespace Table

/-- The writes that a listing of a table makes to the machine's table, the first
one first. -/
def writes (t : Table) : List (TableKey × Value) :=
  (t.array.toList.zipIdx 1).map (fun e => (positionKey e.2, e.1)) ++ t.map

/-- The last of some writes to a key of the machine. -/
def lastWrite (es : List (TableKey × Value)) (y : LuaHost.Value) : Option (TableKey × Value) :=
  es.reverse.find? fun e => e.1.machineKey = y

theorem lastWrite_append (es : List (TableKey × Value)) (e : TableKey × Value)
    (y : LuaHost.Value) :
    lastWrite (es ++ [e]) y = if e.1.machineKey = y then some e else lastWrite es y := by
  unfold lastWrite
  rw [List.reverse_append, List.reverse_singleton, List.singleton_append, List.find?_cons]
  by_cases hy : e.1.machineKey = y
  · rw [decide_eq_true hy, if_pos hy]
  · rw [decide_eq_false hy, if_neg hy]

theorem lastWrite_eq_some {es : List (TableKey × Value)} {y : LuaHost.Value}
    {e : TableKey × Value} (h : lastWrite es y = some e) :
    e.1.machineKey = y ∧ exists before after, es = before ++ e :: after ∧
      forall f, f ∈ after -> f.1.machineKey ≠ y := by
  rcases List.find?_eq_some_iff_append.mp h with ⟨hy, back, front, hsplit, hback⟩
  refine ⟨of_decide_eq_true hy, front.reverse, back.reverse, ?_, ?_⟩
  · rw [← List.reverse_reverse es, hsplit, List.reverse_append, List.reverse_cons,
      List.append_assoc, List.singleton_append]
  · intro f hf heq
    have hne := hback f (List.mem_reverse.mp hf)
    rw [decide_eq_true heq] at hne
    cases hne

theorem lastWrite_eq_none {es : List (TableKey × Value)} {y : LuaHost.Value} :
    lastWrite es y = none ↔ forall e, e ∈ es -> e.1.machineKey ≠ y := by
  unfold lastWrite
  rw [List.find?_eq_none]
  constructor
  · intro h e he heq
    exact h e (List.mem_reverse.mpr he) (decide_eq_true heq)
  · intro h e he heq
    exact h e (List.mem_reverse.mp he) (of_decide_eq_true heq)

theorem mem_of_lastWrite {es : List (TableKey × Value)} {y : LuaHost.Value}
    {e : TableKey × Value} (h : lastWrite es y = some e) : e ∈ es := by
  rcases (lastWrite_eq_some h).2 with ⟨before, after, rfl, _⟩
  exact List.mem_append_right _ (List.mem_cons_self ..)

theorem writes_keys (t : Table) : t.writes.map Prod.fst = t.storedKeys := by
  unfold writes storedKeys
  rw [List.map_append, List.map_map]
  congr 1
  have hplaces : (t.array.toList.zipIdx 1).map Prod.snd = List.range' 1 t.narr :=
    List.zipIdx_map_snd ..
  rw [show (Prod.fst ∘ fun e : Value × Nat => (positionKey e.2, e.1)) = positionKey ∘ Prod.snd from rfl,
    ← List.map_map, hplaces, List.range'_eq_map_range, List.map_map]
  refine List.map_congr_left fun i _ => ?_
  show positionKey (1 + i) = positionKey (i + 1)
  rw [Nat.add_comm]

/-!
# Listings
-/

section Listing

variable {t t' : Table}

theorem writes_perm (h : Shuffled (.table t) (.table t')) :
    (t'.writes.map Prod.fst).Perm t.storedKeys := by
  rw [writes_keys]
  cases h with
  | scalar hscalar => exact absurd rfl (hscalar _)
  | table hsize _ hperm _ =>
      unfold storedKeys
      have hnarr : t'.narr = t.narr := hsize
      rw [hnarr]
      exact List.Perm.append (List.Perm.refl _) hperm

/-- A listing writes a listing of each entry's value. -/
theorem lookup_of_write (ht : WellFormed t) (h : Shuffled (.table t) (.table t')) {k : TableKey}
    {v' : Value} (hmem : (k, v') ∈ t'.writes) :
    exists v, t.lookup k = some v ∧ Shuffled v v' := by
  have hsize := ht.size_lt
  cases h with
  | scalar hscalar => exact absurd rfl (hscalar _)
  | table hnarr harray hperm hmap =>
      rcases List.mem_append.mp hmem with hmem | hmem
      · rcases List.mem_map.mp hmem with ⟨⟨u, p⟩, hplace, heq⟩
        cases heq
        rcases List.mem_zipIdx_iff_le_and_getElem?_sub.mp hplace with ⟨hp, hu⟩
        rw [Array.getElem?_toList] at hu
        have hlt : p - 1 < t.narr := by
          rw [Table.narr, ← hnarr]
          exact (Array.getElem?_eq_some_iff.mp hu).1
        have hv : t.array[p - 1]? = some t.array[p - 1] := Array.getElem?_eq_getElem hlt
        refine ⟨t.array[p - 1], ?_, harray _ _ _ hv hu⟩
        rw [lookup_of_offset (i := p - 1), hv]
        rw [show p = p - 1 + 1 by omega, offset?_positionKey (by omega), if_pos hlt]
        rfl
      · have hkey := hperm.mem_iff.mp (List.mem_map_of_mem (f := Prod.fst) hmem)
        rcases List.mem_map.mp hkey with ⟨⟨k', v⟩, hv, heq⟩
        cases heq
        exact ⟨v, lookup_of_mem_map ht hv, hmap k v v' hv hmem⟩

theorem write_of_lookup (ht : WellFormed t) (h : Shuffled (.table t) (.table t')) {k : TableKey}
    {v : Value} (hk : t.lookup k = some v) : exists v', (k, v') ∈ t'.writes ∧ Shuffled v v' := by
  have hstored : k ∈ t.storedKeys := (mem_storedKeys ht).mpr (by rw [hk]; rfl)
  rcases List.mem_map.mp ((writes_perm h).mem_iff.mpr hstored) with ⟨⟨k', v'⟩, hmem, heq⟩
  cases heq
  rcases lookup_of_write ht h hmem with ⟨u, hu, hshuffled⟩
  rw [hk] at hu
  cases hu
  exact ⟨v', hmem, hshuffled⟩

theorem offset?_of_mem_map (ht : WellFormed t) {e : TableKey × Value} (h : e ∈ t.map) :
    offset? t.narr e.1 = none := by
  cases ho : offset? t.narr e.1 with
  | none => rfl
  | some i =>
      have hi := offset?_some ho
      have hsize := ht.size_lt
      have hfind := Entries.find?_of_mem ht.sorted (k := e.1) (v := e.2) h
      rw [hi.2, find?_position_none ht (by omega) (by omega)] at hfind
      cases hfind

theorem write_before (ht : WellFormed t) (h : Shuffled (.table t) (.table t'))
    {e f : TableKey × Value} {before after : List (TableKey × Value)}
    (hsplit : t'.writes = before ++ e :: after) (hf : f ∈ before)
    (he : (offset? t.narr e.1).isSome = true) : (offset? t.narr f.1).isSome = true := by
  have hsize := ht.size_lt
  cases h with
  | scalar hscalar => exact absurd rfl (hscalar _)
  | table hnarr _ hperm _ =>
      rcases List.append_eq_append_iff.mp hsplit with ⟨c, _, htail⟩ | ⟨c, harray, htail⟩
      · -- `e` is written with the map part
        have hmem : e ∈ t'.map := by
          rw [htail]
          exact List.mem_append_right _ (List.mem_cons_self ..)
        have hkey := hperm.mem_iff.mp (List.mem_map_of_mem (f := Prod.fst) hmem)
        rcases List.mem_map.mp hkey with ⟨e', he', heq⟩
        rw [← heq, offset?_of_mem_map ht he'] at he
        cases he
      · have hmem : f ∈ (t'.array.toList.zipIdx 1).map fun e => (positionKey e.2, e.1) := by
          rw [harray]
          exact List.mem_append_left _ hf
        rcases List.mem_map.mp hmem with ⟨⟨u, p⟩, hplace, rfl⟩
        rcases List.mem_zipIdx_iff_le_and_getElem?_sub.mp hplace with ⟨hp, hu⟩
        rw [Array.getElem?_toList] at hu
        have hlt : p - 1 < t.narr := by
          rw [Table.narr, ← hnarr]
          exact (Array.getElem?_eq_some_iff.mp hu).1
        rw [show p = p - 1 + 1 by omega, offset?_positionKey (by omega), if_pos hlt]
        rfl

end Listing

/-!
# Keys that meet
-/

/-- The machine stores a double that equals an integer under the integer. -/
theorem machineKey_number (x : FloatKey) :
    (exists i, x.value.toInt64? = some i ∧ (TableKey.number x).machineKey = .int i) ∨
      (TableKey.number x).machineKey = .float x.value := by
  cases hx : x.value.toInt64? with
  | some i => exact Or.inl ⟨i, rfl, Value.asKey_integral hx⟩
  | none => exact Or.inr (Value.asKey_fraction hx)

/-- Two keys of a table that meet are a double and the integer that it equals. -/
theorem meet_cases {t : Table} (ht : WellFormed t) {k k' : TableKey} {v v' : Value}
    (hk : t.lookup k = some v) (hk' : t.lookup k' = some v')
    (heq : k.machineKey = k'.machineKey) :
    k = k' ∨ exists x i, x.value.toInt64? = some i ∧
      (k = .number x ∧ k' = .integer i ∨ k = .integer i ∧ k' = .number x) := by
  -- a stored double is not the negative zero, so that it is determined by the integer that it
  -- equals
  have hzero : forall {x : FloatKey} {u : Value}, t.lookup (.number x) = some u ->
      x.value.isZero = true -> x.value = Double.zero := by
    intro x u hx
    rw [lookup_of_no_offset rfl] at hx
    exact FloatKey.ofDouble_zero (ht.number_stored x u (Entries.mem_of_find? hx))
  cases k with
  | number x =>
      cases k' with
      | number x' =>
          refine Or.inl (congrArg TableKey.number ?_)
          rcases machineKey_number x with ⟨i, hi, hx⟩ | hx
          · rcases machineKey_number x' with ⟨j, hj, hx'⟩ | hx'
            · cases hx.symm.trans (heq.trans hx')
              have hvalue := (Double.ofInt64_of_toInt64? hi (hzero hk)).symm.trans
                (Double.ofInt64_of_toInt64? hj (hzero hk'))
              cases x
              cases x'
              cases hvalue
              rfl
            · cases hx.symm.trans (heq.trans hx')
          · rcases machineKey_number x' with ⟨j, hj, hx'⟩ | hx'
            · cases hx.symm.trans (heq.trans hx')
            · have hvalue : x.value = x'.value := Value.float.inj (hx.symm.trans (heq.trans hx'))
              cases x
              cases x'
              cases hvalue
              rfl
      | integer i =>
          rcases machineKey_number x with ⟨j, hj, hx⟩ | hx
          · cases hx.symm.trans heq
            exact Or.inr ⟨x, i, hj, Or.inl ⟨rfl, rfl⟩⟩
          · cases hx.symm.trans heq
      | _ =>
          rcases machineKey_number x with ⟨j, hj, hx⟩ | hx <;> cases hx.symm.trans heq
  | integer i =>
      cases k' with
      | number x =>
          rcases machineKey_number x with ⟨j, hj, hx⟩ | hx
          · cases heq.trans hx
            exact Or.inr ⟨x, i, hj, Or.inr ⟨rfl, rfl⟩⟩
          · cases heq.trans hx
      | integer j => cases heq; exact Or.inl rfl
      | _ => cases heq
  | bool b =>
      cases k' with
      | number x => rcases machineKey_number x with ⟨j, hj, hx⟩ | hx <;> cases heq.trans hx
      | bool b' => cases heq; exact Or.inl rfl
      | _ => cases heq
  | string s =>
      cases k' with
      | number x => rcases machineKey_number x with ⟨j, hj, hx⟩ | hx <;> cases heq.trans hx
      | string s' =>
          have hbytes : s.toUTF8 = s'.toUTF8 := Value.str.inj heq
          refine Or.inl (congrArg TableKey.string ?_)
          rw [← Bytes.toText_toUTF8 s, hbytes, Bytes.toText_toUTF8]
      | _ => cases heq

/-- A double of the table that equals a positive integer key of it. -/
def merges (t : Table) : TableKey → Bool
  | .number x => (x.value.toInt64?.bind fun i => t.lookup (.integer i)).isSome
  | _ => false

/-- How many doubles of the table equal a positive integer key of it. -/
def merged (t : Table) : Nat := t.storedKeys.countP t.merges

/-- No double of the table equals an integer key of its map part. -/
def Apart (t : Table) : Prop :=
  forall x i v, (.number x, v) ∈ t.map -> x.value.toInt64? = some i ->
    .integer i ∉ t.map.map Prod.fst

/-- No other key of the table meets this one, but for positions of the array, which
are written first. -/
def Prevails (t : Table) (k : TableKey) : Prop :=
  forall k' v, t.lookup k' = some v -> k'.machineKey = k.machineKey ->
    k' = k ∨ (offset? t.narr k').isSome = true

section Prevail

variable {t t' : Table} {k : TableKey} {v : Value} {y : LuaHost.Value} {e : TableKey × Value}

theorem position_unique (ht : WellFormed t) {k' : TableKey} {v' : Value}
    (hk : t.lookup k = some v) (hk' : t.lookup k' = some v')
    (heq : k.machineKey = k'.machineKey) (hoffset : (offset? t.narr k).isSome = true)
    (hoffset' : (offset? t.narr k').isSome = true) : k = k' := by
  rcases meet_cases ht hk hk' heq with hsame | ⟨x, i, _, ⟨rfl, rfl⟩ | ⟨rfl, rfl⟩⟩
  · exact hsame
  · cases hoffset
  · cases hoffset'

theorem offset_of_lastWrite (ht : WellFormed t) (h : Shuffled (.table t) (.table t'))
    (hlast : lastWrite t'.writes y = some e) (hk : t.lookup k = some v) (hy : k.machineKey = y)
    (hne : k ≠ e.1) (he : (offset? t.narr e.1).isSome = true) :
    (offset? t.narr k).isSome = true := by
  rcases lastWrite_eq_some hlast with ⟨_, before, after, hsplit, hafter⟩
  rcases write_of_lookup ht h hk with ⟨v', hmem, _⟩
  rw [hsplit] at hmem
  rcases List.mem_append.mp hmem with hbefore | hbehind
  · exact write_before ht h hsplit hbefore he
  · rcases List.mem_cons.mp hbehind with heq | hbehind
    · exact absurd (congrArg Prod.fst heq) hne
    · exact absurd hy (hafter _ hbehind)

/-- A key that prevails is written last, whatever the listing. -/
theorem lastWrite_of_prevails (ht : WellFormed t) (h : Shuffled (.table t) (.table t'))
    (hk : t.lookup k = some v) (hprevails : t.Prevails k) :
    exists v', lastWrite t'.writes k.machineKey = some (k, v') ∧ Shuffled v v' := by
  rcases write_of_lookup ht h hk with ⟨v₁, hmem, _⟩
  cases hlast : lastWrite t'.writes k.machineKey with
  | none => exact absurd rfl (lastWrite_eq_none.mp hlast _ hmem)
  | some e =>
      rcases lookup_of_write ht h (mem_of_lastWrite hlast) with ⟨u, hu, hshuffled⟩
      have hmeets := (lastWrite_eq_some hlast).1
      -- the key of the last write cannot be another position, as no two positions meet
      have hkey : k = e.1 := by
        by_contra hne
        rcases hprevails e.1 u hu hmeets with hsame | hoffset
        · exact hne hsame.symm
        · have hoffset' := offset_of_lastWrite ht h hlast hk rfl hne hoffset
          exact hne (position_unique ht hk hu hmeets.symm hoffset' hoffset)
      subst hkey
      rw [hk] at hu
      cases hu
      exact ⟨e.2, rfl, hshuffled⟩

theorem offset_of_not_mem_map (hk : t.lookup k = some v) (hnot : k ∉ t.map.map Prod.fst) :
    (offset? t.narr k).isSome = true := by
  cases ho : offset? t.narr k with
  | some i => rfl
  | none =>
      rw [lookup_of_no_offset ho] at hk
      exact absurd (List.mem_map_of_mem (Entries.mem_of_find? hk)) hnot

theorem prevails_number (ht : WellFormed t) (happart : t.Apart) {x : FloatKey}
    (hx : t.lookup (.number x) = some v) : t.Prevails (.number x) := by
  intro k u hk hmeets
  rcases meet_cases ht hk hx hmeets with hsame | ⟨x', i, hi, ⟨_, hint⟩ | ⟨rfl, hnumber⟩⟩
  · exact Or.inl hsame
  · cases hint
  · cases hnumber
    rw [lookup_of_no_offset rfl] at hx
    exact Or.inr (offset_of_not_mem_map hk (happart x i v (Entries.mem_of_find? hx) hi))

/-- Where no double meets a key of the map part, the key that is written last
prevails. -/
theorem prevails_of_lastWrite (ht : WellFormed t) (happart : t.Apart)
    (h : Shuffled (.table t) (.table t')) (hlast : lastWrite t'.writes y = some e) :
    t.Prevails e.1 := by
  rcases lookup_of_write ht h (mem_of_lastWrite hlast) with ⟨u, hu, _⟩
  have hy := (lastWrite_eq_some hlast).1
  rcases e with ⟨k, v⟩
  intro k' v' hk' hmeets
  rcases meet_cases ht hk' hu hmeets with hsame | ⟨x, i, hi, ⟨rfl, hint⟩ | ⟨rfl, hnumber⟩⟩
  · exact Or.inl hsame
  · -- the double is written with the map part, so the integer is not the last one in the array
    cases hint
    have hx := hk'
    rw [lookup_of_no_offset rfl] at hx
    have hposition := offset_of_not_mem_map hu (happart x i v' (Entries.mem_of_find? hx) hi)
    exact Or.inr (offset_of_lastWrite ht h hlast hk' (hmeets.trans hy) nofun hposition)
  · cases hnumber
    exact prevails_number ht happart hu _ _ hk' hmeets

/-- There the last writes of two listings to a key come from one entry. -/
theorem lastWrite_listings (ht : WellFormed t) (happart : t.Apart) {t'' : Table}
    (h' : Shuffled (.table t) (.table t')) (h'' : Shuffled (.table t) (.table t''))
    (y : LuaHost.Value) :
    (lastWrite t'.writes y = none ∧ lastWrite t''.writes y = none) ∨
      exists k v v' v'', lastWrite t'.writes y = some (k, v') ∧
        lastWrite t''.writes y = some (k, v'') ∧ t.lookup k = some v ∧ Shuffled v v' ∧
        Shuffled v v'' := by
  cases hlast : lastWrite t'.writes y with
  | none =>
      refine Or.inl ⟨rfl, lastWrite_eq_none.mpr ?_⟩
      rintro ⟨k, v''⟩ hmem
      rcases lookup_of_write ht h'' hmem with ⟨v, hk, _⟩
      rcases write_of_lookup ht h' hk with ⟨v', hmem', _⟩
      exact lastWrite_eq_none.mp hlast (k, v') hmem'
  | some e =>
      rcases e with ⟨k, v'⟩
      rcases lookup_of_write ht h' (mem_of_lastWrite hlast) with ⟨v, hk, hv'⟩
      have hprevails := prevails_of_lastWrite ht happart h' hlast
      rcases lastWrite_of_prevails ht h'' hk hprevails with ⟨v'', hlast'', hv''⟩
      rw [(lastWrite_eq_some hlast).1] at hlast''
      exact Or.inr ⟨k, v, v', v'', rfl, hlast'', hk, hv', hv''⟩

end Prevail

/-!
# Entries and keys
-/

/-- A table of the machine with the keys of a host table has an entry for each of
them, but one for two that meet. -/
theorem length_entries {t : Table} (ht : WellFormed t) {T : LuaHost.Table}
    (hT : forall y, T.find y ≠ .nil ↔ exists k v, t.lookup k = some v ∧ k.machineKey = y) :
    T.entries.length + t.merged = t.narr + t.nrec := by
  -- of two keys that meet the integer is kept, and no two of the kept ones meet
  let kept := t.storedKeys.filter fun k => !t.merges k
  have hlookup : forall {k : TableKey}, k ∈ t.storedKeys -> exists v, t.lookup k = some v :=
    fun hk => Option.isSome_iff_exists.mp ((mem_storedKeys ht).mp hk)
  have hnodup : (kept.map TableKey.machineKey).Nodup := by
    refine (List.nodup_map_iff_inj_on ((nodup_storedKeys ht).filter _)).mpr ?_
    intro k hk k' hk' hmeets
    rcases List.mem_filter.mp hk with ⟨hmem, hkeep⟩
    rcases List.mem_filter.mp hk' with ⟨hmem', hkeep'⟩
    rcases hlookup hmem with ⟨v, hv⟩
    rcases hlookup hmem' with ⟨v', hv'⟩
    rcases meet_cases ht hv hv' hmeets with hsame | ⟨x, i, hi, ⟨rfl, rfl⟩ | ⟨rfl, rfl⟩⟩
    · exact hsame
    · simp [merges, hi, hv'] at hkeep
    · simp [merges, hi, hv] at hkeep'
  have hmem : forall y, y ∈ T.entries.map Prod.fst ↔ y ∈ kept.map TableKey.machineKey := by
    intro y
    have hentry : y ∈ T.entries.map Prod.fst ↔ T.find y ≠ .nil := by
      constructor
      · intro hy
        rcases List.mem_map.mp hy with ⟨⟨k, v⟩, hkv, rfl⟩
        rcases Table.mem_entries.mp hkv with ⟨hfind, hne⟩
        rwa [hfind]
      · intro hy
        exact List.mem_map.mpr ⟨(y, T.find y), Table.mem_entries.mpr ⟨rfl, hy⟩, rfl⟩
    rw [hentry, hT, List.mem_map]
    constructor
    · rintro ⟨k, v, hk, rfl⟩
      have hstored : k ∈ t.storedKeys := (mem_storedKeys ht).mpr (by rw [hk]; rfl)
      cases hmerges : t.merges k with
      | false => exact ⟨k, List.mem_filter.mpr ⟨hstored, by rw [hmerges]; rfl⟩, rfl⟩
      | true =>
          -- the integer that the double equals stays in its place
          cases k with
          | number x =>
              rcases Option.isSome_iff_exists.mp hmerges with ⟨u, hu⟩
              rcases Option.bind_eq_some_iff.mp hu with ⟨i, hi, hlookup⟩
              have hinteger : .integer i ∈ t.storedKeys :=
                (mem_storedKeys ht).mpr (by rw [hlookup]; rfl)
              exact ⟨.integer i, List.mem_filter.mpr ⟨hinteger, rfl⟩,
                (Value.asKey_integral hi).symm⟩
          | _ => cases hmerges
    · rintro ⟨k, hk, rfl⟩
      rcases hlookup (List.mem_filter.mp hk).1 with ⟨v, hv⟩
      exact ⟨k, v, hv, rfl⟩
  have hperm := (List.perm_ext_iff_of_nodup T.nodup_entries hnodup).mpr hmem
  have hlength : T.entries.length = kept.length := by
    rw [← List.length_map (f := Prod.fst), hperm.length_eq, List.length_map]
  have hsplit := List.length_eq_countP_add_countP t.merges (l := t.storedKeys)
  have hkept : kept.length = t.storedKeys.countP fun k => decide (¬ t.merges k = true) := by
    rw [List.countP_eq_length_filter]
    refine congrArg List.length (List.filter_congr fun k _ => ?_)
    cases t.merges k <;> rfl
  rw [hlength, hkept, ← length_storedKeys t, hsplit, merged, Nat.add_comm]

end Table

end Data

end LuaHost
