import LuaHost.Proofs.Data.FiniteMap
import LuaHost.Proofs.Handle.Detaching
import LuaHost.Proofs.Interface.RoundTrip
import LuaHost.Proofs.Numeric.Rounding

/-!
# Tables and their copies

A key leads the machine to an entry of a table, and the host to an entry of the copy.  Where the keys
of the table have exact forms on the host's side this is one entry, and a write to the table does to
the copy what a write of the host does.
-/

namespace LuaHost

/-!
# Keys as callers give them
-/

namespace Key

/-- The value that is pushed for a key. -/
def toMachine : Key → Value
  | .bool b => .bool b
  | .string s => .ofText s
  | .integer i => .int i
  | .float x => .float x

/-- The key under which the machine has an entry for it. -/
def machineKey (k : Key) : Value := k.toMachine.asKey

/-- The key is no double that equals a positive integer below `2 ^ 63`; the machine takes such a
double for the integer, and a host table does not. -/
def NotPosition (k : Key) : Prop :=
  forall x i, k = .float x -> x.toInt64? = some i -> i.toInt ≤ 0

variable {k : Key}

/-- The host stores such a key as what it makes of the machine's. -/
theorem hostKey?_machineKey (hk : k.NotPosition) : k.machineKey.hostKey? = k.stored? := by
  cases k with
  | bool b => rfl
  | string s =>
      show some (TableKey.string (Bytes.toText s.toUTF8)) = _
      rw [Bytes.toText_toUTF8]
      rfl
  | integer i => rfl
  | float x =>
      cases hx : x.toInt64? with
      | none =>
          have hkey : (Key.float x).machineKey = .float x := Value.asKey_fraction hx
          rw [hkey]
          rfl
      | some i =>
          have hi := hk x i rfl hx
          have hkey : (Key.float x).machineKey = .int i := Value.asKey_integral hx
          have hform : (Value.int i).hostKey? =
              (FloatKey.ofDouble (Double.ofInt64 i)).map TableKey.number :=
            if_neg (by omega)
          rw [hkey, hform]
          refine congrArg (Option.map TableKey.number) ?_
          by_cases hzero : x.isZero
          · have hi : i = 0 := Option.some.inj (hx.symm.trans (Double.toInt64?_of_isZero hzero))
            have hnan : x.isNaN = false :=
              Double.not_isNaN_of_isFinite (Double.isFinite_of_isZero hzero)
            rw [hi, FloatKey.ofDouble_of_number hnan, if_pos hzero]
            rfl
          · rw [Double.ofInt64_of_toInt64? hx fun h => absurd h hzero]

theorem isSome_keyForm? (k : Key) : k.machineKey.keyForm?.isSome = true := by
  cases k with
  | float x =>
      cases hx : x.toInt64? with
      | none =>
          have hkey : (Key.float x).machineKey = .float x := Value.asKey_fraction hx
          rw [hkey]
          rfl
      | some i =>
          have hkey : (Key.float x).machineKey = .int i := Value.asKey_integral hx
          rw [hkey]
          rfl
  | _ => rfl

theorem heldKey_machineKey (hk : k.isNaN = false) : k.machineKey.HeldKey := by
  cases k with
  | bool b => exact .bool b
  | string s => exact .text s
  | integer i => exact .int i
  | float x =>
      cases hx : x.toInt64? with
      | none =>
          have hkey : (Key.float x).machineKey = .float x := Value.asKey_fraction hx
          rw [hkey]
          exact .float hk hx
      | some i =>
          have hkey : (Key.float x).machineKey = .int i := Value.asKey_integral hx
          rw [hkey]
          exact .int i

end Key

/-- An entry's key that has the form of a caller's key is the one that the machine looks for. -/
theorem Value.PlainKey.eq_machineKey {x : Value} (hx : x.PlainKey) {k : Key} (hk : k.NotPosition)
    {s : TableKey} (hform : x.hostKey? = some s) (hstored : k.stored? = some s) :
    x = k.machineKey := by
  have hnumber : k.isNaN = false := by
    by_contra hnan
    rw [Key.stored?_eq_none.mpr (Bool.of_not_eq_false hnan)] at hstored
    cases hstored
  rcases (Key.heldKey_machineKey hnumber).hostKey? with ⟨s', hs', hrounded⟩
  rw [Key.hostKey?_machineKey hk, hstored] at hs'
  cases hs'
  have hx' : x = k.machineKey.rounded := (hx.machineKey_eq hform).symm.trans hrounded
  cases hkey : k.machineKey with
  | int i =>
      rw [hkey] at hx'
      by_cases hi : -(2 ^ 53) < i.toInt
      · rw [hx', rounded_of_large (by omega)]
      · -- such an integer is rounded to one that no plain key is
        rcases Double.exists_rounded (i := i) (by omega) with ⟨j, hj, hle⟩
        rw [rounded_int (by omega), asKey_integral hj] at hx'
        have hlarge := hx.exact j hx'
        omega
  | _ =>
      rw [hkey] at hx'
      exact hx'

/-!
# Traversals below other paths

A traversal depends on its path as far as the path lies ahead of it, and not on its fuel, which never
runs out.
-/

namespace TableCopy

variable {entriesOf : TableId → List (Value × Value)} {n : Nat}

theorem traverse_path (hrange : forall i e, e ∈ entriesOf i -> i.index < n) (fuel : Nat) :
    forall (fuel' : Nat) {path path' : List TableId} {i : TableId},
    path.Nodup -> path'.Nodup -> (forall j, j ∈ path -> j.index < n) ->
    (forall j, j ∈ path' -> j.index < n) -> n < fuel + path.length -> n < fuel' + path'.length ->
    ¬ i ∈ path -> ¬ i ∈ path' ->
    (forall j, TakesIn entriesOf i j -> (j ∈ path ↔ j ∈ path')) ->
    traverse entriesOf fuel path i = traverse entriesOf fuel' path' i := by
  -- on the levels that are left; the paths grow by the same table
  induction fuel with
  | zero =>
      intro fuel' path path' i hpath _ honpath _ hfuel
      have hlength := length_path_le hpath honpath
      omega
  | succ fuel ih =>
      intro fuel' path path' i hpath hpath' honpath honpath' hfuel hfuel' hi hi' hsame
      cases fuel' with
      | zero =>
          have hlength := length_path_le hpath' honpath'
          omega
      | succ fuel' =>
          unfold traverse
          refine List.foldl_ext _ _ _ fun c e he => ?_
          rcases e with ⟨k, v⟩
          unfold addEntry
          cases hkey : k.keyForm? with
          | none => rfl
          | some key =>
              cases v with
              | table j =>
                  have hinside {l : TableId} (hl : TakesIn entriesOf j l) :
                      l ∈ i :: path ↔ l ∈ i :: path' := by
                    rw [List.mem_cons, List.mem_cons, hsame l (hl.inside he (by rw [hkey]; rfl))]
                  dsimp only
                  by_cases hj : j ∈ i :: path
                  · rw [if_pos hj, if_pos ((hinside .self).mp hj)]
                  · have hj' : ¬ j ∈ i :: path' := fun h => hj ((hinside .self).mpr h)
                    have honto (l : TableId) (hl : l ∈ i :: path) : l.index < n := by
                      rcases List.mem_cons.mp hl with rfl | hl
                      · exact hrange l _ he
                      · exact honpath l hl
                    have honto' (l : TableId) (hl : l ∈ i :: path') : l.index < n := by
                      rcases List.mem_cons.mp hl with rfl | hl
                      · exact hrange l _ he
                      · exact honpath' l hl
                    rw [if_neg hj, if_neg hj', ih fuel' (List.nodup_cons.mpr ⟨hi, hpath⟩)
                      (List.nodup_cons.mpr ⟨hi', hpath'⟩) honto honto'
                      (by rw [List.length_cons]; omega) (by rw [List.length_cons]; omega) hj hj'
                      fun l hl => hinside hl]
              | _ => rfl

theorem depth_le_addEntry {path : List TableId} {inner : TableId → TableCopy} (c : TableCopy)
    (e : Value × Value) : c.depth ≤ (addEntry path inner c e).depth := by
  rcases e with ⟨k, v⟩
  unfold addEntry
  cases k.keyForm? with
  | none => exact Nat.le_refl _
  | some key =>
      cases v with
      | table j =>
          dsimp only
          split
          · exact Nat.le_refl _
          · exact Nat.le_max_left _ _
      | _ => exact Nat.le_refl _

theorem depth_le_fold {path : List TableId} {inner : TableId → TableCopy}
    (es : List (Value × Value)) (c : TableCopy) :
    c.depth ≤ (es.foldl (addEntry path inner) c).depth := by
  induction es generalizing c with
  | nil => exact Nat.le_refl _
  | cons e es ih => exact Nat.le_trans (depth_le_addEntry c e) (ih _)

theorem inner_depth_lt {path : List TableId} {inner : TableId → TableCopy} {j : TableId} {k : Value}
    (hk : k.keyForm?.isSome = true) (hj : ¬ j ∈ path) {es : List (Value × Value)}
    (hmem : (k, .table j) ∈ es) (c : TableCopy) :
    (inner j).depth < (es.foldl (addEntry path inner) c).depth := by
  induction es generalizing c with
  | nil => cases hmem
  | cons e es ih =>
      rcases List.mem_cons.mp hmem with rfl | hmem
      · refine Nat.lt_of_lt_of_le ?_ (depth_le_fold es _)
        unfold addEntry
        rcases Option.isSome_iff_exists.mp hk with ⟨key, hkey⟩
        rw [hkey]
        dsimp only
        rw [if_neg hj]
        exact Nat.lt_of_lt_of_le (Nat.lt_succ_self _) (Nat.le_max_right _ _)
      · exact ih hmem _

end TableCopy

/-!
# Copies of the tables of a heap
-/

namespace Heap

variable {h h' : Heap} {i j : TableId} {k v : Value}

/-- No table that is copied with it holds the table. -/
def Rooted (h : Heap) (i : TableId) : Prop :=
  forall j k, TakesIn h.entriesOf i j -> (k, .table i) ∈ h.entriesOf j -> k.keyForm? = none

theorem Rooted.away (hrooted : h.Rooted i) (hentry : (k, .table j) ∈ h.entriesOf i)
    (hk : k.keyForm?.isSome = true) {l : TableId} (hl : TakesIn h.entriesOf j l) : l ≠ i := by
  rintro rfl
  cases hl with
  | self =>
      rw [hrooted _ k .self hentry] at hk
      cases hk
  | entry hj hstep hkey =>
      rw [hrooted _ _ (hj.inside hentry hk) hstep] at hkey
      cases hkey

/-- A table that is copied inside another is copied as it is alone. -/
theorem traverse_inside (hrooted : h.Rooted i) (hentry : (k, .table j) ∈ h.entriesOf i)
    (hk : k.keyForm?.isSome = true) :
    ¬ j ∈ [i] ∧
      TableCopy.traverse h.entriesOf h.tables.items.size [i] j = h.copyTable j := by
  have haway {l : TableId} (hl : TakesIn h.entriesOf j l) : l ≠ i := hrooted.away hentry hk hl
  have hj : ¬ j ∈ [i] := fun hmem => haway .self (List.mem_singleton.mp hmem)
  refine ⟨hj, ?_⟩
  have hi := h.entriesOf_range i _ hentry
  refine TableCopy.traverse_path h.entriesOf_range _ _ (List.nodup_singleton i) List.nodup_nil ?_
    (fun _ hl => absurd hl List.not_mem_nil) ?_ ?_ hj List.not_mem_nil fun l hl => ?_
  · intro l hl
    rw [List.mem_singleton.mp hl]
    exact hi
  · exact Nat.lt_succ_self _
  · exact Nat.lt_succ_self _
  · rw [List.mem_singleton]
    exact ⟨fun heq => absurd heq (haway hl), fun hmem => absurd hmem List.not_mem_nil⟩

theorem hostForm?_inside (hrooted : h.Rooted i) (hentry : (k, v) ∈ h.entriesOf i)
    (hk : k.keyForm?.isSome = true) :
    v.hostForm? [i] (fun j => (TableCopy.traverse h.entriesOf h.tables.items.size [i] j).table) =
      h.formOf? v := by
  cases v with
  | nil => exact absurd rfl (h.entriesOf_ne_nil i _ hentry)
  | table j =>
      rcases traverse_inside hrooted hentry hk with ⟨hj, hcopy⟩
      rw [Value.hostForm?_table hj, hcopy]
      rfl
  | _ => rfl

theorem depth_inside (hrooted : h.Rooted i) (hentry : (k, .table j) ∈ h.entriesOf i)
    (hk : k.keyForm?.isSome = true) : (h.copyTable j).depth < (h.copyTable i).depth := by
  rcases traverse_inside hrooted hentry hk with ⟨hj, hcopy⟩
  rw [← hcopy]
  unfold copyTable
  exact TableCopy.inner_depth_lt hk hj hentry {}

theorem isSome_keyForm? {s : TableKey} (hk : k.hostKey? = some s) : k.keyForm?.isSome = true := by
  rcases Option.bind_eq_some_iff.mp hk with ⟨key, hkey, _⟩
  rw [hkey]
  rfl

theorem wellFormed_copyTable (h : Heap) (i : TableId) : (h.copyTable i).table.WellFormed := by
  unfold copyTable TableCopy.traverse
  exact TableCopy.wellFormed_fold (h.entriesOf_ne_nil i) Data.Table.wellFormed_empty

theorem lookup_copyTable (hrooted : h.Rooted i) (hapart : KeysApart (h.entriesOf i))
    (s : TableKey) (x : Data.Value) :
    (h.copyTable i).table.lookup s = some x ↔
      exists k v, (k, v) ∈ h.entriesOf i ∧ k.hostKey? = some s ∧ h.formOf? v = some x := by
  unfold copyTable TableCopy.traverse
  rw [TableCopy.lookup_fold (h.entriesOf_ne_nil i) hapart]
  constructor
  · rintro ⟨⟨k, v⟩, hmem, hkey, hform⟩
    refine ⟨k, v, hmem, hkey, ?_⟩
    rw [← hostForm?_inside hrooted hmem (isSome_keyForm? hkey)]
    exact hform
  · rintro ⟨k, v, hmem, hkey, hform⟩
    refine ⟨(k, v), hmem, hkey, ?_⟩
    rw [← hostForm?_inside hrooted hmem (isSome_keyForm? hkey)] at hform
    exact hform

theorem formOf?_ne_nil (hv : v ≠ .nil) {x : Data.Value} (hform : h.formOf? v = some x) :
    x ≠ .nil := by
  cases v with
  | nil => exact absurd rfl hv
  | _ => cases hform <;> exact nofun

/-!
# Looking up
-/

/-- The keys of a table are in stored form and no `NaN`, as those of all tables are, and have exact forms
on the host's side: strings are UTF-8, and integers are above `-2 ^ 53`. -/
structure Plain (h : Heap) (i : TableId) : Prop where
  keys : forall e, e ∈ h.entriesOf i -> e.1.PlainKey
  number : forall x v, (.float x, v) ∈ h.entriesOf i -> x.isNaN = false

theorem Plain.find_nan (hplain : h.Plain i) {k : Key} (hk : k.NotPosition)
    (hstored : k.stored? = none) : (h.tables.get i.index).find k.machineKey = .nil := by
  by_contra hne
  have hentry : (k.machineKey, (h.tables.get i.index).find k.machineKey) ∈ h.entriesOf i :=
    Table.mem_entries.mpr ⟨rfl, hne⟩
  have hnan := Key.stored?_eq_none.mp hstored
  cases k with
  | float x =>
      cases hx : x.toInt64? with
      | none =>
          have hkey : (Key.float x).machineKey = .float x := Value.asKey_fraction hx
          rw [hkey] at hentry
          have hnumber := hplain.number x _ hentry
          rw [show x.isNaN = true from hnan] at hnumber
          cases hnumber
      | some l =>
          have hform := Key.hostKey?_machineKey hk
          have hkey : (Key.float x).machineKey = .int l := Value.asKey_integral hx
          rw [hstored, hkey] at hform
          rcases (Value.HeldKey.int l).hostKey? with ⟨s, hs, _⟩
          rw [hform] at hs
          cases hs
  | _ => cases hnan

/-- The one entry whose key has the form of a caller's key is what the machine finds. -/
theorem Plain.find_stored (hplain : h.Plain i) {k : Key} (hk : k.NotPosition) {s : TableKey}
    (hstored : k.stored? = some s) {key u : Value} (hmem : (key, u) ∈ h.entriesOf i)
    (hkey : key.hostKey? = some s) :
    (h.tables.get i.index).find k.machineKey = u ∧ u ≠ .nil := by
  have hkey' : key = k.machineKey := (hplain.keys _ hmem).eq_machineKey hk hkey hstored
  subst hkey'
  exact Table.mem_entries.mp hmem

/-- What the machine has under a key is on the host's side what the copy has. -/
theorem get_copyTable (hrooted : h.Rooted i) (hplain : h.Plain i) {k : Key}
    (hk : k.NotPosition) :
    (h.copyTable i).table.get k =
      (h.formOf? ((h.tables.get i.index).get k.toMachine)).bind Data.Value.present? := by
  show _ = (h.formOf? ((h.tables.get i.index).find k.machineKey)).bind Data.Value.present?
  rw [Data.Table.get_eq_lookup (h.wellFormed_copyTable i)]
  cases hstored : k.stored? with
  | none =>
      rw [hplain.find_nan hk hstored]
      rfl
  | some s =>
      rw [Option.bind_some]
      apply Option.ext
      intro x
      rw [lookup_copyTable hrooted (keysApart_of_plain hplain.keys)]
      constructor
      · rintro ⟨key, u, hmem, hkey, hu⟩
        rcases hplain.find_stored hk hstored hmem hkey with ⟨hfind, hne⟩
        rw [hfind, hu, Option.bind_some]
        exact Data.Value.present?_of_ne (formOf?_ne_nil hne hu)
      · intro hx
        rcases Option.bind_eq_some_iff.mp hx with ⟨y, hy, hpresent⟩
        have hne : (h.tables.get i.index).find k.machineKey ≠ .nil := by
          intro hnil
          rw [hnil] at hy
          cases hy
          cases hpresent
        rw [Data.Value.present?_of_ne (formOf?_ne_nil hne hy)] at hpresent
        cases hpresent
        refine ⟨k.machineKey, _, Table.mem_entries.mpr ⟨rfl, hne⟩, ?_, hy⟩
        exact (Key.hostKey?_machineKey hk).trans hstored

/-!
# Writing
-/

/-- A table that can be compared with its copy: it is in the heap, with all tables that are copied with
it, and none of these holds it. -/
structure Viewable (h : Heap) (i : TableId) : Prop extends h.Plain i where
  live : h.tables.live i.index = true
  known : forall j, TakesIn h.entriesOf i j -> j.index < h.tables.next
  rooted : h.Rooted i

/-- In the second heap a table has the machine's form `u` of a host value under a key.  The form was
made of new tables, which gave the store `s`. -/
structure Assigned (h : Heap) (i : TableId) (k : Key) (x : Data.Value) (u : Value)
    (s : Store Table) (h' : Heap) : Prop where
  grown : h.tables.Extends s
  enclosed : Enclosed s h.tables.next s.next
  image : Image s h.tables.next s.next x u
  tables_eq : h'.tables = s.modify i.index (·.set k.toMachine u)

theorem copyTable_congr (hnext : h.tables.next ≤ h'.tables.next)
    (hsame : forall l, TakesIn h.entriesOf j l -> h'.entriesOf l = h.entriesOf l) :
    h'.copyTable j = h.copyTable j := by
  unfold copyTable
  rw [TableCopy.traverse_congr _ [] j hsame]
  have honpath (l : TableId) (hl : l ∈ ([] : List TableId)) : l.index < h.tables.items.size :=
    absurd hl List.not_mem_nil
  have hnext : h.tables.items.size ≤ h'.tables.items.size := hnext
  exact TableCopy.traverse_path h.entriesOf_range _ _ List.nodup_nil List.nodup_nil honpath honpath
    (Nat.lt_succ_of_le hnext) (Nat.lt_succ_self _) List.not_mem_nil List.not_mem_nil
    fun _ _ => Iff.rfl

/-- What was made for a host value is copied as that value. -/
theorem formOf?_image {lo : Nat} {x : Data.Value} {u : Value}
    (himage : Image h.tables lo h.tables.next x u)
    (henclosed : Enclosed h.tables lo h.tables.next) : h.formOf? u = some x := by
  cases himage with
  | @scalar _ u hform _ =>
      cases u with
      | table j => cases hform
      | _ => exact hform
  | @table t j hlo hhi hunfolds =>
      have hapart : forall l, Within h.entriesOf j l -> KeysApart (h.entriesOf l) := by
        intro l hl
        have hrange := henclosed.within hlo hhi hl
        exact henclosed.keysApart hrange.1 hrange.2
      have ht := hunfolds [] fun l hl => absurd hl List.not_mem_nil
      exact congrArg (fun t => some (Data.Value.table t)) ((h.copyTable_unfolds hapart).unique ht)

theorem depth_image {lo : Nat} {x : Data.Value}
    (himage : Image h.tables lo h.tables.next x (.table j))
    (henclosed : Enclosed h.tables lo h.tables.next) : (h.copyTable j).depth ≤ x.slots := by
  cases himage with
  | scalar hform _ => cases hform
  | @table t _ hlo hhi hunfolds =>
      have ht := hunfolds [] fun l hl => absurd hl List.not_mem_nil
      rw [Data.Value.slots]
      refine depth_traverse ht ?_ _
      intro l e hl he
      have hrange := henclosed.within hlo hhi hl
      rcases henclosed.keys l e hrange.1 hrange.2 he with ⟨key, hkey, heq⟩
      exact ⟨key, heq ▸ hkey.hostKey?_machineKey⟩

namespace Assigned

variable {key : Key} {x : Data.Value} {u : Value} {s : Store Table}

section Store

variable (hnew : Assigned h i key x u s h')

include hnew

theorem next_eq : h'.tables.next = s.next := by
  rw [hnew.tables_eq]
  exact Store.next_modify _ _ _

theorem next_le : h.tables.next ≤ h'.tables.next := by
  rw [hnew.next_eq]
  exact hnew.grown.next_le

theorem entriesOf_old (hj : j.index < h.tables.next) (hne : j ≠ i) :
    h'.entriesOf j = h.entriesOf j := by
  have hne : i.index ≠ j.index := fun heq => hne (congrArg TableId.mk heq.symm)
  unfold entriesOf
  rw [hnew.tables_eq, Store.get_modify_ne _ hne]
  exact entriesOf_congr (hnew.grown.find?_eq j.index hj)

theorem find?_new (hi : i.index < h.tables.next) (n : Nat) (hn : h.tables.next ≤ n)
    (_ : n < s.next) : h'.tables.find? n = s.find? n := by
  rw [hnew.tables_eq, Store.find?_modify, if_neg (by omega)]

theorem enclosed_new (hi : i.index < h.tables.next) :
    Enclosed h'.tables h.tables.next h'.tables.next := by
  rw [hnew.next_eq]
  exact hnew.enclosed.stable (hnew.find?_new hi)

theorem image_new (hi : i.index < h.tables.next) :
    Image h'.tables h.tables.next h'.tables.next x u := by
  rw [hnew.next_eq]
  exact hnew.image.stable hnew.enclosed (hnew.find?_new hi)

theorem mem_entriesOf (hlive : h.tables.live i.index = true) :
    (k, v) ∈ h'.entriesOf i ↔
      (if key.machineKey = k then u else (h.tables.get i.index).find k) = v ∧ v ≠ .nil := by
  have hold := hnew.grown.find?_eq i.index (Store.lt_next_of_live hlive)
  have hlive' : s.live i.index = true := by
    unfold Store.live at hlive ⊢
    rw [hold]
    exact hlive
  have hget : s.get i.index = h.tables.get i.index := by
    unfold Store.get
    rw [hold]
  unfold entriesOf
  rw [hnew.tables_eq, Store.get_modify_self hlive', hget, Table.mem_entries, Table.find_set]
  exact Iff.rfl

theorem entry_cases (hlive : h.tables.live i.index = true) (hmem : (k, v) ∈ h'.entriesOf i) :
    (k = key.machineKey ∧ v = u ∧ u ≠ .nil) ∨ (k ≠ key.machineKey ∧ (k, v) ∈ h.entriesOf i) := by
  have hfind := (hnew.mem_entriesOf hlive).mp hmem
  by_cases hk : key.machineKey = k
  · rw [if_pos hk] at hfind
    exact .inl ⟨hk.symm, hfind.1.symm, hfind.1 ▸ hfind.2⟩
  · rw [if_neg hk] at hfind
    exact .inr ⟨Ne.symm hk, Table.mem_entries.mpr hfind⟩

end Store

section View

variable (hnew : Assigned h i key x u s h') (hview : h.Viewable i)

include hnew hview

/-- Every table that is copied with it now was copied with it before, or is new; and none of them
leads back. -/
theorem leads (hj : TakesIn h'.entriesOf i j) :
    (TakesIn h.entriesOf i j ∨ (h.tables.next ≤ j.index ∧ j.index < h'.tables.next)) ∧
      forall {k l}, (k, .table l) ∈ h'.entriesOf j -> k.keyForm?.isSome = true ->
        l ≠ i ∧ (TakesIn h.entriesOf i l ∨
          (h.tables.next ≤ l.index ∧ l.index < h'.tables.next)) := by
  have hi := Store.lt_next_of_live hview.live
  have henclosed := hnew.enclosed_new hi
  have hfresh {l : TableId} (hl : h.tables.next ≤ l.index) : l ≠ i := by
    rintro rfl
    omega
  have hold {j l : TableId} {k : Value} (hj : TakesIn h.entriesOf i j)
      (hmem : (k, .table l) ∈ h.entriesOf j) (hk : k.keyForm?.isSome = true) :
      l ≠ i ∧ TakesIn h.entriesOf i l := by
    refine ⟨?_, hj.entry hmem hk⟩
    rintro rfl
    rw [hview.rooted j k hj hmem] at hk
    cases hk
  -- from a table that was copied before one gets to such a table, or by the new entry to a new one
  have hstep {j l : TableId} {k : Value}
      (hj : TakesIn h.entriesOf i j ∨ (h.tables.next ≤ j.index ∧ j.index < h'.tables.next))
      (hmem : (k, .table l) ∈ h'.entriesOf j) (hk : k.keyForm?.isSome = true) :
      l ≠ i ∧ (TakesIn h.entriesOf i l ∨
        (h.tables.next ≤ l.index ∧ l.index < h'.tables.next)) := by
    rcases hj with hj | ⟨hlo, hhi⟩
    · by_cases hji : j = i
      · subst hji
        rcases hnew.entry_cases hview.live hmem with ⟨_, hu, _⟩ | ⟨_, hmem⟩
        · have himage := hnew.image_new hi
          rw [← hu] at himage
          cases himage with
          | scalar hform _ => cases hform
          | table hlo hhi _ => exact ⟨hfresh hlo, .inr ⟨hlo, hhi⟩⟩
        · exact (hold hj hmem hk).imp_right .inl
      · rw [hnew.entriesOf_old (hview.known j hj) hji] at hmem
        exact (hold hj hmem hk).imp_right .inl
    · have hnewer := henclosed.leads j k l hlo hhi hmem
      have hlo : h.tables.next ≤ l.index := by omega
      exact ⟨hfresh hlo, .inr ⟨hlo, hnewer.2⟩⟩
  have hwhere : TakesIn h.entriesOf i j ∨
      (h.tables.next ≤ j.index ∧ j.index < h'.tables.next) := by
    induction hj with
    | self => exact .inl .self
    | entry _ hmem hk ih => exact (hstep ih hmem hk).2
  exact ⟨hwhere, hstep hwhere⟩

theorem rooted : h'.Rooted i := by
  intro j k hj hmem
  by_contra hsome
  exact ((hnew.leads hview hj).2 hmem (Option.isSome_iff_ne_none.mpr hsome)).1 rfl

theorem copyTable_old (hmem : (k, .table j) ∈ h.entriesOf i) (hk : k.keyForm?.isSome = true) :
    h'.copyTable j = h.copyTable j := by
  refine copyTable_congr hnew.next_le fun l hl => ?_
  exact hnew.entriesOf_old (hview.known l (hl.inside hmem hk)) (hview.rooted.away hmem hk hl)

theorem formOf?_old (hmem : (k, v) ∈ h.entriesOf i) (hk : k.keyForm?.isSome = true) :
    h'.formOf? v = h.formOf? v := by
  cases v with
  | table j =>
      exact congrArg (fun c : TableCopy => some (Data.Value.table c.table))
        (hnew.copyTable_old hview hmem hk)
  | _ => rfl

theorem formOf?_new : h'.formOf? u = some x := by
  have hi := Store.lt_next_of_live hview.live
  exact formOf?_image (hnew.image_new hi) (hnew.enclosed_new hi)

theorem keysApart (hkey : key.NotPosition) : KeysApart (h'.entriesOf i) := by
  rintro ⟨k, v⟩ ⟨k', v'⟩ f he hf hek hfk
  refine Table.entries_key_inj he hf ?_
  have hmeets {l m : Value} (hl : l.PlainKey) (hform : l.hostKey? = some f)
      (hm : m = key.machineKey) (hform' : m.hostKey? = some f) : l = m := by
    rw [hm, Key.hostKey?_machineKey hkey] at hform'
    rw [hm]
    exact hl.eq_machineKey hkey hform hform'
  rcases hnew.entry_cases hview.live he with ⟨hk, _⟩ | ⟨_, he⟩
  · rcases hnew.entry_cases hview.live hf with ⟨hk', _⟩ | ⟨_, hf⟩
    · exact hk.trans hk'.symm
    · exact (hmeets (hview.keys _ hf) hfk hk hek).symm
  · rcases hnew.entry_cases hview.live hf with ⟨hk', _⟩ | ⟨_, hf⟩
    · exact hmeets (hview.keys _ he) hek hk' hfk
    · exact congrArg Prod.fst (keysApart_of_plain hview.keys _ _ f he hf hek hfk)

/-- The copy of the table is the copy that there was, with the host's write. -/
theorem copyTable_eq (hkey : key.NotPosition) (hnumber : key.isNaN = false) :
    (h'.copyTable i).table = (h.copyTable i).table.set key x := by
  have hwell := h.wellFormed_copyTable i
  have hform := hnew.formOf?_new hview
  have hforms := Key.hostKey?_machineKey hkey
  cases hstored : key.stored? with
  | none =>
      rw [Key.stored?_eq_none.mp hstored] at hnumber
      cases hnumber
  | some f =>
      rw [hstored] at hforms
      refine Data.Table.ext_lookup (h'.wellFormed_copyTable i)
        (Data.Table.wellFormed_set hwell key x) fun g => Option.ext fun y => ?_
      rw [lookup_copyTable (hnew.rooted hview) (hnew.keysApart hview hkey),
        Data.Table.lookup_set hwell hstored]
      -- under the key that was written only the new entry counts, and elsewhere only the old ones
      by_cases hfg : f = g
      · subst hfg
        rw [if_pos rfl]
        constructor
        · rintro ⟨k, v, hmem, hk, hv⟩
          rcases hnew.entry_cases hview.live hmem with ⟨_, rfl, hne⟩ | ⟨hne, hmem⟩
          · rw [hform] at hv
            cases hv
            exact Data.Value.present?_of_ne (formOf?_ne_nil hne hform)
          · exact absurd ((hview.keys _ hmem).eq_machineKey hkey hk hstored) hne
        · intro hpresent
          have hx : x ≠ .nil := by
            rintro rfl
            cases hpresent
          rw [Data.Value.present?_of_ne hx] at hpresent
          cases hpresent
          refine ⟨key.machineKey, u, ?_, hforms, hform⟩
          rw [hnew.mem_entriesOf hview.live, if_pos rfl]
          exact ⟨rfl, hnew.image.ne_nil hx⟩
      · rw [if_neg hfg, lookup_copyTable hview.rooted (keysApart_of_plain hview.keys)]
        constructor
        · rintro ⟨k, v, hmem, hk, hv⟩
          rcases hnew.entry_cases hview.live hmem with ⟨rfl, _, _⟩ | ⟨_, hmem⟩
          · rw [hforms] at hk
            exact absurd (Option.some.inj hk) hfg
          · rw [hnew.formOf?_old hview hmem (isSome_keyForm? hk)] at hv
            exact ⟨k, v, hmem, hk, hv⟩
        · rintro ⟨k, v, hmem, hk, hv⟩
          have hne : key.machineKey ≠ k := by
            rintro rfl
            rw [hforms] at hk
            exact hfg (Option.some.inj hk)
          rw [← hnew.formOf?_old hview hmem (isSome_keyForm? hk)] at hv
          refine ⟨k, v, ?_, hk, hv⟩
          rw [hnew.mem_entriesOf hview.live, if_neg hne]
          exact Table.mem_entries.mp hmem

/-- The copy is no deeper than the one that there was, or the table around the new value. -/
theorem depth_le : (h'.copyTable i).depth ≤ max (h.copyTable i).depth (x.slots + 1) := by
  have hi := Store.lt_next_of_live hview.live
  have hone : 1 ≤ max (h.copyTable i).depth (x.slots + 1) := by omega
  unfold copyTable
  refine TableCopy.depth_fold ?_ hone
  rintro ⟨k, v⟩ j key' hmem hv hform _
  have hv : v = .table j := hv
  subst hv
  have hk : k.keyForm?.isSome = true := Option.isSome_iff_exists.mpr ⟨key', hform⟩
  rw [(traverse_inside (hnew.rooted hview) hmem hk).2]
  rcases hnew.entry_cases hview.live hmem with ⟨_, hu, _⟩ | ⟨_, hmem⟩
  · have himage := hnew.image_new hi
    rw [← hu] at himage
    have hdepth := depth_image himage (hnew.enclosed_new hi)
    omega
  · rw [hnew.copyTable_old hview hmem hk]
    have hdepth := depth_inside hview.rooted hmem hk
    unfold copyTable at hdepth ⊢
    omega

end View

end Assigned

end Heap

end LuaHost
