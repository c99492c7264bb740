import LuaHost.Interface.CopyOut
import LuaHost.Proofs.Data.Building
import LuaHost.Proofs.Machine.Contents
import Mathlib.Data.List.Nodup
import Mathlib.Data.List.Perm.Subperm

/-!
# The acyclic unfolding of a machine table

Tables of the machine form a graph; their copies are trees.  The copy of a
table below a path of tables holds the entries whose key and value have a form
on the host's side, and leaves out those that lead back to the path.  The
relation below says so entry by entry, without an order.  It determines the
copy, and a traversal in any order computes it.
-/

namespace LuaHost

/-!
# The relation
-/

/-- The key under which the copy of a table stores an entry. -/
def Value.hostKey? (k : Value) : Option TableKey := k.keyForm?.bind Key.stored?

/-- The host's form of an entry's value; `inner` copies the tables that are not
on the path. -/
def Value.hostForm? (path : List TableId) (inner : TableId → Data.Table) : Value → Option Data.Value
  | .nil => none
  | .table j => if j ∈ path then none else some (.table (inner j))
  | v => v.scalarForm?

/-- `Unfolds entriesOf path i t`: below the tables of `path`, the copy of the
table `i` is `t`. -/
inductive Unfolds (entriesOf : TableId → List (Value × Value)) :
    List TableId → TableId → Data.Table → Prop where
  | intro {path : List TableId} {i : TableId} {t : Data.Table} (inner : TableId → Data.Table) :
      t.WellFormed →
      (forall s x, t.lookup s = some x ↔
        exists k v, (k, v) ∈ entriesOf i ∧ k.hostKey? = some s ∧
          v.hostForm? (i :: path) inner = some x) →
      (forall k j, (k, .table j) ∈ entriesOf i -> ¬ j ∈ i :: path ->
        Unfolds entriesOf (i :: path) j (inner j)) →
      Unfolds entriesOf path i t

/-- The tables that a table leads to through its entries. -/
inductive Within (entriesOf : TableId → List (Value × Value)) (i : TableId) : TableId → Prop where
  | self : Within entriesOf i i
  | entry {j l : TableId} {k : Value} :
      Within entriesOf i j → (k, .table l) ∈ entriesOf j → Within entriesOf i l

theorem Within.inside {entriesOf : TableId → List (Value × Value)} {i j l : TableId} {k : Value}
    (hj : (k, .table j) ∈ entriesOf i) (h : Within entriesOf j l) : Within entriesOf i l := by
  induction h with
  | self => exact Within.entry Within.self hj
  | entry _ hstep ih => exact Within.entry ih hstep

/-- No two keys of a table have the same form on the host's side. -/
def KeysApart (es : List (Value × Value)) : Prop :=
  forall e f s, e ∈ es -> f ∈ es -> e.1.hostKey? = some s -> f.1.hostKey? = some s -> e = f

/-!
# Forms of values
-/

theorem Value.hostForm?_table {path : List TableId} {inner : TableId → Data.Table} {j : TableId}
    (hj : ¬ j ∈ path) : (Value.table j).hostForm? path inner = some (.table (inner j)) :=
  if_neg hj

theorem Value.hostForm?_ne_nil {path : List TableId} {inner : TableId → Data.Table} {v : Value}
    {x : Data.Value} (h : v.hostForm? path inner = some x) : x ≠ .nil := by
  cases v with
  | table j =>
      unfold hostForm? at h
      simp only at h
      split at h
      · cases h
      · cases h
        exact nofun
  | _ =>
      cases h <;> exact nofun

theorem Value.hostForm?_congr {path : List TableId} {inner inner' : TableId → Data.Table}
    {v : Value} (h : forall j, v = .table j -> ¬ j ∈ path -> inner j = inner' j) :
    v.hostForm? path inner = v.hostForm? path inner' := by
  cases v with
  | table j =>
      unfold hostForm?
      by_cases hj : j ∈ path
      · simp only [if_pos hj]
      · simp only [if_neg hj, h j rfl hj]
  | _ => rfl

/-!
# The copy is determined
-/

theorem Unfolds.unique {entriesOf : TableId → List (Value × Value)} {path : List TableId}
    {i : TableId} {t t' : Data.Table} (h : Unfolds entriesOf path i t)
    (h' : Unfolds entriesOf path i t') : t = t' := by
  induction h generalizing t' with
  | @intro path i t inner ht hentries _ ih =>
      cases h' with
      | intro inner' ht' hentries' hinner' =>
          have hform : forall k v, (k, v) ∈ entriesOf i ->
              v.hostForm? (i :: path) inner = v.hostForm? (i :: path) inner' := by
            intro k v hmem
            apply Value.hostForm?_congr
            intro j hv hj
            subst hv
            exact ih k j hmem hj (hinner' k j hmem hj)
          apply Data.Table.ext_lookup ht ht'
          intro s
          apply Option.ext
          intro x
          rw [hentries, hentries']
          constructor
          · rintro ⟨k, v, hmem, hkey, hx⟩
            exact ⟨k, v, hmem, hkey, (hform k v hmem).symm.trans hx⟩
          · rintro ⟨k, v, hmem, hkey, hx⟩
            exact ⟨k, v, hmem, hkey, (hform k v hmem).trans hx⟩

/-!
# One entry

An entry writes at most one key of the copy, and an entry that is left out
changes nothing but the log.
-/

namespace TableCopy

/-- Whether an entry writes a key of the copy, and what. -/
def Writes (path : List TableId) (inner : TableId → TableCopy) (e : Value × Value) (s : TableKey)
    (x : Data.Value) : Prop :=
  e.1.hostKey? = some s ∧ e.2.hostForm? path (fun j => (inner j).table) = some x

theorem table_addEntry {path : List TableId} {inner : TableId → TableCopy} {e : Value × Value}
    (he : e.2 ≠ .nil) (c : TableCopy) :
    (addEntry path inner c e).table =
      match e.1.keyForm?, e.2.hostForm? path fun j => (inner j).table with
      | some k, some x => c.table.set k x
      | _, _ => c.table := by
  rcases e with ⟨k, v⟩
  unfold addEntry
  cases hk : k.keyForm? with
  | none => rfl
  | some k' =>
      cases v with
      | nil => exact absurd rfl he
      | table j =>
          unfold Value.hostForm?
          simp only
          split
          · rfl
          · rfl
      | _ => rfl

theorem addEntry_writes {path : List TableId} {inner : TableId → TableCopy} {e : Value × Value}
    (he : e.2 ≠ .nil) {c : TableCopy} (hc : c.table.WellFormed) {s : TableKey} {x : Data.Value}
    (h : Writes path inner e s x) (s' : TableKey) :
    (addEntry path inner c e).table.lookup s' = if s = s' then some x else c.table.lookup s' := by
  rw [table_addEntry he, h.2]
  unfold Writes Value.hostKey? at h
  cases hk : e.1.keyForm? with
  | none =>
      rw [hk] at h
      cases h.1
  | some k =>
      rw [hk] at h
      show (c.table.set k x).lookup s' = _
      rw [Data.Table.lookup_set hc h.1, Data.Value.present?_of_ne (Value.hostForm?_ne_nil h.2)]

theorem addEntry_keeps {path : List TableId} {inner : TableId → TableCopy} {e : Value × Value}
    (he : e.2 ≠ .nil) {c : TableCopy} (hc : c.table.WellFormed) {s : TableKey}
    (h : forall x, ¬ Writes path inner e s x) :
    (addEntry path inner c e).table.lookup s = c.table.lookup s := by
  cases hx : e.2.hostForm? path fun j => (inner j).table with
  | none =>
      rw [table_addEntry he, hx]
      cases e.1.keyForm? <;> rfl
  | some x =>
      cases hs : e.1.hostKey? with
      | none =>
          rw [table_addEntry he, hx]
          unfold Value.hostKey? at hs
          cases hk : e.1.keyForm? with
          | none => rfl
          | some k =>
              rw [hk] at hs
              show (c.table.set k x).lookup s = _
              rw [Data.Table.set_of_not_stored hc hs]
      | some s' =>
          have hne : s' ≠ s := by
            intro heq
            exact h x ⟨hs.trans (congrArg some heq), hx⟩
          rw [addEntry_writes he hc ⟨hs, hx⟩, if_neg hne]

theorem wellFormed_addEntry {path : List TableId} {inner : TableId → TableCopy}
    {e : Value × Value} (he : e.2 ≠ .nil) {c : TableCopy} (hc : c.table.WellFormed) :
    (addEntry path inner c e).table.WellFormed := by
  rw [table_addEntry he]
  split
  · exact Data.Table.wellFormed_set hc _ _
  · exact hc

/-!
# All entries
-/

section Entries

variable {path : List TableId} {inner : TableId → TableCopy} {es : List (Value × Value)}

theorem wellFormed_fold (hes : forall e, e ∈ es -> e.2 ≠ .nil) {c : TableCopy}
    (hc : c.table.WellFormed) : (es.foldl (addEntry path inner) c).table.WellFormed := by
  induction es generalizing c with
  | nil => exact hc
  | cons e es ih =>
      exact ih (fun f hf => hes f (List.mem_cons_of_mem e hf))
        (wellFormed_addEntry (hes e List.mem_cons_self) hc)

theorem fold_keeps (hes : forall e, e ∈ es -> e.2 ≠ .nil) {c : TableCopy}
    (hc : c.table.WellFormed) {s : TableKey}
    (h : forall e x, e ∈ es -> ¬ Writes path inner e s x) :
    (es.foldl (addEntry path inner) c).table.lookup s = c.table.lookup s := by
  induction es generalizing c with
  | nil => rfl
  | cons e es ih =>
      have he := hes e List.mem_cons_self
      rw [List.foldl_cons, ih (fun f hf => hes f (List.mem_cons_of_mem e hf))
        (wellFormed_addEntry he hc) (fun f x hf => h f x (List.mem_cons_of_mem e hf))]
      exact addEntry_keeps he hc fun x => h e x List.mem_cons_self

/-- The one entry that writes a key decides what the copy holds there, wherever
it stands in the enumeration. -/
theorem fold_writes (hes : forall e, e ∈ es -> e.2 ≠ .nil) (hapart : KeysApart es)
    {c : TableCopy} (hc : c.table.WellFormed) {e : Value × Value} (hmem : e ∈ es) {s : TableKey}
    {x : Data.Value} (h : Writes path inner e s x) :
    (es.foldl (addEntry path inner) c).table.lookup s = some x := by
  induction es generalizing c with
  | nil => cases hmem
  | cons f es ih =>
      have hf := hes f List.mem_cons_self
      have hes' : forall g, g ∈ es -> g.2 ≠ .nil := fun g hg => hes g (List.mem_cons_of_mem f hg)
      have hc' : (addEntry path inner c f).table.WellFormed := wellFormed_addEntry hf hc
      rw [List.foldl_cons]
      by_cases htail : e ∈ es
      · refine ih hes' ?_ hc' htail
        intro g g' s' hg hg'
        exact hapart g g' s' (List.mem_cons_of_mem f hg) (List.mem_cons_of_mem f hg')
      · have hef : e = f := by
          rcases List.mem_cons.mp hmem with heq | htail'
          · exact heq
          · exact absurd htail' htail
        subst hef
        have hrest : forall g y, g ∈ es -> ¬ Writes path inner g s y := by
          intro g y hg hw
          have heq := hapart e g s hmem (List.mem_cons_of_mem e hg) h.1 hw.1
          exact htail (heq ▸ hg)
        rw [fold_keeps hes' hc' hrest, addEntry_writes hf hc h, if_pos rfl]

/-- The copy holds what its entries write and nothing else. -/
theorem lookup_fold (hes : forall e, e ∈ es -> e.2 ≠ .nil) (hapart : KeysApart es)
    (s : TableKey) (x : Data.Value) :
    (es.foldl (addEntry path inner) {}).table.lookup s = some x ↔
      exists e, e ∈ es ∧ Writes path inner e s x := by
  have hempty : ({} : TableCopy).table.WellFormed := Data.Table.wellFormed_empty
  constructor
  · intro hx
    by_contra hno
    by_cases hall : forall e y, e ∈ es -> ¬ Writes path inner e s y
    · rw [fold_keeps hes hempty hall, show ({} : TableCopy).table.lookup s = none from
        Data.Table.lookup_empty s] at hx
      cases hx
    · push Not at hall
      rcases hall with ⟨e, y, he, hw⟩
      rw [fold_writes hes hapart hempty he hw] at hx
      cases hx
      exact hno ⟨e, he, hw⟩
  · rintro ⟨e, he, hw⟩
    exact fold_writes hes hapart hempty he hw

end Entries

/-!
# The traversal

The fuel never runs out: every table on the path has an entry, no table is on
it twice, and only finitely many tables have entries.
-/

theorem length_path_le {n : Nat} {path : List TableId} (hpath : path.Nodup)
    (hrange : forall j, j ∈ path -> j.index < n) : path.length ≤ n := by
  have hindex : (path.map TableId.index).Nodup := by
    refine List.Nodup.map ?_ hpath
    rintro ⟨i⟩ ⟨j⟩ hij
    exact congrArg TableId.mk hij
  have hsub : path.map TableId.index ⊆ List.range n := by
    intro i hi
    rcases List.mem_map.mp hi with ⟨j, hj, heq⟩
    exact heq ▸ List.mem_range.mpr (hrange j hj)
  have hlen := (hindex.subperm hsub).length_le
  rwa [List.length_map, List.length_range] at hlen

section Traversal

variable {entriesOf order : TableId → List (Value × Value)} {n : Nat}
  (hvalues : forall i e, e ∈ entriesOf i -> e.2 ≠ .nil)
  (hrange : forall i e, e ∈ entriesOf i -> i.index < n)
  (horder : forall i, (order i).Perm (entriesOf i))

include hvalues hrange horder

theorem unfolds_traverse (fuel : Nat) {path : List TableId} {i : TableId} (hpath : path.Nodup)
    (honpath : forall j, j ∈ path -> j.index < n) (hfuel : n < fuel + path.length)
    (hi : ¬ i ∈ path) (hapart : forall j, Within entriesOf i j -> KeysApart (entriesOf j)) :
    Unfolds entriesOf path i (traverse order fuel path i).table := by
  induction fuel generalizing path i with
  | zero =>
      have hlen := length_path_le hpath honpath
      omega
  | succ fuel ih =>
      have hmem : forall e, e ∈ order i ↔ e ∈ entriesOf i := fun e => (horder i).mem_iff
      have hvalues' : forall e, e ∈ order i -> e.2 ≠ .nil :=
        fun e he => hvalues i e ((hmem e).mp he)
      have hapart' : KeysApart (order i) := by
        intro e f s he hf
        exact hapart i Within.self e f s ((hmem e).mp he) ((hmem f).mp hf)
      refine Unfolds.intro (fun j => (traverse order fuel (i :: path) j).table) ?_ ?_ ?_
      · exact wellFormed_fold hvalues' Data.Table.wellFormed_empty
      · intro s x
        rw [traverse, lookup_fold hvalues' hapart' s x]
        constructor
        · rintro ⟨⟨k, v⟩, he, hw⟩
          exact ⟨k, v, (hmem _).mp he, hw.1, hw.2⟩
        · rintro ⟨k, v, he, hkey, hx⟩
          exact ⟨(k, v), (hmem _).mpr he, hkey, hx⟩
      · intro k j he hj
        apply ih (List.nodup_cons.mpr ⟨hi, hpath⟩)
        · intro l hl
          rcases List.mem_cons.mp hl with heq | hold
          · exact heq ▸ hrange i _ he
          · exact honpath l hold
        · rw [List.length_cons]
          omega
        · exact hj
        · intro l hl
          exact hapart l (hl.inside he)

end Traversal

end TableCopy

/-!
# How deep the traversal goes
-/

namespace TableCopy

theorem depth_addEntry {path : List TableId} {inner : TableId → TableCopy} {n : Nat}
    {e : Value × Value} (h : forall j k, e.2 = .table j -> e.1.keyForm? = some k -> ¬ j ∈ path ->
      (inner j).depth + 1 ≤ n) {c : TableCopy} (hc : c.depth ≤ n) :
    (addEntry path inner c e).depth ≤ n := by
  rcases e with ⟨k, v⟩
  unfold addEntry
  cases hk : k.keyForm? with
  | none => exact hc
  | some k' =>
      cases v with
      | table j =>
          by_cases hj : j ∈ path
          · simp only [if_pos hj]
            exact hc
          · simp only [if_neg hj]
            exact Nat.max_le.mpr ⟨hc, h j k' rfl hk hj⟩
      | _ => exact hc

theorem depth_fold {path : List TableId} {inner : TableId → TableCopy} {n : Nat}
    {es : List (Value × Value)}
    (h : forall e j k, e ∈ es -> e.2 = .table j -> e.1.keyForm? = some k -> ¬ j ∈ path ->
      (inner j).depth + 1 ≤ n) {c : TableCopy} (hc : c.depth ≤ n) :
    (es.foldl (addEntry path inner) c).depth ≤ n := by
  induction es generalizing c with
  | nil => exact hc
  | cons e es ih =>
      apply ih (fun f j k hf => h f j k (List.mem_cons_of_mem e hf))
      exact depth_addEntry (fun j k => h e j k List.mem_cons_self) hc

end TableCopy

/-!
# Copies of the tables of a heap
-/

namespace Heap

theorem entriesOf_ne_nil (h : Heap) (i : TableId) (e : Value × Value) (he : e ∈ h.entriesOf i) :
    e.2 ≠ .nil := (Table.mem_entries.mp he).2

theorem entriesOf_range (h : Heap) (i : TableId) (e : Value × Value) (he : e ∈ h.entriesOf i) :
    i.index < h.tables.items.size := by
  by_contra hlt
  have hnone : h.tables.get i.index = default := by
    unfold Store.get Store.find?
    rw [Array.getElem?_eq_none (Nat.le_of_not_lt hlt)]
    rfl
  unfold entriesOf at he
  rw [hnone] at he
  have hfind := Table.mem_entries.mp he
  exact hfind.2 (hfind.1.symm.trans Std.TreeMap.getD_emptyc)

/-- In whatever order the entries of each table are met, the copy is the
unfolding of the table. -/
theorem traverse_unfolds (h : Heap) {order : TableId → List (Value × Value)}
    (horder : forall j, (order j).Perm (h.entriesOf j)) {i : TableId}
    (hapart : forall j, Within h.entriesOf i j -> KeysApart (h.entriesOf j)) :
    Unfolds h.entriesOf [] i
      (TableCopy.traverse order (h.tables.items.size + 1) [] i).table := by
  apply TableCopy.unfolds_traverse h.entriesOf_ne_nil h.entriesOf_range horder
  · exact List.nodup_nil
  · intro j hj
    cases hj
  · exact Nat.lt_succ_self _
  · intro hi
    cases hi
  · exact hapart

theorem copyTable_unfolds (h : Heap) {i : TableId}
    (hapart : forall j, Within h.entriesOf i j -> KeysApart (h.entriesOf j)) :
    Unfolds h.entriesOf [] i (h.copyTable i).table :=
  h.traverse_unfolds (fun _ => List.Perm.refl _) hapart

end Heap

end LuaHost
