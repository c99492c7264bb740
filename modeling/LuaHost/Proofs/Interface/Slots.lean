import Mathlib.Algebra.Group.Int.Defs
import LuaHost.Interface.Registry
import LuaHost.Proofs.Interface.Room
import LuaHost.Proofs.Machine.Border

/-!
# The slots of the registry

The integer keys of the registry are its slots.  The slots above the fixed
ones are each either on the list of released numbers or taken for a value.
Taking a slot and releasing one move a number from one side to the other, and
touch no slot that stays taken.
-/

namespace LuaHost

namespace Interface

open Machine

/-!
# Slots and numbers
-/

/-- What a table holds in the slot of a number. -/
def held (T : Table) (id : Int) : Value := T.find (refKey id)

/-- The numbers whose slots have keys of their own. -/
def Fits (id : Int) : Prop := -2 ^ 63 ≤ id ∧ id < 2 ^ 63

instance (id : Int) : Decidable (Fits id) :=
  inferInstanceAs (Decidable (-2 ^ 63 ≤ id ∧ id < 2 ^ 63))

theorem toInt_ofInt {id : Int} (h : Fits id) : (Int64.ofInt id).toInt = id :=
  Int64.toInt_ofInt_of_le h.1 h.2

theorem refKey_inj {a b : Int} (ha : Fits a) (hb : Fits b) : refKey a = refKey b ↔ a = b := by
  constructor
  · intro h
    injection h with h
    rw [← toInt_ofInt ha, h, toInt_ofInt hb]
  · exact congrArg refKey

theorem held_put {T : Table} {a b : Int} (ha : Fits a) (hb : Fits b) (v : Value) :
    held (T.put (refKey a) v) b = if a = b then v else held T b := by
  unfold held
  rw [Table.find_put]
  by_cases h : a = b
  · rw [if_pos h, if_pos ((refKey_inj ha hb).mpr h)]
  · rw [if_neg h, if_neg (fun h' => h ((refKey_inj ha hb).mp h'))]

theorem getStr_put (T : Table) (id : Int) (v : Value) (s : Bytes) :
    (T.put (refKey id) v).getStr s = T.getStr s := by
  unfold Table.getStr
  rw [Table.find_put, if_neg]
  exact nofun

theorem filled_put {T : Table} {n : Nat} (h : T.Filled n) {id : Int} (hpos : 1 ≤ id)
    (hnext : id ≤ n + 1) (hlimit : id < 2 ^ 63 - 1) {v : Value} (hv : v ≠ .nil) :
    (T.put (refKey id) v).Filled (max n id.toNat) := by
  have hn := h.lt_limit
  constructor
  · omega
  · intro i
    unfold Table.getInt
    rw [Table.find_put]
    have hfits : Fits id := ⟨by omega, by omega⟩
    by_cases hi : id = i.toInt
    · have hkey : refKey id = .int i := by
        unfold refKey
        rw [hi, Int64.ofInt_toInt]
      rw [if_pos hkey]
      constructor
      · intro _
        omega
      · intro _
        exact hv
    · have hkey : refKey id ≠ .int i := by
        intro hkey
        injection hkey with hkey
        rw [← hkey, toInt_ofInt hfits] at hi
        exact hi rfl
      rw [if_neg hkey]
      refine (h.iff i).trans ?_
      omega

/-!
# The list of released numbers
-/

/-- The numbers on the list that begins with a number, each slot holding the
next one, up to zero. -/
inductive Chain (T : Table) : Int64 → List Int → Prop where
  | last : Chain T 0 []
  | link {i j : Int64} {ids : List Int} :
      i ≠ 0 -> T.getInt i = .int j -> Chain T j ids -> Chain T i (i.toInt :: ids)

theorem Chain.unique {T : Table} {i : Int64} {ids ids' : List Int} (h : Chain T i ids)
    (h' : Chain T i ids') : ids = ids' := by
  induction h generalizing ids' with
  | last =>
      cases h' with
      | last => rfl
      | link hne => exact absurd rfl hne
  | link hne hnext _ ih =>
      cases h' with
      | last => exact absurd rfl hne
      | link _ hnext' hrest =>
          rw [hnext] at hnext'
          injection hnext' with hj
          rw [← hj] at hrest
          rw [ih hrest]

theorem Chain.congr {T T' : Table} {i : Int64} {ids : List Int} (h : Chain T i ids)
    (hsame : forall id, id ∈ ids -> held T' id = held T id) : Chain T' i ids := by
  induction h with
  | last => exact Chain.last
  | @link i j ids hne hnext _ ih =>
      have hhead := hsame i.toInt (List.mem_cons_self ..)
      unfold held refKey at hhead
      rw [Int64.ofInt_toInt] at hhead
      refine Chain.link hne (hhead.trans hnext) (ih ?_)
      intro id hid
      exact hsame id (List.mem_cons_of_mem _ hid)

/-- The numbers on the list of released ones; there are none before the first
use of the list. -/
def FreeList (T : Table) (ids : List Int) : Prop :=
  match T.getInt freeSlot with
  | .int i => Chain T i ids
  | _ => ids = []

theorem FreeList.unique {T : Table} {ids ids' : List Int} (h : FreeList T ids)
    (h' : FreeList T ids') : ids = ids' := by
  unfold FreeList at h h'
  cases hhead : T.getInt freeSlot with
  | int i =>
      rw [hhead] at h h'
      exact h.unique h'
  | _ =>
      rw [hhead] at h h'
      exact Eq.trans h (Eq.symm h')

theorem freeList_int {T : Table} {i : Int64} (h : T.getInt freeSlot = .int i) (ids : List Int) :
    FreeList T ids ↔ Chain T i ids := by
  unfold FreeList
  rw [h]

/-!
# Released and taken numbers
-/

/-- The numbers that can be taken, when `n` slots are in use: those above the
fixed slots. -/
def numbers (n : Nat) : List Int := (List.range (n - 3)).map fun (k : Nat) => (k : Int) + 4

theorem mem_numbers {n : Nat} {id : Int} : id ∈ numbers n ↔ 4 ≤ id ∧ id ≤ n := by
  unfold numbers
  rw [List.mem_map]
  constructor
  · intro h
    rcases h with ⟨k, hk, rfl⟩
    have hk' := List.mem_range.mp hk
    omega
  · intro h
    exact ⟨(id - 4).toNat, List.mem_range.mpr (by omega), by omega⟩

theorem nodup_numbers (n : Nat) : (numbers n).Nodup := by
  refine List.pairwise_map.mpr (List.Pairwise.imp ?_ (List.nodup_range (n := n - 3)))
  intro a b hne hab
  omega

theorem length_numbers (n : Nat) : (numbers n).length = n - 3 := by
  unfold numbers
  rw [List.length_map, List.length_range]

theorem numbers_succ {n : Nat} (h : 3 ≤ n) : numbers (n + 1) = numbers n ++ [(n : Int) + 1] := by
  unfold numbers
  rw [show n + 1 - 3 = n - 3 + 1 by omega, List.range_succ, List.map_append, List.map_singleton]
  rw [show ((n - 3 : Nat) : Int) + 4 = (n : Int) + 1 by omega]

/-- A registry of `n` slots without holes and without handlers, with the flag of
handles in place. -/
structure Whole (T : Table) (n : Nat) : Prop where
  filled : T.Filled n
  laid : T.Laid
  flagged : T.getStr aliveField.toUTF8 = .light flagAddress
  plain : T.metatable = none

theorem Whole.fits {T : Table} {n : Nat} (h : Whole T n) {id : Int} (hlow : 1 ≤ id)
    (hhigh : id ≤ n + 1) : Fits id := by
  have hlimit := h.filled.lt_limit
  constructor <;> omega

theorem Whole.held_ne_nil {T : Table} {n : Nat} (h : Whole T n) {id : Int} (hlow : 1 ≤ id)
    (hhigh : id ≤ n) : held T id ≠ .nil := by
  apply (h.filled.iff (Int64.ofInt id)).mpr
  rw [toInt_ofInt (h.fits hlow (by omega))]
  exact ⟨hlow, hhigh⟩

theorem Whole.put {T : Table} {n : Nat} (h : Whole T n) {id : Int} (hlow : 1 ≤ id)
    (hhigh : id ≤ n) {v : Value} (hv : v ≠ .nil) : Whole (T.put (refKey id) v) n := by
  have hlimit := h.filled.lt_limit
  have hfilled := filled_put h.filled hlow (by omega) (by omega) hv
  rw [show max n id.toNat = n by omega] at hfilled
  refine ⟨hfilled, ?_, ?_, ?_⟩
  · apply h.laid.put (s := aliveField.toUTF8)
    rw [h.flagged]
    exact nofun
  · rw [getStr_put, h.flagged]
  · rw [Table.metatable_put, h.plain]

theorem Whole.put_next {T : Table} {n : Nat} (h : Whole T n) (hlimit : n + 1 < 2 ^ 63 - 1)
    {v : Value} (hv : v ≠ .nil) : Whole (T.put (refKey (n + 1)) v) (n + 1) := by
  have hfilled : (T.put (refKey (n + 1)) v).Filled (max n ((n : Int) + 1).toNat) :=
    filled_put h.filled (by omega) (by omega) (by omega) hv
  rw [show max n ((n : Int) + 1).toNat = n + 1 by omega] at hfilled
  refine ⟨hfilled, ?_, ?_, ?_⟩
  · apply h.laid.put (s := aliveField.toUTF8)
    rw [h.flagged]
    exact nofun
  · rw [getStr_put, h.flagged]
  · rw [Table.metatable_put, h.plain]

/-- The slots of a registry: which numbers are released and which are taken,
out of `n` slots. -/
structure Slots (T : Table) (free taken : List Int) (n : Nat) : Prop extends Whole T n where
  two_le : 2 ≤ n
  begun : 3 ≤ n -> exists i, T.getInt freeSlot = .int i
  perm : (free ++ taken).Perm (numbers n)
  freeList : FreeList T free

variable {T : Table} {free taken : List Int} {n : Nat}

namespace Slots

theorem mem_iff (h : Slots T free taken n) (id : Int) :
    id ∈ free ++ taken ↔ 4 ≤ id ∧ id ≤ n :=
  (List.Perm.mem_iff h.perm).trans mem_numbers

theorem bounds_free (h : Slots T free taken n) {id : Int} (hid : id ∈ free) : 4 ≤ id ∧ id ≤ n :=
  (h.mem_iff id).mp (List.mem_append_left _ hid)

theorem bounds_taken (h : Slots T free taken n) {id : Int} (hid : id ∈ taken) : 4 ≤ id ∧ id ≤ n :=
  (h.mem_iff id).mp (List.mem_append_right _ hid)

theorem nodup (h : Slots T free taken n) : (free ++ taken).Nodup :=
  (List.Perm.nodup_iff h.perm).mpr (nodup_numbers n)

theorem taken_perm (h : Slots T free taken n) {taken' : List Int} (hperm : taken.Perm taken') :
    Slots T free taken' n :=
  ⟨h.toWhole, h.two_le, h.begun, ((hperm.symm).append_left free).trans h.perm, h.freeList⟩

theorem head_put (T : Table) (v : Value) : (T.put (refKey 3) v).getInt freeSlot = v := by
  have hheld := held_put (T := T) (a := 3) (b := 3) (by decide) (by decide) v
  rw [if_pos rfl] at hheld
  exact hheld

theorem head_put_ne (T : Table) {id : Int} (hfits : Fits id) (hne : id ≠ 3) (v : Value) :
    (T.put (refKey id) v).getInt freeSlot = T.getInt freeSlot := by
  have hheld := held_put (T := T) (a := id) (b := 3) hfits (by decide) v
  rw [if_neg hne] at hheld
  exact hheld

/-- The first use of the list. -/
theorem begin_list (h : Slots T free taken n) (hn : n < 3) :
    Slots (T.put (refKey 3) (.int 0)) [] taken 3 ∧ free = [] := by
  have htwo := h.two_le
  have heq : n = 2 := by omega
  subst heq
  have hwhole : Whole (T.put (refKey 3) (.int 0)) 3 := h.toWhole.put_next (by omega) nofun
  have hperm : free ++ taken = [] := List.Perm.eq_nil h.perm
  have hfree : free = [] := (List.append_eq_nil_iff.mp hperm).1
  have hhead := head_put T (.int 0)
  refine ⟨⟨hwhole, by omega, fun _ => ⟨0, hhead⟩, ?_, ?_⟩, hfree⟩
  · rw [hfree] at h
    exact h.perm
  · exact (freeList_int hhead []).mpr Chain.last

/-- The first number on the list is taken. -/
theorem take_first {id : Int} (h : Slots T (id :: free) taken n) {v : Value} (hv : v ≠ .nil) :
    Slots ((T.put (refKey 3) (held T id)).put (refKey id) v) free (id :: taken) n := by
  have hid := h.bounds_free (List.mem_cons_self ..)
  have hfits : Fits id := h.fits (by omega) (by omega)
  have hheld : held T id ≠ .nil := h.held_ne_nil (by omega) hid.2
  have hlinked : Whole (T.put (refKey 3) (held T id)) n :=
    h.toWhole.put (by omega) (by omega) hheld
  have hwhole : Whole ((T.put (refKey 3) (held T id)).put (refKey id) v) n :=
    hlinked.put (by omega) hid.2 hv
  have hhead : ((T.put (refKey 3) (held T id)).put (refKey id) v).getInt freeSlot = held T id := by
    rw [head_put_ne _ hfits (by omega), head_put]
  -- the second number of the list is what the slot of the first one holds
  have hchain : exists j, held T id = .int j ∧ Chain T j free := by
    rcases h.begun (by omega) with ⟨i, hi⟩
    have hchain := (freeList_int hi _).mp h.freeList
    generalize hids : id :: free = ids at hchain
    cases hchain with
    | last => cases hids
    | @link i j ids hne hnext hrest =>
        injection hids with hid hfree
        rw [hid, hfree]
        refine ⟨j, ?_, hrest⟩
        unfold held refKey
        rw [Int64.ofInt_toInt]
        exact hnext
  rcases hchain with ⟨j, hj, hchain⟩
  rw [hj] at hhead hwhole
  rw [hj]
  refine ⟨hwhole, h.two_le, fun _ => ⟨j, hhead⟩, ?_, ?_⟩
  · exact List.perm_middle.trans h.perm
  · refine (freeList_int hhead free).mpr (hchain.congr ?_)
    intro id' hid'
    have hid'' := h.bounds_free (List.mem_cons_of_mem _ hid')
    have hfits' : Fits id' := h.fits (by omega) (by omega)
    -- neither write is to a slot of the rest of the list
    have hne : id ≠ id' := by
      intro heq
      have hnodup := h.nodup
      rw [heq] at hnodup
      exact (List.nodup_cons.mp hnodup).1 (List.mem_append_left _ hid')
    rw [held_put hfits hfits', if_neg hne, held_put (by decide) hfits', if_neg (by omega)]

/-- A number is taken that was never taken before. -/
theorem take_next (h : Slots T [] taken n) (hn : 3 ≤ n) (hlimit : n + 1 < 2 ^ 63 - 1) {v : Value}
    (hv : v ≠ .nil) : Slots (T.put (refKey (n + 1)) v) [] (((n : Int) + 1) :: taken) (n + 1) := by
  have hfits : Fits ((n : Int) + 1) := h.fits (by omega) (by omega)
  have hhead : (T.put (refKey (n + 1)) v).getInt freeSlot = T.getInt freeSlot :=
    head_put_ne T hfits (by omega) v
  rcases h.begun hn with ⟨i, hi⟩
  rw [hi] at hhead
  have hchain := (freeList_int hi _).mp h.freeList
  refine ⟨h.toWhole.put_next hlimit hv, by omega, fun _ => ⟨i, hhead⟩, ?_, ?_⟩
  · rw [numbers_succ hn]
    exact (List.perm_append_singleton _ _).symm.trans (h.perm.append_right _)
  · refine (freeList_int hhead []).mpr (hchain.congr ?_)
    intro id hid
    exact absurd hid List.not_mem_nil

/-- A number is released. -/
theorem release (h : Slots T free taken n) {id : Int} (hid : id ∈ taken) :
    Slots ((T.put (refKey id) (held T 3)).put (refKey 3) (refKey id)) (id :: free) (taken.erase id)
      n := by
  have hbounds := h.bounds_taken hid
  have hfits : Fits id := h.fits (by omega) (by omega)
  have hheld : held T 3 ≠ .nil := h.held_ne_nil (by omega) (by omega)
  have hlinked : Whole (T.put (refKey id) (held T 3)) n :=
    h.toWhole.put (by omega) hbounds.2 hheld
  have hwhole : Whole ((T.put (refKey id) (held T 3)).put (refKey 3) (refKey id)) n :=
    hlinked.put (by omega) (by omega) nofun
  have hhead := head_put (T.put (refKey id) (held T 3)) (refKey id)
  rcases h.begun (by omega) with ⟨i, hi⟩
  have hchain := (freeList_int hi _).mp h.freeList
  refine ⟨hwhole, h.two_le, fun _ => ⟨_, hhead⟩, ?_, ?_⟩
  · refine List.Perm.trans ?_ h.perm
    have hback : (id :: taken.erase id).Perm taken := (List.perm_cons_erase hid).symm
    exact List.perm_middle.symm.trans (hback.append_left free)
  · refine (freeList_int hhead _).mpr ?_
    have hnext : ((T.put (refKey id) (held T 3)).put (refKey 3) (refKey id)).getInt (Int64.ofInt id)
        = .int i := by
      have hslot := held_put (T := T.put (refKey id) (held T 3)) (a := 3) (by decide) hfits
        (refKey id)
      rw [if_neg (by omega), held_put hfits hfits, if_pos rfl] at hslot
      exact hslot.trans hi
    have hne : Int64.ofInt id ≠ 0 := by
      intro hzero
      have hto := toInt_ofInt hfits
      rw [hzero] at hto
      have hto' : (0 : Int) = id := hto
      omega
    -- the rest of the list is in slots that neither write is to
    have hrest : Chain ((T.put (refKey id) (held T 3)).put (refKey 3) (refKey id)) i free := by
      refine hchain.congr ?_
      intro id' hid'
      have hbounds' := h.bounds_free hid'
      have hfits' : Fits id' := h.fits (by omega) (by omega)
      have hne' : id ≠ id' := by
        intro heq
        rw [heq] at hid
        exact (List.nodup_append.mp h.nodup).2.2 id' hid' id' hid rfl
      rw [held_put (by decide) hfits', if_neg (by omega), held_put hfits hfits', if_neg hne']
    have hlink := Chain.link hne hnext hrest
    rw [toInt_ofInt hfits] at hlink
    exact hlink

end Slots

/-!
# Writes beside the slots
-/

/-- What becomes of a table when nothing writes to its integer keys or to the
flag of handles: it gets other entries, and borders are looked for. -/
inductive Untouched (T : Table) : Table → Prop where
  | refl : Untouched T T
  | put {T' : Table} {k : Value} (v : Value) :
      Untouched T T' -> (forall i, k ≠ .int i) -> k ≠ .str aliveField.toUTF8 ->
      Untouched T (T'.put k v)
  | search {T' : Table} : Untouched T T' -> Untouched T { T' with hint := T'.borderAndHint.2 }

theorem Untouched.trans {T T' T'' : Table} (h : Untouched T T') (h' : Untouched T' T'') :
    Untouched T T'' := by
  induction h' with
  | refl => exact h
  | put v _ hkey hflag ih => exact Untouched.put v ih hkey hflag
  | search _ ih => exact Untouched.search ih

theorem Untouched.held_eq {T T' : Table} (h : Untouched T T') (id : Int) :
    held T' id = held T id := by
  induction h with
  | refl => rfl
  | @put T' k v _ hkey _ ih =>
      have hne : k ≠ refKey id := hkey (Int64.ofInt id)
      unfold held
      rw [Table.find_put, if_neg hne]
      exact ih
  | search _ ih => exact ih

theorem Untouched.getInt_eq {T T' : Table} (h : Untouched T T') (i : Int64) :
    T'.getInt i = T.getInt i := by
  have hheld := h.held_eq i.toInt
  unfold held refKey at hheld
  rw [Int64.ofInt_toInt] at hheld
  exact hheld

theorem Untouched.whole {T T' : Table} (h : Untouched T T') {n : Nat} (hwhole : Whole T n) :
    Whole T' n := by
  have hfilled : T'.Filled n := by
    refine ⟨hwhole.filled.lt_limit, ?_⟩
    intro i
    rw [h.getInt_eq]
    exact hwhole.filled.iff i
  have hrest : T'.Laid ∧ T'.getStr aliveField.toUTF8 = .light flagAddress ∧
      T'.metatable = none := by
    clear hfilled
    induction h with
    | refl => exact ⟨hwhole.laid, hwhole.flagged, hwhole.plain⟩
    | put v _ _ hflag ih =>
        refine ⟨?_, ?_, ?_⟩
        · apply ih.1.put (s := aliveField.toUTF8)
          rw [ih.2.1]
          exact nofun
        · unfold Table.getStr
          rw [Table.find_put, if_neg hflag]
          exact ih.2.1
        · rw [Table.metatable_put]
          exact ih.2.2
    | search _ ih => exact ⟨ih.1.search, ih.2⟩
  exact ⟨hfilled, hrest.1, hrest.2.1, hrest.2.2⟩

theorem Untouched.slots {T T' : Table} (h : Untouched T T') {free taken : List Int} {n : Nat}
    (hslots : Slots T free taken n) : Slots T' free taken n := by
  refine ⟨h.whole hslots.toWhole, hslots.two_le, ?_, hslots.perm, ?_⟩
  · intro hn
    rcases hslots.begun hn with ⟨i, hi⟩
    exact ⟨i, (h.getInt_eq freeSlot).trans hi⟩
  · have hlist := hslots.freeList
    unfold FreeList at hlist ⊢
    rw [h.getInt_eq]
    cases hhead : T.getInt freeSlot with
    | int i =>
        rw [hhead] at hlist
        exact hlist.congr fun id _ => h.held_eq id
    | _ =>
        rw [hhead] at hlist
        exact hlist

end Interface

/-!
# The registry of a world
-/

namespace World

def registryTable (w : World) : Table := w.heap.tables.get w.registry.index

def setRegistry (w : World) (T : Table) : World :=
  w.withTables (w.heap.tables.modify w.registry.index fun _ => T) w.collector.allocated

def registryLive (w : World) : Bool := w.heap.tables.live w.registry.index

theorem registryTable_setRegistry {w : World} (h : w.registryLive = true) (T : Table) :
    (w.setRegistry T).registryTable = T :=
  Store.get_modify_self h _

theorem registryLive_setRegistry (w : World) (T : Table) :
    (w.setRegistry T).registryLive = w.registryLive :=
  Store.live_modify _ _ _ _

theorem setRegistry_setRegistry (w : World) (T T' : Table) :
    (w.setRegistry T).setRegistry T' = w.setRegistry T' := by
  show w.withTables ((w.heap.tables.modify w.registry.index fun _ => T).modify w.registry.index
    fun _ => T') w.collector.allocated = _
  rw [Store.write_write]
  rfl

theorem setRegistry_registryTable (w : World) : w.setRegistry w.registryTable = w := by
  unfold setRegistry registryTable
  rw [← Store.modify_eq_write w.heap.tables w.registry.index fun T => T, Store.modify_id]
  rfl

end World

namespace Machine

theorem returns_setRegistryValue (w : World) (k v : Value) :
    Returns (setRegistryValue k v) w () (w.setRegistry (w.registryTable.set k v)) := by
  intro E
  unfold World.setRegistry World.registryTable
  rw [← Store.modify_eq_write w.heap.tables w.registry.index fun T => T.set k v]
  rfl

theorem returns_tableLength (w : World) :
    Returns (tableLength w.registry) w w.registryTable.borderAndHint.1
      (w.setRegistry { w.registryTable with hint := w.registryTable.borderAndHint.2 }) := by
  intro E
  unfold World.setRegistry World.registryTable
  rw [← Store.modify_eq_write w.heap.tables w.registry.index fun T =>
    { T with hint := (w.heap.tables.get w.registry.index).borderAndHint.2 }]
  rfl

end Machine

namespace Interface

open Machine

/-!
# Taking and releasing numbers
-/

/-- The most values that can be registered at a time: the numbers of handles are
signed numbers of 32 bits, and three of them are never taken. -/
def maxHandles : Nat := 2 ^ 31 - 4

/-- A registry in which the taken numbers are those of a list. -/
def Tracks (w : World) (taken : List Int) : Prop :=
  w.registryLive = true ∧
    exists free n, n ≤ maxHandles + 3 ∧ Slots w.registryTable free taken n

theorem Tracks.perm {w : World} {taken taken' : List Int} (h : Tracks w taken)
    (hperm : taken.Perm taken') : Tracks w taken' := by
  rcases h with ⟨hlive, free, n, hn, h⟩
  exact ⟨hlive, free, n, hn, h.taken_perm hperm⟩

theorem Tracks.bounds {w : World} {taken : List Int} (h : Tracks w taken) {id : Int}
    (hid : id ∈ taken) : 4 ≤ id ∧ id < 2 ^ 31 := by
  rcases h with ⟨_, free, n, hn, h⟩
  have hbounds := h.bounds_taken hid
  unfold maxHandles at hn
  omega

theorem Tracks.nodup {w : World} {taken : List Int} (h : Tracks w taken) : taken.Nodup := by
  rcases h with ⟨_, free, n, _, h⟩
  exact (List.nodup_append.mp h.nodup).2.1

theorem slots_setRegistry {w : World} (hlive : w.registryLive = true) {T : Table}
    {free taken : List Int} {n : Nat} (hn : n ≤ maxHandles + 3) (h : Slots T free taken n) :
    Tracks (w.setRegistry T) taken := by
  refine ⟨(World.registryLive_setRegistry w T).trans hlive, free, n, hn, ?_⟩
  rw [World.registryTable_setRegistry hlive]
  exact h

theorem returns_slot {w : World} (hlive : w.registryLive = true) (T : Table) (id : Int) :
    Returns (registryValue (refKey id)) (w.setRegistry T) (held T id) (w.setRegistry T) := by
  have hread := returns_registryValue (w.setRegistry T) (refKey id)
  rw [show (w.setRegistry T).heap.tables.get (w.setRegistry T).registry.index = T from
    World.registryTable_setRegistry hlive T] at hread
  exact hread

theorem returns_setSlot {w : World} (hlive : w.registryLive = true) (T : Table) (id : Int)
    (v : Value) :
    Returns (setRegistryValue (refKey id) v) (w.setRegistry T) ()
      (w.setRegistry (T.put (refKey id) v)) := by
  have hwrite := returns_setRegistryValue (w.setRegistry T) (refKey id) v
  rw [World.registryTable_setRegistry hlive, World.setRegistry_setRegistry] at hwrite
  exact hwrite

theorem returns_firstFree {w : World} {free taken : List Int}
    {n : Nat} (h : Slots w.registryTable free taken n) :
    exists T n', 3 ≤ n' ∧ n' ≤ max n 3 ∧ Slots T free taken n' ∧
      (forall id, 4 ≤ id -> Fits id -> held T id = held w.registryTable id) ∧
      Returns firstFree w (free.headD 0) (w.setRegistry T) := by
  have hread : Returns (registryValue (.int freeSlot)) w (w.registryTable.getInt freeSlot) w :=
    returns_registryValue w (.int freeSlot)
  by_cases hn : 3 ≤ n
  · rcases h.begun hn with ⟨i, hi⟩
    refine ⟨w.registryTable, n, hn, Nat.le_max_left _ _, h, fun _ _ _ => rfl, ?_⟩
    rw [World.setRegistry_registryTable]
    rw [hi] at hread
    have hhead : i.toInt = free.headD 0 := by
      have hchain := (freeList_int hi free).mp h.freeList
      cases hchain with
      | last => rfl
      | link _ _ _ => rfl
    rw [← hhead]
    exact Returns.bind hread (Returns.pure _ w)
  · rcases h.begin_list (by omega) with ⟨hslots, hfree⟩
    have hnil : w.registryTable.getInt freeSlot = .nil := by
      have hiff := h.filled.iff freeSlot
      rw [show freeSlot.toInt = 3 by decide] at hiff
      by_contra hne
      have hle := hiff.mp hne
      omega
    rw [hnil] at hread
    rw [← hfree] at hslots
    refine ⟨_, 3, by omega, Nat.le_max_right _ _, hslots, ?_, ?_⟩
    · intro id hid hfits
      rw [held_put (by decide) hfits, if_neg (by omega)]
    · rw [hfree]
      refine Returns.bind hread ?_
      exact Returns.bind (returns_setRegistryValue w _ _) (Returns.pure _ _)

/-- A value that is registered takes a number that was not taken. -/
theorem returns_register {w : World} {taken : List Int} (h : Tracks w taken)
    (hroom : taken.length < maxHandles) {v : Value} (hv : v ≠ .nil) :
    exists id T, Returns (register v) w id (w.setRegistry T) ∧
      Tracks (w.setRegistry T) (id :: taken) ∧ held T id = v ∧
      forall id', id' ∈ taken -> held T id' = held w.registryTable id' := by
  rcases h with ⟨hlive, free, n, hn, h⟩
  rcases returns_firstFree h with ⟨T, n', hn', hle, hslots, hsame, hfirst⟩
  have hnumbers : n' ≤ maxHandles + 3 := Nat.le_trans hle (Nat.max_le.mpr ⟨hn, by omega⟩)
  have hold : forall id, id ∈ taken -> Fits id ∧ held T id = held w.registryTable id := by
    intro id hid
    have hbounds := hslots.bounds_taken hid
    have hfits : Fits id := hslots.fits (by omega) (by omega)
    exact ⟨hfits, hsame id hbounds.1 hfits⟩
  -- an empty list makes the registry grow, and otherwise its head is taken
  cases free with
  | nil =>
      have hlength := List.Perm.length_eq hslots.perm
      rw [length_numbers, List.nil_append] at hlength
      -- the numbers stay below the last integer, because there are at most so many handles
      have hlimit : n' + 1 < 2 ^ 63 - 1 := by
        unfold maxHandles at hnumbers
        omega
      let T' : Table := { T with hint := T.borderAndHint.2 }
      have hslots' : Slots T' [] taken n' := (Untouched.search Untouched.refl).slots hslots
      have hmeasure := returns_tableLength (w.setRegistry T)
      rw [World.registryTable_setRegistry hlive, World.setRegistry_setRegistry,
        hslots.filled.borderAndHint_fst hslots.laid] at hmeasure
      refine ⟨(n' : Int) + 1, T'.put (refKey (n' + 1)) v, ?_, ?_, ?_, ?_⟩
      · refine Returns.bind hfirst ?_
        dsimp only
        rw [List.headD_nil, if_neg (by decide)]
        refine Returns.bind (returns_get _) (Returns.bind hmeasure ?_)
        refine Returns.bind (Returns.pure _ _) ?_
        exact Returns.bind (returns_setSlot hlive T' _ v) (Returns.pure _ _)
      · exact slots_setRegistry hlive (by omega) (hslots'.take_next hn' hlimit hv)
      · rw [held_put (hslots.fits (by omega) (by omega)) (hslots.fits (by omega) (by omega)),
          if_pos rfl]
      · intro id hid
        have hbounds := hslots.bounds_taken hid
        rw [held_put (hslots.fits (by omega) (by omega)) (hold id hid).1, if_neg (by omega)]
        exact (hold id hid).2
  | cons id free =>
      have hbounds := hslots.bounds_free (List.mem_cons_self ..)
      have hfits : Fits id := hslots.fits (by omega) (by omega)
      have hne : (id != 0) = true := bne_iff_ne.mpr (by omega)
      refine ⟨id, (T.put (refKey 3) (held T id)).put (refKey id) v, ?_, ?_, ?_, ?_⟩
      · refine Returns.bind hfirst ?_
        dsimp only
        rw [List.headD_cons, if_pos hne]
        refine Returns.bind (returns_slot hlive T id) ?_
        refine Returns.bind (returns_setSlot hlive T 3 (held T id)) ?_
        refine Returns.bind (Returns.pure id _) ?_
        exact Returns.bind (returns_setSlot hlive _ id v) (Returns.pure _ _)
      · exact slots_setRegistry hlive hnumbers (hslots.take_first hv)
      · rw [held_put hfits hfits, if_pos rfl]
      · intro id' hid'
        have hbounds' := hslots.bounds_taken hid'
        have hne' : id ≠ id' := by
          intro heq
          have hnodup := hslots.nodup
          rw [List.cons_append, List.nodup_cons, heq] at hnodup
          exact hnodup.1 (List.mem_append_right _ hid')
        rw [held_put hfits (hold id' hid').1, if_neg hne',
          held_put (by decide) (hold id' hid').1, if_neg (by omega)]
        exact (hold id' hid').2

/-- Releasing a number that is taken frees its slot and no other. -/
theorem returns_release {w : World} {taken : List Int} (h : Tracks w taken) {id : Int}
    (hid : id ∈ taken) :
    exists T, Returns (release id) w () (w.setRegistry T) ∧
      Tracks (w.setRegistry T) (taken.erase id) ∧
      forall id', id' ∈ taken.erase id -> held T id' = held w.registryTable id' := by
  rcases h with ⟨hlive, free, n, hn, h⟩
  have hbounds := h.bounds_taken hid
  have hfits : Fits id := h.fits (by omega) (by omega)
  let T := w.registryTable
  refine ⟨(T.put (refKey id) (held T 3)).put (refKey 3) (refKey id), ?_, ?_, ?_⟩
  · unfold release
    rw [if_pos (show id ≥ 0 by omega)]
    have hread := returns_slot hlive T 3
    have hwrite := returns_setSlot hlive T id (held T 3)
    rw [World.setRegistry_registryTable] at hread hwrite
    refine Returns.bind hread ?_
    exact Returns.bind hwrite (returns_setSlot hlive _ 3 (refKey id))
  · exact slots_setRegistry hlive hn (h.release hid)
  · intro id' hid'
    have hbounds' := h.bounds_taken (List.mem_of_mem_erase hid')
    have hfits' : Fits id' := h.fits (by omega) (by omega)
    have hne : id ≠ id' := by
      intro heq
      have hnodup := (List.nodup_append.mp h.nodup).2.1
      rw [← heq] at hid'
      exact (List.Nodup.not_mem_erase hnodup) hid'
    rw [held_put (by decide) hfits', if_neg (by omega), held_put hfits hfits', if_neg hne]

end Interface

end LuaHost
