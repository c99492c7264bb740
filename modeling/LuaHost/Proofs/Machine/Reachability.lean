import Mathlib.Data.Finset.Card
import Mathlib.Data.Finset.Image
import Mathlib.Data.Finset.Range
import LuaHost.Machine.Collect
import LuaHost.Proofs.Machine.Contents
import LuaHost.Proofs.Machine.Running

/-!
# Reachable objects are marked

The walk over the heap marks each object at most once, so that the number of
unmarked objects bounds it.  When it ends, the marks are closed under what the
marked objects hold, and a reachable object is marked.
-/

namespace LuaHost

/-!
# Reachability
-/

namespace Heap

/-- An object that stays: a root, or held by one that stays.  A table with weak
keys holds the values whose keys stay in another way. -/
inductive Reachable (h : Heap) (roots : List ObjectId) : ObjectId -> Prop where
  | root {o : ObjectId} : o ∈ roots -> Reachable h roots o
  | held {o o' : ObjectId} : Reachable h roots o -> o' ∈ h.successors o -> Reachable h roots o'
  | ephemeron {t : TableId} {k v : Value} {o : ObjectId} : Reachable h roots (.table t) ->
      h.weakness (h.tables.get t.index) = .weakKeys ->
      (k, v) ∈ (h.tables.get t.index).entries ->
      (forall o', k.object? = some o' -> Reachable h roots o') ->
      v.object? = some o -> Reachable h roots o

/-- The number of an object is one that has been given out. -/
def Numbered (h : Heap) : ObjectId -> Prop
  | .table t => t.index < h.tables.next
  | .closure c => c.index < h.closures.next
  | .upvalue u => u.index < h.upvalues.next
  | .userdata u => u.index < h.userdata.next
  | .thread t => t.index < h.threads.next

/-- The numbers that have been given out. -/
def objects (h : Heap) : Finset ObjectId :=
  (Finset.range h.tables.next).image (fun i => .table ⟨i⟩) ∪
  (Finset.range h.closures.next).image (fun i => .closure ⟨i⟩) ∪
  (Finset.range h.upvalues.next).image (fun i => .upvalue ⟨i⟩) ∪
  (Finset.range h.userdata.next).image (fun i => .userdata ⟨i⟩) ∪
  (Finset.range h.threads.next).image (fun i => .thread ⟨i⟩)

theorem mem_objects {h : Heap} {o : ObjectId} : o ∈ h.objects ↔ h.Numbered o := by
  cases o with
  | table t => cases t; simp [objects, Numbered]
  | closure c => cases c; simp [objects, Numbered]
  | upvalue u => cases u; simp [objects, Numbered]
  | userdata u => cases u; simp [objects, Numbered]
  | thread t => cases t; simp [objects, Numbered]

theorem card_objects_le (h : Heap) : h.objects.card ≤ h.size := by
  have himage : forall (n : Nat) (f : Nat -> ObjectId), ((Finset.range n).image f).card ≤ n := by
    intro n f
    calc ((Finset.range n).image f).card ≤ (Finset.range n).card := Finset.card_image_le
      _ = n := Finset.card_range n
  unfold objects size
  refine Nat.le_trans (Finset.card_union_le _ _) (Nat.add_le_add ?_ (himage _ _))
  refine Nat.le_trans (Finset.card_union_le _ _) (Nat.add_le_add ?_ (himage _ _))
  refine Nat.le_trans (Finset.card_union_le _ _) (Nat.add_le_add ?_ (himage _ _))
  exact Nat.le_trans (Finset.card_union_le _ _) (Nat.add_le_add (himage _ _) (himage _ _))

/-- No object holds a number that has not been given out. -/
structure Sound (h : Heap) : Prop where
  successors : forall o o', o' ∈ h.successors o -> h.Numbered o'
  entries : forall i k v o, (k, v) ∈ (h.tables.get i).entries -> v.object? = some o ->
    h.Numbered o

/-!
# Looking whether a heap is sound
-/

instance decidableNumbered (h : Heap) : (o : ObjectId) → Decidable (h.Numbered o)
  | .table t => inferInstanceAs (Decidable (t.index < h.tables.next))
  | .closure c => inferInstanceAs (Decidable (c.index < h.closures.next))
  | .upvalue u => inferInstanceAs (Decidable (u.index < h.upvalues.next))
  | .userdata u => inferInstanceAs (Decidable (u.index < h.userdata.next))
  | .thread t => inferInstanceAs (Decidable (t.index < h.threads.next))

theorem get_of_next_le {α : Type} [Inhabited α] {s : Store α} {i : Nat} (h : s.next ≤ i) :
    s.get i = default := by
  unfold Store.get Store.find?
  rw [Array.getElem?_eq_none h]
  rfl

theorem successors_of_not_numbered {h : Heap} {o : ObjectId} (ho : ¬h.Numbered o) :
    h.successors o = [] := by
  cases o with
  | table t =>
      show (h.tableSuccessors (h.tables.get t.index)).filterMap Value.object? = []
      rw [get_of_next_le (Nat.le_of_not_lt ho)]
      rfl
  | closure c =>
      show closureSuccessors (h.closures.get c.index) = []
      rw [get_of_next_le (Nat.le_of_not_lt ho)]
      rfl
  | upvalue u =>
      show h.upvalueSuccessors (h.upvalues.get u.index) = []
      rw [get_of_next_le (Nat.le_of_not_lt ho)]
      rfl
  | userdata u =>
      show userdataSuccessors (h.userdata.get u.index) = []
      rw [get_of_next_le (Nat.le_of_not_lt ho)]
      rfl
  | thread t =>
      show threadSuccessors (h.threads.get t.index) = []
      rw [get_of_next_le (Nat.le_of_not_lt ho)]
      rfl

/-- Only objects that there are have to be looked at. -/
theorem sound_iff {h : Heap} :
    h.Sound ↔ (forall o, o ∈ h.objects -> forall o', o' ∈ h.successors o -> h.Numbered o') ∧
      forall i, i < h.tables.next -> forall e, e ∈ (h.tables.get i).entries ->
        forall o, o ∈ e.2.object? -> h.Numbered o := by
  constructor
  · intro hsound
    exact ⟨fun o _ o' => hsound.successors o o', fun i _ e he o => hsound.entries i e.1 e.2 o he⟩
  · rintro ⟨hsuccessors, hentries⟩
    refine ⟨?_, ?_⟩
    · intro o o' ho'
      by_cases ho : h.Numbered o
      · exact hsuccessors o (mem_objects.mpr ho) o' ho'
      · rw [successors_of_not_numbered ho] at ho'
        cases ho'
    · intro i k v o he hv
      by_cases hi : i < h.tables.next
      · exact hentries i hi (k, v) he o hv
      · rw [get_of_next_le (Nat.le_of_not_lt hi)] at he
        cases he

instance (h : Heap) : Decidable h.Sound := decidable_of_iff _ sound_iff.symm

end Heap

/-!
# Marks
-/

namespace Marks

/-- There is a mark for each object of a heap. -/
structure Covers (m : Marks) (h : Heap) : Prop where
  tables : m.tables.size = h.tables.next
  closures : m.closures.size = h.closures.next
  upvalues : m.upvalues.size = h.upvalues.next
  userdata : m.userdata.size = h.userdata.next
  threads : m.threads.size = h.threads.next

def Subset (m m' : Marks) : Prop := forall o, m.has o = true -> m'.has o = true

theorem Subset.refl (m : Marks) : m.Subset m := fun _ h => h

theorem Subset.trans {m m' m'' : Marks} (h : m.Subset m') (h' : m'.Subset m'') : m.Subset m'' :=
  fun o ho => h' o (h o ho)

theorem covers_none (h : Heap) : (none h).Covers h := by
  constructor <;> exact Array.size_replicate

theorem none_has (h : Heap) (o : ObjectId) : (none h).has o = false := by
  cases o <;> simp [none, has, Array.getD_eq_getD_getElem?, Array.getElem?_replicate]
  all_goals split <;> rfl

theorem getD_setIfInBounds (a : Array Bool) (i j : Nat) :
    (a.setIfInBounds i true).getD j false =
      if i = j ∧ i < a.size then true else a.getD j false := by
  rw [Array.getD_eq_getD_getElem?, Array.getD_eq_getD_getElem?, Array.getElem?_setIfInBounds]
  by_cases hij : i = j
  · by_cases hi : i < a.size
    · rw [if_pos hij, if_pos hi, if_pos ⟨hij, hi⟩]
      rfl
    · rw [if_pos hij, if_neg hi, if_neg (fun h => hi h.2), Array.getElem?_eq_none (by omega)]
  · rw [if_neg hij, if_neg (fun h => hij h.1)]

theorem has_add {m : Marks} {h : Heap} (hm : m.Covers h) {o : ObjectId} (ho : h.Numbered o)
    (o' : ObjectId) : (m.add o).has o' = true ↔ o' = o ∨ m.has o' = true := by
  -- there is one array of marks for each kind of object
  have hmark : forall (a : Array Bool) (i j : Nat), i < a.size ->
      ((a.setIfInBounds i true).getD j false = true ↔ j = i ∨ a.getD j false = true) := by
    intro a i j hi
    rw [getD_setIfInBounds]
    by_cases hij : i = j
    · rw [if_pos ⟨hij, hi⟩]
      exact ⟨fun _ => Or.inl hij.symm, fun _ => rfl⟩
    · rw [if_neg (fun h => hij h.1)]
      exact ⟨Or.inr, fun h => h.resolve_left (fun h' => hij h'.symm)⟩
  cases o with
  | table t =>
      cases o' with
      | table t' =>
          cases t
          cases t'
          simpa [add, has] using hmark m.tables _ _ (Nat.lt_of_lt_of_eq ho hm.tables.symm)
      | _ => simp [add, has]
  | closure c =>
      cases o' with
      | closure c' =>
          cases c
          cases c'
          simpa [add, has] using hmark m.closures _ _ (Nat.lt_of_lt_of_eq ho hm.closures.symm)
      | _ => simp [add, has]
  | upvalue u =>
      cases o' with
      | upvalue u' =>
          cases u
          cases u'
          simpa [add, has] using hmark m.upvalues _ _ (Nat.lt_of_lt_of_eq ho hm.upvalues.symm)
      | _ => simp [add, has]
  | userdata u =>
      cases o' with
      | userdata u' =>
          cases u
          cases u'
          simpa [add, has] using hmark m.userdata _ _ (Nat.lt_of_lt_of_eq ho hm.userdata.symm)
      | _ => simp [add, has]
  | thread t =>
      cases o' with
      | thread t' =>
          cases t
          cases t'
          simpa [add, has] using hmark m.threads _ _ (Nat.lt_of_lt_of_eq ho hm.threads.symm)
      | _ => simp [add, has]

theorem Covers.add {m : Marks} {h : Heap} (hm : m.Covers h) (o : ObjectId) :
    (m.add o).Covers h := by
  cases o with
  | table t => exact ⟨Array.size_setIfInBounds.trans hm.tables, hm.2, hm.3, hm.4, hm.5⟩
  | closure c => exact ⟨hm.1, Array.size_setIfInBounds.trans hm.closures, hm.3, hm.4, hm.5⟩
  | upvalue u => exact ⟨hm.1, hm.2, Array.size_setIfInBounds.trans hm.upvalues, hm.4, hm.5⟩
  | userdata u => exact ⟨hm.1, hm.2, hm.3, Array.size_setIfInBounds.trans hm.userdata, hm.5⟩
  | thread t => exact ⟨hm.1, hm.2, hm.3, hm.4, Array.size_setIfInBounds.trans hm.threads⟩

theorem subset_add (m : Marks) (o : ObjectId) : m.Subset (m.add o) := by
  have hmark : forall (a : Array Bool) (i j : Nat), a.getD j false = true ->
      (a.setIfInBounds i true).getD j false = true := by
    intro a i j hj
    rw [getD_setIfInBounds]
    split
    · rfl
    · exact hj
  intro o' ho'
  cases o <;> cases o' <;> first | exact ho' | exact hmark _ _ _ ho'

/-- The objects that are not marked. -/
def unmarked (h : Heap) (m : Marks) : Finset ObjectId :=
  h.objects.filter fun o => m.has o = false

theorem card_unmarked_le (h : Heap) (m : Marks) : (unmarked h m).card ≤ h.size :=
  Nat.le_trans (Finset.card_filter_le _ _) h.card_objects_le

/-- Marking an object leaves one object less that is not marked. -/
theorem card_unmarked_add {m : Marks} {h : Heap} (hm : m.Covers h) {o : ObjectId}
    (ho : h.Numbered o) (hold : m.has o = false) :
    (unmarked h (m.add o)).card + 1 = (unmarked h m).card := by
  have hmem : o ∈ unmarked h m := Finset.mem_filter.mpr ⟨Heap.mem_objects.mpr ho, hold⟩
  have herase : unmarked h (m.add o) = (unmarked h m).erase o := by
    ext o'
    simp only [unmarked, Finset.mem_filter, Finset.mem_erase, ← Bool.not_eq_true, has_add hm ho]
    tauto
  rw [herase]
  exact Finset.card_erase_add_one hmem

theorem card_unmarked_mono {h : Heap} {m m' : Marks} (hsub : m.Subset m') :
    (unmarked h m').card ≤ (unmarked h m).card := by
  apply Finset.card_le_card
  intro o ho
  rcases Finset.mem_filter.mp ho with ⟨hobject, hnot⟩
  refine Finset.mem_filter.mpr ⟨hobject, ?_⟩
  cases hold : m.has o with
  | false => rfl
  | true =>
      rw [hsub o hold] at hnot
      cases hnot

theorem numbered_of_has {m : Marks} {h : Heap} (hm : m.Covers h) {o : ObjectId}
    (ho : m.has o = true) : h.Numbered o := by
  have hbound : forall (a : Array Bool) (i : Nat), a.getD i false = true -> i < a.size := by
    intro a i hi
    by_cases hlt : i < a.size
    · exact hlt
    · rw [Array.getD_eq_getD_getElem?, Array.getElem?_eq_none (Nat.le_of_not_lt hlt)] at hi
      cases hi
  cases o with
  | table t => exact Nat.lt_of_lt_of_eq (hbound _ _ ho) hm.tables
  | closure c => exact Nat.lt_of_lt_of_eq (hbound _ _ ho) hm.closures
  | upvalue u => exact Nat.lt_of_lt_of_eq (hbound _ _ ho) hm.upvalues
  | userdata u => exact Nat.lt_of_lt_of_eq (hbound _ _ ho) hm.userdata
  | thread t => exact Nat.lt_of_lt_of_eq (hbound _ _ ho) hm.threads

/-!
# Visiting
-/

/-- What visiting some objects does to the marks and the worklist: what is newly
marked is on the worklist, and counted there. -/
structure Visited (h : Heap) (os : List ObjectId) (before after : Marks × List ObjectId) :
    Prop where
  covers : after.1.Covers h
  subset : before.1.Subset after.1
  marked : forall o, o ∈ os -> after.1.has o = true
  listed : forall o, after.1.has o = true -> before.1.has o = true ∨ o ∈ after.2
  work_subset : forall o, o ∈ before.2 -> o ∈ after.2
  count : after.2.length + (unmarked h after.1).card =
    before.2.length + (unmarked h before.1).card

theorem visit_old {acc : Marks × List ObjectId} {o : ObjectId} (h : acc.1.has o = true) :
    visit acc o = acc :=
  if_pos h

theorem visit_new {acc : Marks × List ObjectId} {o : ObjectId} (h : acc.1.has o = false) :
    visit acc o = (acc.1.add o, o :: acc.2) :=
  if_neg (by rw [h]; decide)

theorem visited_foldl {h : Heap} (os : List ObjectId) :
    forall before : Marks × List ObjectId, before.1.Covers h ->
      (forall o, o ∈ os -> h.Numbered o) -> Visited h os before (os.foldl visit before) := by
  -- one object after the other; the marks and the worklist before them are generalised
  induction os with
  | nil =>
      intro before hm _
      exact ⟨hm, Subset.refl _, nofun, fun o ho => Or.inl ho, fun o ho => ho, rfl⟩
  | cons o os ih =>
      intro before hm hnumbered
      have ho := hnumbered o (List.mem_cons_self ..)
      have hos := fun o' ho' => hnumbered o' (List.mem_cons_of_mem o ho')
      rw [List.foldl_cons]
      cases hold : before.1.has o with
      | true =>
          rw [visit_old hold]
          have hrest := ih before hm hos
          refine ⟨hrest.covers, hrest.subset, ?_, hrest.listed, hrest.work_subset, hrest.count⟩
          intro o' ho'
          rcases List.mem_cons.mp ho' with rfl | ho'
          · exact hrest.subset _ hold
          · exact hrest.marked o' ho'
      | false =>
          rw [visit_new hold]
          have hrest := ih (before.1.add o, o :: before.2) (hm.add o) hos
          have hadded : before.1.Subset (before.1.add o) :=
            fun o' ho' => (has_add hm ho o').mpr (Or.inr ho')
          have hself : (before.1.add o).has o = true := (has_add hm ho o).mpr (Or.inl rfl)
          constructor
          case covers => exact hrest.covers
          case subset => exact hadded.trans hrest.subset
          case marked =>
            intro o' ho'
            rcases List.mem_cons.mp ho' with rfl | ho'
            · exact hrest.subset _ hself
            · exact hrest.marked o' ho'
          case listed =>
            intro o' ho'
            rcases hrest.listed o' ho' with ho' | ho'
            · rcases (has_add hm ho o').mp ho' with rfl | ho'
              · exact Or.inr (hrest.work_subset _ (List.mem_cons_self ..))
              · exact Or.inl ho'
            · exact Or.inr ho'
          case work_subset =>
            intro o' ho'
            exact hrest.work_subset o' (List.mem_cons_of_mem o ho')
          case count =>
            have hcount := card_unmarked_add hm ho hold
            have hrestCount := hrest.count
            simp only [List.length_cons] at hrestCount
            omega

end Marks

/-!
# Walking
-/

namespace Heap

open Marks

/-- The marks are closed under what marked objects hold. -/
def Closed (h : Heap) (m : Marks) : Prop :=
  forall o, m.has o = true -> forall o', o' ∈ h.successors o -> m.has o' = true

/-- The marks are closed under what tables with weak keys hold. -/
def EphemeronClosed (h : Heap) (m : Marks) : Prop :=
  forall o, o ∈ h.ephemeronValues m -> m.has o = true

theorem mem_ephemeronValues {h : Heap} {m : Marks} {o : ObjectId} :
    o ∈ h.ephemeronValues m ↔ exists i k v, i < h.tables.next ∧ m.has (.table ⟨i⟩) = true ∧
      h.weakness (h.tables.get i) = .weakKeys ∧ (k, v) ∈ (h.tables.get i).entries ∧
      m.keeps k = true ∧ v.object? = some o := by
  unfold ephemeronValues
  rw [List.mem_flatMap]
  constructor
  · intro hmem
    rcases hmem with ⟨i, hi, hmem⟩
    by_cases hmark : m.has (.table ⟨i⟩) = true
    · rw [if_pos hmark] at hmem
      dsimp only at hmem
      split at hmem
      · next hweak =>
          rcases List.mem_filterMap.mp hmem with ⟨e, he, hvalue⟩
          by_cases hkeep : m.keeps e.1 = true
          · rw [if_pos hkeep] at hvalue
            exact ⟨i, e.1, e.2, List.mem_range.mp hi, hmark, hweak, he, hkeep, hvalue⟩
          · rw [if_neg hkeep] at hvalue
            cases hvalue
      · cases hmem
    · rw [if_neg hmark] at hmem
      cases hmem
  · intro hexists
    rcases hexists with ⟨i, k, v, hi, hmark, hweak, he, hkeep, hvalue⟩
    refine ⟨i, List.mem_range.mpr hi, ?_⟩
    rw [if_pos hmark]
    dsimp only
    rw [hweak]
    refine List.mem_filterMap.mpr ⟨(k, v), he, ?_⟩
    rw [if_pos hkeep]
    exact hvalue

/-- With fuel for the worklist and for all that is not marked, the walk ends
with marks that are closed. -/
theorem closed_walk {h : Heap} (hsound : h.Sound) (fuel : Nat) :
    forall (m : Marks) (work : List ObjectId), m.Covers h ->
      work.length + (unmarked h m).card ≤ fuel ->
      (forall o, m.has o = true -> o ∈ work ∨ forall o', o' ∈ h.successors o -> m.has o' = true) ->
      (h.walk m work fuel).Covers h ∧ m.Subset (h.walk m work fuel) ∧
        h.Closed (h.walk m work fuel) := by
  -- the worklist and the objects that are not marked lose one together in each step
  induction fuel with
  | zero =>
      intro m work hm hfuel hopen
      cases work with
      | nil =>
          refine ⟨hm, Subset.refl m, ?_⟩
          intro o ho
          exact (hopen o ho).resolve_left List.not_mem_nil
      | cons o rest =>
          rw [List.length_cons] at hfuel
          omega
  | succ fuel ih =>
      intro m work hm hfuel hopen
      cases work with
      | nil =>
          refine ⟨hm, Subset.refl m, ?_⟩
          intro o ho
          exact (hopen o ho).resolve_left List.not_mem_nil
      | cons o rest =>
          have hvisit := visited_foldl (h.successors o) (m, rest) hm (hsound.successors o)
          have hcount := hvisit.count
          rw [List.length_cons] at hfuel
          dsimp only at hcount
          have hrest := ih ((h.successors o).foldl visit (m, rest)).1
            ((h.successors o).foldl visit (m, rest)).2 hvisit.covers (by omega) ?_
          · exact ⟨hrest.1, hvisit.subset.trans hrest.2.1, hrest.2.2⟩
          · intro o' ho'
            rcases hvisit.listed o' ho' with hold | hlisted
            · rcases hopen o' hold with hwork | hdone
              · rcases List.mem_cons.mp hwork with rfl | hwork
                · exact Or.inr hvisit.marked
                · exact Or.inl (hvisit.work_subset o' hwork)
              · exact Or.inr fun o'' ho'' => hvisit.subset o'' (hdone o'' ho'')
            · exact Or.inl hlisted

/-- Rounds over the tables with weak keys, one for each object that is not
marked, end with marks that are closed under what those hold too. -/
theorem closed_settle {h : Heap} (hsound : h.Sound) (fuel : Nat) :
    forall m : Marks, m.Covers h -> (unmarked h m).card ≤ fuel -> h.Closed m ->
      (h.settle m fuel).Covers h ∧ m.Subset (h.settle m fuel) ∧ h.Closed (h.settle m fuel) ∧
        h.EphemeronClosed (h.settle m fuel) := by
  have hvalues : forall m o, o ∈ h.ephemeronValues m -> h.Numbered o := by
    intro m o ho
    rcases mem_ephemeronValues.mp ho with ⟨i, k, v, _, _, _, he, _, hv⟩
    exact hsound.entries i k v o he hv
  -- a round that finds a new object leaves one less that is not marked
  induction fuel with
  | zero =>
      intro m hm hfuel hclosed
      refine ⟨hm, Subset.refl m, hclosed, ?_⟩
      intro o ho
      cases hold : m.has o with
      | true => exact hold
      | false =>
          have hmem : o ∈ unmarked h m :=
            Finset.mem_filter.mpr ⟨mem_objects.mpr (hvalues m o ho), hold⟩
          have hpos := Finset.card_pos.mpr ⟨o, hmem⟩
          omega
  | succ fuel ih =>
      intro m hm hfuel hclosed
      have hvisit := visited_foldl (h.ephemeronValues m) (m, []) hm (hvalues m)
      have hcount := hvisit.count
      unfold settle
      cases hround : (h.ephemeronValues m).foldl visit (m, []) with
      | mk m' work =>
          rw [hround] at hvisit hcount
          cases work with
          | nil =>
              refine ⟨hm, Subset.refl m, hclosed, ?_⟩
              intro o ho
              exact (hvisit.listed o (hvisit.marked o ho)).resolve_right List.not_mem_nil
          | cons o rest =>
              simp only [List.length_cons, List.length_nil] at hcount
              have hbound := card_unmarked_le h m
              have hwalk := closed_walk hsound h.size m' (o :: rest) hvisit.covers
                (by rw [List.length_cons]; omega) (by
                  intro o' ho'
                  rcases hvisit.listed o' ho' with hold | hlisted
                  · exact Or.inr fun o'' ho'' => hvisit.subset o'' (hclosed o' hold o'' ho'')
                  · exact Or.inl hlisted)
              have hless := card_unmarked_mono (h := h) hwalk.2.1
              have hrest := ih (h.walk m' (o :: rest) h.size) hwalk.1 (by omega) hwalk.2.2
              exact ⟨hrest.1, (hvisit.subset.trans hwalk.2.1).trans hrest.2.1, hrest.2.2⟩

/-- Marking from some roots on, after marks that are closed. -/
theorem closed_reach {h : Heap} (hsound : h.Sound) {m : Marks} (hm : m.Covers h)
    (hclosed : h.Closed m) {roots : List ObjectId} (hroots : forall o, o ∈ roots -> h.Numbered o) :
    (h.reach m roots).Covers h ∧ m.Subset (h.reach m roots) ∧
      (forall o, o ∈ roots -> (h.reach m roots).has o = true) ∧
      h.Closed (h.reach m roots) ∧ h.EphemeronClosed (h.reach m roots) := by
  have hvisit := visited_foldl roots (m, []) hm hroots
  have hcount := hvisit.count
  have hbound := card_unmarked_le h m
  simp only [List.length_nil] at hcount
  have hwalk := closed_walk hsound h.size (roots.foldl visit (m, [])).1
    (roots.foldl visit (m, [])).2 hvisit.covers (by omega) (by
      intro o ho
      rcases hvisit.listed o ho with hold | hlisted
      · exact Or.inr fun o' ho' => hvisit.subset o' (hclosed o hold o' ho')
      · exact Or.inl hlisted)
  have hsettle := closed_settle hsound h.size _ hwalk.1 (card_unmarked_le h _) hwalk.2.2
  have hsub := hwalk.2.1.trans hsettle.2.1
  exact ⟨hsettle.1, hvisit.subset.trans hsub, fun o ho => hsub o (hvisit.marked o ho),
    hsettle.2.2.1, hsettle.2.2.2⟩

/-!
# Marks only grow
-/

theorem subset_visits (os : List ObjectId) :
    forall before : Marks × List ObjectId, before.1.Subset (os.foldl visit before).1 := by
  induction os with
  | nil =>
      intro before
      exact Subset.refl _
  | cons o os ih =>
      intro before
      rw [List.foldl_cons]
      refine Subset.trans ?_ (ih (visit before o))
      unfold visit
      split
      · exact Subset.refl _
      · exact subset_add before.1 o

theorem subset_walk (h : Heap) (fuel : Nat) :
    forall (m : Marks) (work : List ObjectId), m.Subset (h.walk m work fuel) := by
  induction fuel with
  | zero =>
      intro m work
      cases work <;> exact Subset.refl m
  | succ fuel ih =>
      intro m work
      cases work with
      | nil => exact Subset.refl m
      | cons o rest => exact (subset_visits (h.successors o) (m, rest)).trans (ih _ _)

theorem subset_settle (h : Heap) (fuel : Nat) :
    forall m : Marks, m.Subset (h.settle m fuel) := by
  induction fuel with
  | zero =>
      intro m
      exact Subset.refl m
  | succ fuel ih =>
      intro m
      have hvisits := subset_visits (h.ephemeronValues m) (m, [])
      unfold settle
      cases hround : (h.ephemeronValues m).foldl visit (m, []) with
      | mk m' work =>
          rw [hround] at hvisits
          cases work with
          | nil => exact Subset.refl m
          | cons o rest => exact (hvisits.trans (subset_walk h _ m' (o :: rest))).trans (ih _)

theorem subset_reach (h : Heap) (m : Marks) (roots : List ObjectId) :
    (roots.foldl visit (m, [])).1.Subset (h.reach m roots) :=
  (subset_walk h _ _ _).trans (subset_settle h _ _)

theorem keeps_iff {m : Marks} {v : Value} :
    m.keeps v = true ↔ forall o, v.object? = some o -> m.has o = true := by
  unfold Marks.keeps
  cases v.object? with
  | none => exact ⟨nofun, fun _ => rfl⟩
  | some o =>
      constructor
      · intro h o' ho'
        cases ho'
        exact h
      · intro h
        exact h o rfl

theorem closed_none (h : Heap) : h.Closed (.none h) := by
  intro o ho
  rw [none_has] at ho
  cases ho

/-- Everything that is reachable is marked. -/
theorem reachable_marked {h : Heap} (hsound : h.Sound) {roots : List ObjectId}
    (hroots : forall o, o ∈ roots -> h.Numbered o) {o : ObjectId} (ho : h.Reachable roots o) :
    (h.reach (.none h) roots).has o = true := by
  rcases closed_reach hsound (covers_none h) (closed_none h) hroots with
    ⟨hcovers, _, hmarked, hheld, hephemeron⟩
  induction ho with
  | root hroot => exact hmarked _ hroot
  | held _ hsucc ih => exact hheld _ ih _ hsucc
  | @ephemeron t k v o _ hweak he _ hvalue iht ihk =>
      apply hephemeron
      exact mem_ephemeronValues.mpr ⟨t.index, k, v, numbered_of_has hcovers iht, iht, hweak, he,
        keeps_iff.mpr ihk, hvalue⟩

end Heap

end LuaHost
