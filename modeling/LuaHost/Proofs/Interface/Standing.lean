import LuaHost.Proofs.Interface.Resolving
import LuaHost.Proofs.Machine.Resuming

/-!
# The values of the running call

An operation on the stack is described by the values that the running call has
before it and after it, from the bottom to the top.
-/

namespace LuaHost

namespace Thread

/-- The running call begins at slot `base`, and has these values. -/
structure Shows (th : Thread) (base : Nat) (vs : List Value) : Prop where
  base_eq : th.base = base
  top_eq : th.top = base + vs.length
  slot_eq : forall k v, vs[k]? = some v → th.slot (base + k) = v

variable {th th' : Thread} {base n : Nat} {us vs vs' : List Value} {v : Value}

theorem getElem?_slots (th : Thread) (i n k : Nat) :
    (th.slots i n)[k]? = if k < n then some (th.slot (i + k)) else none := by
  unfold slots
  rw [List.getElem?_map]
  split
  · next hk =>
    rw [List.getElem?_range hk]
    rfl
  · next hk =>
    rw [List.getElem?_eq_none (by rw [List.length_range]; exact Nat.le_of_not_lt hk)]
    rfl

theorem slots_eq_of_slot {i : Nat} (h : forall k v, vs[k]? = some v → th.slot (i + k) = v) :
    th.slots i vs.length = vs := by
  refine List.ext_getElem? fun k => ?_
  rw [getElem?_slots]
  split
  · next hk => rw [h k vs[k] (List.getElem?_eq_getElem hk), List.getElem?_eq_getElem hk]
  · next hk => rw [List.getElem?_eq_none (Nat.le_of_not_lt hk)]

theorem slot_of_slots {i k : Nat} (h : (th.slots i n)[k]? = some v) : th.slot (i + k) = v := by
  rw [getElem?_slots] at h
  split at h
  · exact Option.some.inj h
  · cases h

theorem shows_values (h : th.base ≤ th.top) : th.Shows th.base th.values := by
  have hlength : th.values.length = th.height := length_slots th _ _
  refine ⟨rfl, ?_, fun k v hv => ?_⟩
  · rw [hlength]
    unfold height
    omega
  · exact slot_of_slots hv

namespace Shows

theorem height_eq (h : th.Shows base vs) : th.height = vs.length := by
  unfold height
  rw [h.base_eq, h.top_eq, Nat.add_sub_cancel_left]

theorem values_eq (h : th.Shows base vs) : th.values = vs := by
  unfold values
  rw [h.base_eq, h.height_eq]
  exact slots_eq_of_slot h.slot_eq

theorem alike (h : th.Shows base vs) (halike : th.Alike th') : th'.Shows base vs :=
  ⟨halike.base_eq.trans h.base_eq, halike.top_eq.trans h.top_eq,
    fun k v hv => (halike.slot_eq _).trans (h.slot_eq k v hv)⟩

theorem slot_last (h : th.Shows base (us ++ [v])) : th.slot (base + us.length) = v :=
  h.slot_eq _ v (by rw [List.getElem?_append_right (Nat.le_refl _), Nat.sub_self]; rfl)

theorem slots_rest (h : th.Shows base (us ++ vs)) :
    th.slots (base + us.length) (th.top - (base + us.length)) = vs := by
  have hcount : th.top - (base + us.length) = vs.length := by
    rw [h.top_eq, List.length_append]
    omega
  rw [hcount]
  refine slots_eq_of_slot fun k v hv => ?_
  rw [Nat.add_assoc]
  refine h.slot_eq _ v ?_
  rw [List.getElem?_append_right (Nat.le_add_right _ _), Nat.add_sub_cancel_left]
  exact hv

theorem withTop (h : th.Shows base (us ++ vs)) : (th.withTop (base + us.length)).Shows base us := by
  refine ⟨h.base_eq, rfl, fun k v hv => h.slot_eq k v ?_⟩
  rw [List.getElem?_append_left (List.getElem?_eq_some_iff.mp hv).1]
  exact hv

theorem raised (h : th.Shows base us) (hraised : th.Raised vs th') : th'.Shows base (us ++ vs) := by
  have htop := h.top_eq
  refine ⟨hraised.below.base_eq.trans h.base_eq, ?_, fun k v hv => ?_⟩
  · rw [hraised.top_eq, htop, List.length_append, Nat.add_assoc]
  · rw [List.getElem?_append] at hv
    split at hv
    · rw [hraised.below.slot_eq _ (by omega)]
      exact h.slot_eq k v hv
    · have hslot := hraised.slot_eq _ v hv
      rw [htop, show base + us.length + (k - us.length) = base + k by omega] at hslot
      exact hslot

theorem push (h : th.Shows base us) (v : Value) : (th.push v).Shows base (us ++ [v]) := by
  have htop := h.top_eq
  refine ⟨(base_push th v).trans h.base_eq, ?_, fun k u hu => ?_⟩
  · rw [top_push, htop, List.length_append, List.length_singleton, Nat.add_assoc]
  · rw [slot_push, htop]
    rw [List.getElem?_append] at hu
    split at hu
    · rw [if_neg (by omega)]
      exact h.slot_eq k u hu
    · rcases List.getElem?_eq_some_iff.mp hu with ⟨hk, rfl⟩
      rw [List.length_singleton] at hk
      rw [if_pos (by omega), List.getElem_singleton]

/-- What stands above the values that are kept is not known. -/
theorem sameUpTo (h : th.Shows base (us ++ vs)) (hsame : th.SameUpTo (base + us.length) th')
    (htop : base + us.length ≤ th'.top) :
    th'.Shows base (us ++ th'.slots (base + us.length) (th'.top - (base + us.length))) := by
  refine ⟨hsame.base_eq.trans h.base_eq, ?_, fun k v hv => ?_⟩
  · rw [List.length_append, length_slots]
    omega
  · rw [List.getElem?_append] at hv
    split at hv
    · next hk =>
      rw [hsame.slot_eq _ (by omega) (by rw [h.base_eq]; exact Nat.le_add_right _ _)]
      refine h.slot_eq k v ?_
      rw [List.getElem?_append_left hk]
      exact hv
    · have hslot := slot_of_slots hv
      rw [show base + us.length + (k - us.length) = base + k by omega] at hslot
      exact hslot

end Shows

theorem slot_putSlots (vs : List Value) : forall (th : Thread) (i j : Nat),
    (th.putSlots i vs).slot j = if i ≤ j then (vs[j - i]?).getD (th.slot j) else th.slot j := by
  induction vs with
  | nil =>
      intro th i j
      rw [List.getElem?_nil]
      split <;> rfl
  | cons v vs ih =>
      intro th i j
      refine (ih _ _ _).trans ?_
      rw [slot_setSlot]
      rcases Nat.lt_trichotomy j i with hlt | rfl | hlt
      · rw [if_neg (by omega), if_neg (by omega), if_neg (by omega)]
      · rw [if_neg (by omega), if_pos rfl, if_pos (Nat.le_refl j), Nat.sub_self]
        rfl
      · rw [if_pos (by omega), if_neg (by omega), if_pos (by omega),
          show j - i = j - (i + 1) + 1 by omega, List.getElem?_cons_succ]

theorem Shows.putSlots (h : th.Shows base (us ++ vs)) (hlength : vs'.length = vs.length) :
    (th.putSlots (base + us.length) vs').Shows base (us ++ vs') := by
  refine ⟨?_, ?_, fun k v hv => ?_⟩
  · exact ((sameUpTo_putSlots vs' th (Nat.le_refl _)).base_eq).trans h.base_eq
  · rw [top_putSlots, h.top_eq, List.length_append, List.length_append, hlength]
  · rw [slot_putSlots]
    rw [List.getElem?_append] at hv
    split at hv
    · next hk =>
      rw [if_neg (by omega)]
      refine h.slot_eq k v ?_
      rw [List.getElem?_append_left hk]
      exact hv
    · rw [if_pos (by omega), show base + k - (base + us.length) = k - us.length by omega, hv]
      rfl

end Thread

namespace World

/-- The running call of a live thread begins at slot `base`, and has these values. -/
structure Stands (w : World) (t : ThreadId) (base : Nat) (vs : List Value) : Prop where
  live : w.liveThread t = true
  shows : (w.thread t).Shows base vs

variable {w w' : World} {t : ThreadId} {base n : Nat} {us vs : List Value}

theorem stands_values (hlive : w.liveThread t = true) (h : (w.thread t).base ≤ (w.thread t).top) :
    w.Stands t (w.thread t).base (w.thread t).values :=
  ⟨hlive, Thread.shows_values h⟩

theorem Stands.base_le (h : w.Stands t base vs) (n : Nat) : (w.thread t).base ≤ base + n := by
  rw [h.shows.base_eq]
  exact Nat.le_add_right _ _

theorem stands_setThread (hlive : w.liveThread t = true) {th : Thread} (h : th.Shows base vs) :
    (w.setThread t th).Stands t base vs := by
  refine ⟨(liveThread_setThread w t t th).trans hlive, ?_⟩
  rw [thread_setThread hlive]
  exact h

theorem Stands.loaded (h : w.Stands t base us) (hloaded : Loaded t w vs w') :
    w'.Stands t base (us ++ vs) :=
  ⟨hloaded.live h.live, h.shows.raised hloaded.raised⟩

theorem Stands.carried {os : List ThreadId} (h : w.Stands t base (us ++ vs))
    (hcarried : w.Carried os t (base + us.length) w') (htop : base + us.length ≤ (w'.thread t).top) :
    w'.Stands t base (us ++ (w'.thread t).slots (base + us.length)
      ((w'.thread t).top - (base + us.length))) :=
  ⟨hcarried.live, h.shows.sameUpTo hcarried.below htop⟩

theorem Stands.carried_one {os : List ThreadId} (h : w.Stands t base (us ++ vs))
    (hcarried : w.Carried os t (base + us.length) w')
    (htop : (w'.thread t).top = base + us.length + 1) :
    w'.Stands t base (us ++ [(w'.thread t).slot (base + us.length)]) := by
  have hone := h.carried hcarried (by rw [htop]; exact Nat.le_succ _)
  rw [htop, Nat.add_sub_cancel_left] at hone
  exact hone

end World

namespace Interface

open Machine World

variable {w : World} {t : ThreadId} {base : Nat} {us vs : List Value} {v : Value}

theorem returns_getTop (h : w.Stands t base vs) :
    Returns (Interface.getTop t) w (vs.length : Int) w := by
  rw [← h.shows.height_eq]
  exact Returns.bind (returns_height w t) (Returns.pure _ w)

theorem returns_place_above (h : w.Stands t base (us ++ v :: vs)) :
    Returns (place t ((us.length : Int) + 1)) w (.slot (base + us.length)) w := by
  have hbase : (w.thread t).frame.func + 1 = base := h.shows.base_eq
  have htop := h.shows.top_eq
  rw [List.length_append, List.length_cons] at htop
  have hplace : (w.thread t).frame.func + ((us.length : Int) + 1).toNat = base + us.length := by omega
  refine Returns.bind (returns_thread w t) ?_
  rw [if_pos (by omega), hplace]
  dsimp only
  rw [if_pos (by omega)]
  exact Returns.pure _ w

theorem returns_checkIndex_above (w : World) (t : ThreadId) (n : Nat) :
    Returns (checkIndex t ((n : Int) + 1)) w () w :=
  returns_checkIndex (validIndex_iff.mpr ⟨by omega, Or.inl (Or.inl (by omega))⟩)

/-- The topmost value moves down to an index, or one from there to the top. -/
theorem returns_rotate_above (h : w.Stands t base (us ++ v :: vs)) (n : Int) {vs' : List Value}
    (hvs : vs' = (v :: vs).drop (if n ≥ 0 then (v :: vs).length - n.toNat else (-n).toNat) ++
      (v :: vs).take (if n ≥ 0 then (v :: vs).length - n.toNat else (-n).toNat)) :
    exists w', Returns (rotate t ((us.length : Int) + 1) n) w () w' ∧
      w'.Stands t base (us ++ vs') ∧ w' = w.setThread t (w'.thread t) := by
  have hlength : vs'.length = (v :: vs).length := by
    rw [hvs, List.length_append, List.length_drop, List.length_take]
    omega
  have hrotate := returns_modifyThread w t fun th =>
    let vs := th.slots (base + us.length) (th.top - (base + us.length))
    let k := if n ≥ 0 then vs.length - n.toNat else (-n).toNat
    th.putSlots (base + us.length) (vs.drop k ++ vs.take k)
  dsimp only at hrotate
  rw [h.shows.slots_rest, ← hvs] at hrotate
  refine ⟨_, Returns.bind (returns_checkIndex_above w t us.length) ?_,
    stands_setThread h.live (h.shows.putSlots hlength), ?_⟩
  · exact Returns.bind (returns_place_above h) hrotate
  · rw [thread_setThread h.live]

theorem returns_insert_above (h : w.Stands t base (us ++ vs ++ [v])) :
    exists w', Returns (insert t ((us.length : Int) + 1)) w () w' ∧
      w'.Stands t base (us ++ v :: vs) ∧ w' = w.setThread t (w'.thread t) := by
  rw [List.append_assoc] at h
  cases vs with
  | nil => exact returns_rotate_above h 1 rfl
  | cons u vs =>
      have hcons : w.Stands t base (us ++ u :: (vs ++ [v])) := h
      refine returns_rotate_above hcons 1 ?_
      rw [if_pos (by decide), ← List.cons_append, List.length_append, List.length_singleton,
        show ((u :: vs).length + 1 - (1 : Int).toNat) = (u :: vs).length from Nat.add_sub_cancel _ 1,
        List.drop_left, List.take_left]
      rfl

theorem returns_pop_top (h : w.Stands t base (us ++ vs)) :
    exists w', Returns (Interface.pop t vs.length) w () w' ∧ w'.Stands t base us ∧
      w' = w.setThread t (w'.thread t) := by
  have htop := h.shows.top_eq
  have hheight := h.shows.height_eq
  rw [List.length_append] at htop hheight
  have hset : Returns (setHeight t (-(vs.length : Int) - 1)) w ()
      (w.setThread t ((w.thread t).withTop (base + us.length))) := by
    refine returns_modifyThread_eq ?_
    have hneg : ¬ (-(vs.length : Int) - 1 ≥ 0) := by omega
    have hnew : (((w.thread t).top : Int) + (-(vs.length : Int) - 1) + 1).toNat =
        base + us.length := by omega
    simp only [if_neg hneg, hnew]
    rw [if_neg (by omega)]
  refine ⟨_, Returns.bind (returns_height w t) ?_, stands_setThread h.live h.shows.withTop, ?_⟩
  · rw [if_neg (by omega)]
    exact hset
  · rw [thread_setThread h.live]

theorem returns_remove_above (h : w.Stands t base (us ++ v :: vs)) :
    exists w', Returns (remove t ((us.length : Int) + 1)) w () w' ∧ w'.Stands t base (us ++ vs) ∧
      w' = w.setThread t (w'.thread t) := by
  rcases returns_rotate_above h (-1) rfl with ⟨w₁, hrotate, hstands, hrest⟩
  have hlast : us ++ ((v :: vs).drop 1 ++ (v :: vs).take 1) = us ++ vs ++ [v] := by
    rw [List.append_assoc]
    rfl
  have hstands₁ : w₁.Stands t base (us ++ vs ++ [v]) := hlast ▸ hstands
  rcases returns_pop_top hstands₁ with ⟨w₂, hpop, hpopped, hrest₂⟩
  refine ⟨w₂, Returns.bind hrotate hpop, hpopped, ?_⟩
  rw [hrest, World.setThread_setThread] at hrest₂
  exact hrest₂

theorem returns_place_last (h : w.Stands t base (us ++ [v])) :
    Returns (place t (-1)) w (.slot (base + us.length)) w := by
  have htop := h.shows.top_eq
  rw [List.length_append, List.length_singleton] at htop
  refine Returns.bind (returns_thread w t) ?_
  rw [if_neg (by decide), if_pos (by decide),
    show (((w.thread t).top : Int) + -1).toNat = base + us.length by omega]
  exact Returns.pure _ w

theorem returns_valueAt_last (h : w.Stands t base (us ++ [v])) :
    Returns (valueAt t (.slot (base + us.length))) w v w := by
  rw [← h.shows.slot_last]
  exact fun _ => rfl

theorem returns_checkIndex_last (h : w.Stands t base (us ++ [v])) :
    Returns (checkIndex t (-1)) w () w := by
  refine returns_checkIndex (validIndex_iff.mpr ⟨by decide, Or.inr ?_⟩)
  rw [h.shows.height_eq, List.length_append, List.length_singleton]
  omega

/-- The text of the topmost value, which is a string then. -/
theorem returns_toText_last (h : w.Stands t base (us ++ [v])) :
    exists w' v', Returns (toText t (-1)) w (v.toBytes?.map Bytes.toText) w' ∧
      w'.Stands t base (us ++ [v']) ∧ w' = w.setThread t (w'.thread t) ∧
      v'.toBytes? = v.toBytes? ∧ (v.toBytes? = none → v' = v) := by
  have hcheck := returns_checkIndex_last h
  have hplace := returns_place_last h
  have hvalue := returns_valueAt_last h
  have hkept : w = w.setThread t (w.thread t) := (setThread_thread w t).symm
  have hstored : forall s : Bytes, exists w', Returns (do
      store t (.str s) (.slot (base + us.length))
      return some s : M (Option Bytes)) w (some s) w' ∧ w'.Stands t base (us ++ [.str s]) ∧
      w' = w.setThread t (w'.thread t) := by
    intro s
    have hset := returns_modifyThread w t (·.setSlot (base + us.length) (.str s))
    have hshows : ((w.thread t).putSlots (base + us.length) [.str s]).Shows base (us ++ [.str s]) :=
      h.shows.putSlots rfl
    refine ⟨_, Returns.bind hset (Returns.pure _ _), stands_setThread h.live hshows, ?_⟩
    rw [thread_setThread h.live]
  have hbytes : exists w' v', Returns (toBytesAt t (-1)) w v.toBytes? w' ∧
      w'.Stands t base (us ++ [v']) ∧ w' = w.setThread t (w'.thread t) ∧
      v'.toBytes? = v.toBytes? ∧ (v.toBytes? = none → v' = v) := by
    cases v with
    | str s => exact ⟨w, .str s, Returns.bind hplace (Returns.bind hvalue (Returns.pure _ w)), h, hkept,
        rfl, fun _ => rfl⟩
    | int i =>
        rcases hstored (Number.text (.int i)).toUTF8 with ⟨w', hrun, hstands, hrest⟩
        exact ⟨w', _, Returns.bind hplace (Returns.bind hvalue hrun), hstands, hrest, rfl, nofun⟩
    | float x =>
        rcases hstored (Number.text (.float x)).toUTF8 with ⟨w', hrun, hstands, hrest⟩
        exact ⟨w', _, Returns.bind hplace (Returns.bind hvalue hrun), hstands, hrest, rfl, nofun⟩
    | _ => exact ⟨w, _, Returns.bind hplace (Returns.bind hvalue (Returns.pure _ w)), h, hkept, rfl,
        fun _ => rfl⟩
  rcases hbytes with ⟨w', v', hrun, hstands, hrest, hsame⟩
  exact ⟨w', v', Returns.bind (Returns.bind hcheck hrun) (Returns.pure _ w'), hstands, hrest, hsame⟩

theorem returns_kindAt_last (h : w.Stands t base (us ++ [v])) :
    Returns (kindAt t (-1)) w v.kind w := by
  have hvalue : Returns (value? t (-1)) w (some v) w :=
    Returns.bind (returns_place_last h) (Returns.bind (returns_valueAt_last h) (Returns.pure _ w))
  exact Returns.bind hvalue (Returns.pure _ w)

end Interface

end LuaHost
