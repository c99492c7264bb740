import LuaHost.Proofs.Handle.Temporaries

/-!
# Fields of what an index denotes

An operation on a field finds the value that an index denotes before it pushes
the field's name.  The index that it goes on with counts from the bottom, so
that it names the same place when there is more on the stack, unless that place
is the one that the name itself is moved into.
-/

namespace LuaHost

/-!
# Indices that keep their meaning
-/

/-- The index with which the place of an index is found when there is more on the
stack. -/
def Thread.absolute (th : Thread) (idx : Int) : Int :=
  if idx > 0 ∨ idx ≤ registryIndex then idx else th.height + 1 + idx

theorem Interface.validIndex_iff {n : Nat} {idx : Int} : validIndex n idx = true ↔
    idx ≠ 0 ∧ ((idx > 0 ∨ idx ≤ registryIndex) ∨ -idx ≤ n) := by
  unfold validIndex
  rw [Bool.and_eq_true, Bool.or_eq_true, Bool.or_eq_true, decide_eq_true_eq, decide_eq_true_eq,
    decide_eq_true_eq, bne_iff_ne]

namespace World

open Interface

/-- An index that the host may use, and the value that it denotes. -/
structure Denotes (w : World) (t : ThreadId) (idx : Int) (v : Value) : Prop where
  valid : validIndex (w.thread t).height idx = true
  value_eq : w.value? t idx = some v

/-- A world in which a stack has the same first `n` slots and is not lower, with the
same registry and native functions. -/
structure Atop (t : ThreadId) (n : Nat) (w w' : World) : Prop where
  below : (w.thread t).SameBelow n (w'.thread t)
  top_le : (w.thread t).top ≤ (w'.thread t).top
  registry_eq : w'.registry = w.registry
  native_eq : forall i f ups, w.heap.closures.get i = .native f ups ->
    w'.heap.closures.get i = .native f ups

variable {t : ThreadId} {w w' w'' : World} {n : Nat} {idx : Int} {v : Value} {vs : List Value}

theorem Loaded.atop (h : Loaded t w vs w') : Atop t (w.thread t).top w w' := by
  refine ⟨h.raised.below, ?_, ?_, fun i f ups hnative => ?_⟩
  · rw [h.raised.top_eq]
    exact Nat.le_add_right _ _
  · rw [h.rest_eq]
    rfl
  · rw [h.rest_eq]
    exact hnative

theorem native_of_placeOf {th : Thread} {c : ClosureId} {i : Nat}
    (h : w.placeOf th idx = .upvalue c i) :
    exists f ups, w.heap.closures.get c.index = .native f ups := by
  unfold placeOf at h
  split at h
  · split at h <;> cases h
  · split at h
    · cases h
    · split at h
      · cases h
      · split at h
        · split at h
          · next hnative =>
            split at h
            · cases h
              exact ⟨_, _, hnative⟩
            · cases h
          · cases h
        · cases h

namespace Denotes

theorem place_ne (h : w.Denotes t idx v) : w.placeOf (w.thread t) idx ≠ .nowhere := by
  intro hplace
  have hvalue := h.value_eq
  unfold World.value? at hvalue
  rw [if_pos hplace] at hvalue
  cases hvalue

theorem valueAt_eq (h : w.Denotes t idx v) : w.valueAt t idx = v := by
  have hvalue := h.value_eq
  unfold World.value? at hvalue
  rw [if_neg h.place_ne] at hvalue
  exact Option.some.inj hvalue

theorem slot_lt (h : w.Denotes t idx v) {i : Nat}
    (hplace : w.placeOf (w.thread t) idx = .slot i) : i < (w.thread t).top := by
  have hvalid := validIndex_iff.mp h.valid
  have hheight : (w.thread t).height ≤ (w.thread t).top := Nat.sub_le _ _
  unfold placeOf at hplace
  split at hplace
  · split at hplace
    · next hlow =>
      cases hplace
      exact hlow
    · cases hplace
  · split at hplace
    · cases hplace
      omega
    · split at hplace
      · cases hplace
      · split at hplace
        · split at hplace
          · split at hplace <;> cases hplace
          · cases hplace
        · cases hplace

theorem placeOf_absolute (h : w.Denotes t idx v) (hatop : Atop t n w w')
    (hbase : (w.thread t).base ≤ n) :
    w'.placeOf (w'.thread t) ((w.thread t).absolute idx) = w.placeOf (w.thread t) idx := by
  have hstart : (w'.thread t).frame.func = (w.thread t).frame.func :=
    Nat.succ_inj.mp hatop.below.base_eq
  have hbased : (w.thread t).frame.func + 1 ≤ n := hbase
  have htop := hatop.top_le
  have hplace := h.place_ne
  have hvalid := validIndex_iff.mp h.valid
  have hheight : (w.thread t).height = (w.thread t).top - ((w.thread t).frame.func + 1) := rfl
  unfold Thread.absolute
  by_cases hpositive : idx > 0
  · rw [if_pos (Or.inl hpositive)]
    unfold placeOf at hplace ⊢
    rw [if_pos hpositive] at hplace ⊢
    rw [if_pos hpositive, hstart]
    by_cases hlow : (w.thread t).frame.func + idx.toNat < (w.thread t).top
    · rw [if_pos hlow, if_pos (by omega)]
    · rw [if_neg hlow] at hplace
      exact absurd rfl hplace
  · by_cases hstack : idx > registryIndex
    · -- counted from the top, and so from the bottom in the absolute index
      rw [if_neg (by omega)]
      unfold placeOf
      rw [if_pos (by omega), if_neg hpositive, if_pos hstack, hstart, if_pos (by omega)]
      congr 1
      omega
    · rw [if_pos (Or.inr (Int.not_lt.mp hstack))]
      unfold placeOf at hplace ⊢
      rw [if_neg hpositive, if_neg hstack] at hplace ⊢
      rw [if_neg hpositive, if_neg hstack]
      split
      · rfl
      · next hupvalue =>
        rw [if_neg hupvalue] at hplace
        rw [hstart, hatop.below.slot_eq _ (by omega)]
        -- an upvalue of the running native function, which is in the frame and has not moved
        cases hfunction : (w.thread t).slot (w.thread t).frame.func with
        | closure c =>
            rw [hfunction] at hplace
            dsimp only at hplace ⊢
            cases hclosure : w.heap.closures.get c.index with
            | native f ups => rw [hatop.native_eq _ f ups hclosure]
            | script p ups =>
                rw [hclosure] at hplace
                exact absurd rfl hplace
        | _ => rfl

/-- What an index denotes is found with the index from the bottom, as long as its slot
is one of those that stay. -/
theorem absolute (h : w.Denotes t idx v) (hatop : Atop t n w w') (hbase : (w.thread t).base ≤ n)
    (hslot : forall i, w.placeOf (w.thread t) idx = .slot i -> i < n) :
    w'.Denotes t ((w.thread t).absolute idx) v := by
  constructor
  · have hvalid := validIndex_iff.mp h.valid
    refine validIndex_iff.mpr ?_
    unfold Thread.absolute
    split
    · next hkept => exact ⟨hvalid.1, Or.inl hkept⟩
    · next hcounted => exact ⟨by omega, Or.inl (Or.inl (by omega))⟩
  · unfold World.value?
    rw [h.placeOf_absolute hatop hbase, if_neg h.place_ne]
    rw [← h.valueAt_eq]
    unfold valueAt
    rw [h.placeOf_absolute hatop hbase]
    congr 1
    cases hplace : w.placeOf (w.thread t) idx with
    | slot i => exact hatop.below.slot_eq i (hslot i hplace)
    | registry => exact congrArg Value.table hatop.registry_eq
    | upvalue c i =>
        rcases native_of_placeOf hplace with ⟨f, ups, hnative⟩
        unfold valueOf
        dsimp only
        rw [hatop.native_eq _ f ups hnative, hnative]
    | nowhere => rfl

end Denotes

/-!
# A new native function
-/

/-- The world with one more closure. -/
def withClosure (w : World) (c : Closure) : World :=
  { w with
    heap := { w.heap with closures := w.heap.closures.push c }
    collector := { w.collector with allocated := w.collector.allocated + 1 } }

/-- The closure that is made next. -/
def nextClosure (w : World) : ClosureId := ⟨w.heap.closures.next⟩

theorem Loaded.withClosure (h : Loaded t w vs w') (c : Closure) :
    Loaded t (w.withClosure c) vs (w'.withClosure c) := by
  refine ⟨?_, h.raised⟩
  generalize hth : w'.thread t = th at h
  have hrest := h.rest_eq
  rw [hth] at hrest
  show w'.withClosure c = (w.withClosure c).setThread t (w'.thread t)
  rw [hth, hrest]
  rfl

theorem atop_withClosure (w : World) (t : ThreadId) (c : Closure) :
    Atop t (w.thread t).top w (w.withClosure c) := by
  refine ⟨Thread.SameBelow.refl _ _, Nat.le_refl _, rfl, fun i f ups hnative => ?_⟩
  have hold : w.heap.closures.find? i = some (.native f ups) := by
    unfold Store.get at hnative
    cases hfind : w.heap.closures.find? i with
    | none =>
        rw [hfind] at hnative
        cases hnative
    | some c =>
        rw [hfind] at hnative
        exact congrArg some hnative
  have hlt := Store.lt_next_of_live (Store.live_of_find? hold)
  apply Store.get_of_find?
  show (w.heap.closures.push c).find? i = _
  rw [Store.find?_push, if_neg (Nat.ne_of_lt hlt)]
  exact hold

theorem Atop.trans {m : Nat} (h : Atop t m w w') (h' : Atop t n w' w'') (hmn : m ≤ n) :
    Atop t m w w'' :=
  ⟨h.below.trans h'.below hmn, Nat.le_trans h.top_le h'.top_le,
    h'.registry_eq.trans h.registry_eq,
    fun i f ups hnative => h'.native_eq i f ups (h.native_eq i f ups hnative)⟩

/-- The world without the topmost value of a stack. -/
def lowered (w : World) (t : ThreadId) : World := w.setThread t ((w.thread t).drop 1)

theorem Loaded.atop_lowered (h : Loaded t (w.lowered t) vs w') (hlive : w.liveThread t = true)
    (htop : (w.thread t).top ≤ (w'.thread t).top) : Atop t ((w.thread t).top - 1) w w' := by
  have hatop := h.atop
  have hthread : (w.lowered t).thread t = (w.thread t).drop 1 := thread_setThread hlive _
  rw [hthread] at hatop
  have hbelow := hatop.below
  rw [hthread] at hbelow
  exact ⟨⟨hbelow.base_eq, hbelow.slot_eq⟩, htop, hatop.registry_eq, hatop.native_eq⟩

end World

theorem Thread.Raised.swapped {th th' : Thread} {v : Value} (h : th.Raised [v] th')
    (hone : th.base + 1 ≤ th.top) :
    (th.drop 1).Raised [v, th.slot (th.top - 1)] th'.swapTop := by
  have htop : th'.top = th.top + 1 := h.top_eq
  have hlow : (th.drop 1).top = th.top - 1 := rfl
  have hlimit : th'.swapTop.limit = th'.limit := Thread.limit_congr (Thread.room_swapTop th')
  constructor
  case top_eq =>
    rw [Thread.top_swapTop, htop, hlow, List.length_cons, List.length_singleton]
    omega
  case below =>
    refine ⟨(Thread.base_swapTop th').trans h.below.base_eq, fun i hi => ?_⟩
    rw [hlow] at hi
    rw [Thread.slot_swapTop, if_neg (by omega), if_neg (by omega)]
    exact h.below.slot_eq i (by omega)
  case slot_eq =>
    intro i x hx
    have hi : i < 2 := (List.getElem?_eq_some_iff.mp hx).1
    rw [Thread.slot_swapTop, hlow]
    rcases Nat.lt_succ_iff_lt_or_eq.mp hi with hfirst | rfl
    · rcases Nat.lt_one_iff.mp hfirst with rfl
      rw [if_neg (by omega), if_pos (by omega), show th'.top - 2 + 1 = th.top + 0 by omega]
      exact h.slot_eq 0 x (by rw [← hx]; rfl)
    · cases hx
      rw [if_pos (by omega), show th'.top - 2 = th.top - 1 by omega]
      exact h.below.slot_eq _ (by omega)
  case limit_eq => exact hlimit.trans h.limit_eq
  case fits =>
    rw [hlimit, Thread.top_swapTop]
    exact h.fits

namespace Machine

/-!
# Computations that go on as others do
-/

/-- A computation that goes on as `y` does, in a world as `P` says, if a stack can hold
as many values as it needs, and that does not return if it cannot. -/
structure Becomes {α : Type} (t : ThreadId) (x : M α) (w : World) (most : Nat) (P : World → Prop)
    (y : M α) : Prop where
  reaches : most ≤ (w.thread t).limit -> exists w₁, P w₁ ∧ forall E, x E w = y E w₁
  stops : (w.thread t).limit < most -> forall E a w', x E w ≠ .ok a w'

section Becomes

variable {α β : Type} {t : ThreadId} {w w' : World} {m n : Nat} {P : World → Prop}

theorem Becomes.after {x : M α} {f : α → M β} {a : α} {y : M β} (hx : Returns x w a w')
    (hlimit : (w'.thread t).limit = (w.thread t).limit) (hf : Becomes t (f a) w' n P y) :
    Becomes t (x >>= f) w n P y := by
  constructor
  · intro hfits
    rw [← hlimit] at hfits
    rcases hf.reaches hfits with ⟨w₁, hP, hrun⟩
    exact ⟨w₁, hP, fun E => (bind_of_ok (hx E) f).trans (hrun E)⟩
  · intro hover E b w'' h
    rw [← hlimit] at hover
    exact hf.stops hover E b w'' (hx.ok_bind h)

/-- A first part that needs room, and the rest from where it ends. -/
theorem Needs.becomes {x : M α} {f : α → M β} {Q : α → World → Prop} {y : M β}
    (hx : Needs t x w m Q) (hlimit : forall a w', Q a w' -> (w'.thread t).limit = (w.thread t).limit)
    (hf : forall a w', Q a w' -> Becomes t (f a) w' n P y) : Becomes t (x >>= f) w (max m n) P y := by
  constructor
  · intro hfits
    rcases hx.returns (Nat.le_trans (Nat.le_max_left m n) hfits) with ⟨a, w₁, hrun, hQ⟩
    have hrest : n ≤ (w₁.thread t).limit := by
      rw [hlimit a w₁ hQ]
      exact Nat.le_trans (Nat.le_max_right _ _) hfits
    rcases (hf a w₁ hQ).reaches hrest with ⟨w₂, hP, hgoes⟩
    exact ⟨w₂, hP, fun E => (bind_of_ok (hrun E) f).trans (hgoes E)⟩
  · intro hover E b w'' h
    rcases ok_bind h with ⟨a, w₁, hfirst, hrest⟩
    by_cases hfits : m ≤ (w.thread t).limit
    · rcases hx.returns hfits with ⟨a', w₁', hrun, hQ⟩
      rcases hrun.ok_eq hfirst with ⟨rfl, rfl⟩
      refine (hf _ _ hQ).stops ?_ E b w'' hrest
      rw [hlimit _ _ hQ]
      omega
    · exact hx.stops (Nat.lt_of_not_le hfits) E a w₁ hfirst

/-- Where the computation that it goes on as returns, what is needed is the room. -/
theorem Becomes.needs {x y : M α} {Q : α → World → Prop} (h : Becomes t x w m P y)
    (hy : forall w₁, P w₁ -> exists a w', Returns y w₁ a w' ∧ Q a w') : Needs t x w m Q := by
  refine ⟨fun hfits => ?_, h.stops⟩
  rcases h.reaches hfits with ⟨w₁, hP, hrun⟩
  rcases hy w₁ hP with ⟨a, w', hreturns, hQ⟩
  exact ⟨a, w', fun E => (hrun E).trans (hreturns E), hQ⟩

theorem Becomes.of_eq {x : M α} {y : M α} (h : Becomes t x w m P y) (heq : m = n) :
    Becomes t x w n P y :=
  heq ▸ h

theorem Becomes.imp {x : M α} {y : M α} {R : World → Prop} (h : Becomes t x w m P y)
    (hPR : forall w₁, P w₁ -> R w₁) : Becomes t x w m R y := by
  refine ⟨fun hfits => ?_, h.stops⟩
  rcases h.reaches hfits with ⟨w₁, hP, hrun⟩
  exact ⟨w₁, hPR w₁ hP, hrun⟩

theorem becomes_of_eq {x y : M α} (hP : P w') (h : forall E, x E w = y E w')
    (hfits : m ≤ (w.thread t).limit) : Becomes t x w m P y :=
  ⟨fun _ => ⟨w', hP, h⟩, fun hover => absurd hfits (Nat.not_le_of_gt hover)⟩

end Becomes

end Machine

namespace Interface

open Machine World

variable {t : ThreadId} {w w' : World} {idx : Int} {v : Value} {i : TableId}

theorem returns_absIndex (w : World) (t : ThreadId) (idx : Int) :
    Returns (Interface.absIndex t idx) w ((w.thread t).absolute idx) w := by
  unfold Interface.absIndex Machine.absIndex Thread.absolute
  by_cases hkept : idx > 0 ∨ idx ≤ registryIndex
  · rw [if_pos hkept, if_pos (by rw [Bool.or_eq_true, decide_eq_true_eq, decide_eq_true_eq]; exact hkept)]
    exact Returns.pure _ w
  · rw [if_neg hkept, if_neg (by rw [Bool.or_eq_true, decide_eq_true_eq, decide_eq_true_eq]; exact hkept)]
    exact Returns.bind (returns_height w t) (Returns.pure _ w)

theorem returns_value_denoted (h : w.Denotes t idx v) : Returns (value t idx) w v w := by
  have hread := returns_value_at w t idx
  rw [h.valueAt_eq] at hread
  exact hread

/-!
# Reading a field
-/

/-- The field of the value that an index denotes is looked up with the name on the
stack, which then gives way to what was found. -/
theorem becomes_getField (hv : w.Denotes t idx v) (hlive : w.liveThread t = true)
    (hbased : (w.thread t).base ≤ (w.thread t).top) (name : String) :
    Becomes t (getField t idx name) w ((w.thread t).top + 1) (Loaded t w [.ofText name]) (do
      let r ← index t v (.ofText name)
      setSlot t (w.thread t).top r
      return r.kind) := by
  refine Becomes.after (returns_checkIndex hv.valid) rfl ?_
  refine Becomes.after (returns_absIndex w t idx) rfl ?_
  refine ((needs_pushNew hlive (.ofText name)).becomes (fun _ _ hloaded => hloaded.raised.limit_eq)
    (n := (w.thread t).top + 1) fun _ w₁ hloaded => ?_).of_eq (Nat.max_self _)
  have htop : (w₁.thread t).top = (w.thread t).top + 1 := hloaded.raised.top_eq
  have hsame : w₁.Denotes t ((w.thread t).absolute idx) v := by
    exact hv.absolute hloaded.atop hbased fun i hplace => hv.slot_lt hplace
  have htops : Returns (Machine.top t) w₁ (w₁.thread t).top w₁ := fun _ => rfl
  have hkey : Returns (slot t ((w₁.thread t).top - 1)) w₁ (.ofText name) w₁ := by
    rw [htop, ← hloaded.raised.slot_eq 0 (.ofText name) rfl]
    exact fun _ => rfl
  refine becomes_of_eq hloaded (fun E => ?_) ?_
  · refine (bind_of_ok (returns_value_denoted hsame E) _).trans ?_
    refine (bind_of_ok (htops E) _).trans ((bind_of_ok (hkey E) _).trans ?_)
    rw [htop, Nat.add_sub_cancel]
  · rw [← htop]
    exact hloaded.raised.fits

/-!
# Writing a field
-/

/-- The value on top is written to the field of the value that an index denotes, with
the name under it on the stack, and both are removed. -/
theorem becomes_setField (hv : w.Denotes t idx v) (hlive : w.liveThread t = true)
    (hone : (w.thread t).base + 1 ≤ (w.thread t).top)
    (hplace : w.placeOf (w.thread t) idx ≠ .slot ((w.thread t).top - 1)) (name : String) :
    Becomes t (setField t idx name) w ((w.thread t).top + 1)
      (Loaded t (w.lowered t) [.ofText name, (w.thread t).slot ((w.thread t).top - 1)]) (do
        assign t v (.ofText name) ((w.thread t).slot ((w.thread t).top - 1))
        drop t 2) := by
  refine Becomes.after (returns_checkIndex hv.valid) rfl ?_
  refine Becomes.after (returns_absIndex w t idx) rfl ?_
  refine ((needs_pushNew hlive (.ofText name)).becomes (fun _ _ hloaded => hloaded.raised.limit_eq)
    (n := (w.thread t).top + 1) fun _ w₁ hloaded => ?_).of_eq (Nat.max_self _)
  have hraised := hloaded.raised
  have htop : (w₁.thread t).top = (w.thread t).top + 1 := hraised.top_eq
  have hbase : (w₁.thread t).base = (w.thread t).base := hraised.below.base_eq
  have hlive₁ := hloaded.live hlive
  refine Becomes.after (returns_insert (w := w₁) (t := t) (by omega)) ?_ ?_
  · rw [thread_setThread hlive₁]
    exact Thread.limit_congr (Thread.room_swapTop _)
  -- the name comes to lie under the value, as if both had been pushed on a stack without the value
  have hswapped : Loaded t (w.lowered t)
      [.ofText name, (w.thread t).slot ((w.thread t).top - 1)]
      (w₁.setThread t (w₁.thread t).swapTop) := by
    have hraised' : ((w.lowered t).thread t).Raised
        [.ofText name, (w.thread t).slot ((w.thread t).top - 1)] (w₁.thread t).swapTop := by
      unfold lowered
      rw [thread_setThread hlive]
      exact hraised.swapped hone
    have hlowered := Loaded.ofRaised ((liveThread_setThread w t t _).trans hlive) hraised'
    unfold lowered at hlowered ⊢
    rw [setThread_setThread] at hlowered
    rw [hloaded.setThread_eq]
    exact hlowered
  generalize w₁.setThread t (w₁.thread t).swapTop = w₂ at hswapped
  have hlow : ((w.lowered t).thread t).top = (w.thread t).top - 1 := by
    unfold lowered
    rw [thread_setThread hlive]
    rfl
  have htop₂ : (w₂.thread t).top = (w.thread t).top + 1 := by
    rw [hswapped.raised.top_eq, hlow, List.length_cons, List.length_singleton]
    omega
  -- the index still denotes the value, since its slot is below both
  have hsame : w₂.Denotes t ((w.thread t).absolute idx) v := by
    refine hv.absolute (hswapped.atop_lowered hlive (by omega)) (Nat.le_sub_one_of_lt hone) ?_
    intro i hi
    have hlt := hv.slot_lt hi
    have hne : i ≠ (w.thread t).top - 1 := by
      rintro rfl
      exact hplace hi
    omega
  have htops : Returns (Machine.top t) w₂ (w₂.thread t).top w₂ := fun _ => rfl
  have hkey : Returns (slot t ((w₂.thread t).top - 2)) w₂ (.ofText name) w₂ := by
    have hslot := hswapped.raised.slot_eq 0 _ rfl
    rw [hlow] at hslot
    rw [htop₂, ← hslot, show (w.thread t).top + 1 - 2 = (w.thread t).top - 1 + 0 by omega]
    exact fun _ => rfl
  have hvalue : Returns (slot t ((w₂.thread t).top - 1)) w₂
      ((w.thread t).slot ((w.thread t).top - 1)) w₂ := by
    have hslot := hswapped.raised.slot_eq 1 _ rfl
    rw [hlow] at hslot
    rw [htop₂, show (w.thread t).top + 1 - 1 = (w.thread t).top - 1 + 1 by omega]
    exact fun _ => congrArg (fun x => EStateM.Result.ok x w₂) hslot
  refine becomes_of_eq hswapped (fun E => ?_) ?_
  · refine (bind_of_ok (returns_value_denoted hsame E) _).trans ?_
    refine (bind_of_ok (htops E) _).trans ?_
    exact (bind_of_ok (hkey E) _).trans (bind_of_ok (hvalue E) _)
  · rw [← htop₂]
    exact hswapped.raised.fits

/-!
# Writing a host function to a field
-/

/-- The native function that stands for a host function. -/
def standIn (f : HostFn) : Closure := .native .trampoline #[.light f.address]

theorem returns_newClosure (w : World) (c : Closure) :
    Returns (newClosure c) w w.nextClosure (w.withClosure c) :=
  fun _ => rfl

/-- A host function on top of a stack; its address is there on the way. -/
theorem needs_pushFunction (hlive : w.liveThread t = true) (f : HostFn) :
    Needs t (pushFunction t f) w ((w.thread t).top + 2) fun _ w' =>
      Loaded t (w.withClosure (standIn f)) [.closure w.nextClosure] w' := by
  refine ((needs_pushNew hlive (.light f.address)).bind (fun _ _ hloaded => hloaded.raised.limit_eq)
    (n := (w.thread t).top + 2) fun _ w₁ haddress => ?_).of_eq (by omega)
  have hlive₁ := haddress.live hlive
  have htop : (w₁.thread t).top = (w.thread t).top + 1 := haddress.raised.top_eq
  refine ((needs_reserve hlive₁ (n := 1) (by decide)).bind
    (fun _ _ hloaded => hloaded.raised.limit_eq) (n := (w.thread t).top + 1)
    fun _ w₂ hreserved => ?_).of_eq (by omega)
  have haddress₂ : Loaded t w [.light f.address] w₂ := haddress.trans hreserved
  have htop₂ : (w₂.thread t).top = (w.thread t).top + 1 := haddress₂.raised.top_eq
  have hfits : (w.thread t).top + 1 ≤ (w₂.thread t).limit := htop₂ ▸ haddress₂.raised.fits
  have hupvalues : (w₂.thread t).slots ((w₂.thread t).top - 1) 1 = [.light f.address] := by
    have hslot := haddress₂.raised.slot_eq 0 _ rfl
    rw [htop₂]
    exact congrArg (fun x => [x]) hslot
  -- the address gives way to the closure that holds it
  have hdropped := haddress₂.drop [] [.light f.address] hlive
  have hdrop := returns_drop w₂ t 1
  generalize hw₃ : w₂.setThread t ((w₂.thread t).drop 1) = w₃ at hdrop
  have hdropped₃ : Loaded t w [] w₃ := hw₃ ▸ hdropped
  have hlimit₃ : (w₃.thread t).limit = (w₂.thread t).limit :=
    hdropped₃.raised.limit_eq.trans haddress₂.raised.limit_eq.symm
  have htop₃ : (w₃.thread t).top = (w.thread t).top := hdropped₃.raised.top_eq
  have hnext : w₃.nextClosure = w.nextClosure := by
    rw [hdropped₃.rest_eq]
    rfl
  have hmake := returns_newClosure w₃ (standIn f)
  rw [hnext] at hmake
  rcases returns_push_loaded (w := w₃.withClosure (standIn f)) (hdropped₃.live hlive)
    (.closure w.nextClosure) (by
      show (w₃.thread t).top + 1 ≤ (w₃.thread t).limit
      rw [htop₃, hlimit₃]
      exact hfits) with ⟨w₄, hpush, hpushed⟩
  rw [if_neg (by decide)]
  refine needs_of_returns (a := ()) (Returns.bind (returns_thread w₂ t) ?_) hfits
    ((hdropped₃.withClosure (standIn f)).trans hpushed)
  dsimp only
  rw [hupvalues]
  exact Returns.bind hdrop (Returns.bind hmake hpush)

/-- A host function is written to the field of the value that an index denotes, and
the stack is left without it. -/
theorem becomes_setFunction (hv : w.Denotes t idx v) (hlive : w.liveThread t = true)
    (hbased : (w.thread t).base ≤ (w.thread t).top) (name : String) (f : HostFn) :
    Becomes t (setFunction t idx name f) w ((w.thread t).top + 2)
      (Loaded t (w.withClosure (standIn f)) [.ofText name, .closure w.nextClosure]) (do
        assign t v (.ofText name) (.closure w.nextClosure)
        drop t 2) := by
  refine Becomes.after (returns_absIndex w t idx) rfl ?_
  refine ((needs_pushFunction hlive f).becomes (fun _ _ hloaded => hloaded.raised.limit_eq)
    (n := (w.thread t).top + 2) fun _ w₁ hloaded => ?_).of_eq (Nat.max_self _)
  have hraised := hloaded.raised
  have htop : (w₁.thread t).top = (w.thread t).top + 1 := hraised.top_eq
  have hbase : (w₁.thread t).base = (w.thread t).base := hraised.below.base_eq
  have hatop : Atop t (w.thread t).top w w₁ :=
    (atop_withClosure w t (standIn f)).trans hloaded.atop (Nat.le_refl _)
  have hsame : w₁.Denotes t ((w.thread t).absolute idx) v :=
    hv.absolute hatop hbased fun i hplace => hv.slot_lt hplace
  have hplace : w₁.placeOf (w₁.thread t) ((w.thread t).absolute idx) ≠
      .slot ((w₁.thread t).top - 1) := by
    rw [hv.placeOf_absolute hatop hbased, htop, Nat.add_sub_cancel]
    exact fun hplace => Nat.lt_irrefl _ (hv.slot_lt hplace)
  have hfunction : (w₁.thread t).slot ((w₁.thread t).top - 1) = .closure w.nextClosure := by
    rw [htop]
    exact hraised.slot_eq 0 _ rfl
  have hset := becomes_setField hsame (hloaded.live hlive) (by omega) hplace name
  rw [hfunction] at hset
  refine (hset.imp fun w₂ hpushed => ?_).of_eq (by omega)
  have hdropped := Loaded.drop (w := w.withClosure (standIn f)) [] [_] hlive hloaded
  exact hdropped.trans hpushed

/-!
# Tables without handlers
-/

theorem needs_getField_found (hv : w.Denotes t idx v) (hlive : w.liveThread t = true)
    (hbased : (w.thread t).base ≤ (w.thread t).top) {name : String} {r : Value}
    (hfound : forall w₁, Loaded t w [.ofText name] w₁ ->
      Returns (index t v (.ofText name)) w₁ r w₁) :
    Needs t (getField t idx name) w ((w.thread t).top + 1) fun k w' =>
      k = r.kind ∧ Loaded t w [r] w' := by
  refine (becomes_getField hv hlive hbased name).needs fun w₁ hloaded => ?_
  have htop : (w₁.thread t).top = (w.thread t).top + 1 := hloaded.raised.top_eq
  have hset := returns_modifyThread w₁ t (·.setSlot (w.thread t).top r)
  refine ⟨_, _, Returns.bind (hfound w₁ hloaded) (Returns.bind hset (Returns.pure _ _)), rfl, ?_⟩
  have hreplaced := hloaded.raised.replaced [] r
  rw [htop, Nat.add_sub_cancel] at hreplaced
  rw [hloaded.setThread_eq]
  exact Loaded.ofRaised hlive hreplaced

theorem needs_getField_plain (hv : w.Denotes t idx (.table i)) (hlive : w.liveThread t = true)
    (hbased : (w.thread t).base ≤ (w.thread t).top)
    (hplain : (w.heap.tables.get i.index).metatable = none) (name : String) :
    Needs t (getField t idx name) w ((w.thread t).top + 1) fun k w' =>
      k = ((w.heap.tables.get i.index).get (.ofText name)).kind ∧
        Loaded t w [(w.heap.tables.get i.index).get (.ofText name)] w' := by
  refine needs_getField_found hv hlive hbased fun w₁ hloaded => ?_
  rw [← hloaded.heap_tables] at hplain ⊢
  exact returns_index_plain hplain t (.ofText name)

theorem returns_assign_top {w₀ : World} {k x : Value} (hlive : w₀.liveThread t = true)
    (hloaded : Loaded t w₀ [k, x] w)
    (hplain : (w₀.heap.tables.get i.index).metatable = none) (hk : Indexes k) :
    exists w', Returns (do assign t (.table i) k x; drop t 2) w () w' ∧
      Loaded t (w₀.withTables (w₀.heap.tables.modify i.index (·.set k x))
        w₀.collector.allocated) [] w' := by
  have hassign := returns_assign_plain (w := w) (m := i) (by rw [hloaded.heap_tables]; exact hplain)
    t hk x
  rw [hloaded.heap_tables, hloaded.collector_eq] at hassign
  let s := w₀.heap.tables.modify i.index (·.set k x)
  rcases returns_drop_loaded (w := w₀.withTables s w₀.collector.allocated) [] [k, x] hlive
    (hloaded.withTables s w₀.collector.allocated) with ⟨w', hdrop, hdropped⟩
  exact ⟨w', Returns.bind hassign hdrop, hdropped⟩

theorem indexes_ofText (name : String) : Indexes (.ofText name) := ⟨nofun, nofun⟩

theorem needs_setField_plain (hv : w.Denotes t idx (.table i)) (hlive : w.liveThread t = true)
    (hone : (w.thread t).base + 1 ≤ (w.thread t).top)
    (hplace : w.placeOf (w.thread t) idx ≠ .slot ((w.thread t).top - 1))
    (hplain : (w.heap.tables.get i.index).metatable = none) (name : String) :
    Needs t (setField t idx name) w ((w.thread t).top + 1) fun _ w' =>
      Loaded t ((w.lowered t).withTables (w.heap.tables.modify i.index
        (·.set (.ofText name) ((w.thread t).slot ((w.thread t).top - 1))))
        w.collector.allocated) [] w' := by
  refine (becomes_setField hv hlive hone hplace name).needs fun w₁ hloaded => ?_
  have hlowered : (w.lowered t).liveThread t = true := (liveThread_setThread w t t _).trans hlive
  rcases returns_assign_top hlowered hloaded hplain (indexes_ofText name) with ⟨w', hrun, hwritten⟩
  exact ⟨(), w', hrun, hwritten⟩

theorem needs_setFunction_plain (hv : w.Denotes t idx (.table i)) (hlive : w.liveThread t = true)
    (hbased : (w.thread t).base ≤ (w.thread t).top)
    (hplain : (w.heap.tables.get i.index).metatable = none) (name : String) (f : HostFn) :
    Needs t (setFunction t idx name f) w ((w.thread t).top + 2) fun _ w' =>
      Loaded t ((w.withClosure (standIn f)).withTables (w.heap.tables.modify i.index
        (·.set (.ofText name) (.closure w.nextClosure)))
        (w.collector.allocated + 1)) [] w' := by
  refine (becomes_setFunction hv hlive hbased name f).needs fun w₁ hloaded => ?_
  have hlive' : (w.withClosure (standIn f)).liveThread t = true := hlive
  rcases returns_assign_top hlive' hloaded hplain (indexes_ofText name) with ⟨w', hrun, hwritten⟩
  exact ⟨(), w', hrun, hwritten⟩

/-!
# The three operations
-/

/-- The index names the place of the value that is to be written, and removed. -/
def NamesTop (w : World) (t : ThreadId) (idx : Int) : Prop :=
  w.placeOf (w.thread t) idx = .slot ((w.thread t).top - 1)

instance (w : World) (t : ThreadId) (idx : Int) : Decidable (NamesTop w t idx) :=
  inferInstanceAs (Decidable (_ = _))

/-- What the operations on a field of `v` do, if they are given an index that denotes
`v`. -/
structure Resolves (w : World) (t : ThreadId) (idx : Int) (v : Value) (name : String) : Prop where
  get : Becomes t (getField t idx name) w ((w.thread t).top + 1) (Loaded t w [.ofText name]) (do
    let r ← index t v (.ofText name)
    setSlot t (w.thread t).top r
    return r.kind)
  set : (w.thread t).base + 1 ≤ (w.thread t).top -> ¬ NamesTop w t idx ->
    Becomes t (setField t idx name) w ((w.thread t).top + 1)
      (Loaded t (w.lowered t) [.ofText name, (w.thread t).slot ((w.thread t).top - 1)]) (do
        assign t v (.ofText name) ((w.thread t).slot ((w.thread t).top - 1))
        drop t 2)
  setFunction : forall f, Becomes t (setFunction t idx name f) w ((w.thread t).top + 2)
    (Loaded t (w.withClosure (standIn f)) [.ofText name, .closure w.nextClosure]) (do
      assign t v (.ofText name) (.closure w.nextClosure)
      drop t 2)

/-- The handlers that are called on the way leave the stack alone: one value more, one
value less, and as many values as before. -/
structure Balanced (w : World) (t : ThreadId) (idx : Int) (name : String) : Prop where
  get : forall {os E k w'}, E.Disciplined os -> getField t idx name E w = .ok k w' ->
    (w'.thread t).top = (w.thread t).top + 1 ∧ Carried os t (w.thread t).top w w'
  set : forall {os E w'}, (w.thread t).base + 1 ≤ (w.thread t).top -> E.Disciplined os ->
    setField t idx name E w = .ok () w' ->
    (w'.thread t).top = (w.thread t).top - 1 ∧ Carried os t ((w.thread t).top - 1) w w'
  setFunction : forall {os E f w'}, E.Disciplined os -> setFunction t idx name f E w = .ok () w' ->
    (w'.thread t).top = (w.thread t).top ∧ Carried os t (w.thread t).top w w'

/-- On a table without handlers nothing else changes. -/
structure Writes (w : World) (t : ThreadId) (idx : Int) (i : TableId) (name : String) : Prop where
  get : Needs t (getField t idx name) w ((w.thread t).top + 1) fun k w' =>
    k = ((w.heap.tables.get i.index).get (.ofText name)).kind ∧
      Loaded t w [(w.heap.tables.get i.index).get (.ofText name)] w'
  set : (w.thread t).base + 1 ≤ (w.thread t).top -> ¬ NamesTop w t idx ->
    Needs t (setField t idx name) w ((w.thread t).top + 1) fun _ w' =>
      Loaded t ((w.lowered t).withTables (w.heap.tables.modify i.index
        (·.set (.ofText name) ((w.thread t).slot ((w.thread t).top - 1))))
        w.collector.allocated) [] w'
  setFunction : forall f, Needs t (setFunction t idx name f) w ((w.thread t).top + 2) fun _ w' =>
    Loaded t ((w.withClosure (standIn f)).withTables (w.heap.tables.modify i.index
      (·.set (.ofText name) (.closure w.nextClosure)))
      (w.collector.allocated + 1)) [] w'

theorem balanced_fields (hlive : w.liveThread t = true) (idx : Int) (name : String) :
    Balanced w t idx name := by
  refine ⟨fun hE h => ?_, fun hone hE h => ?_, fun hE h => ?_⟩
  · exact (shifts_getField (j := 0) idx name).run hE hlive rfl h
  · have htop : (w.thread t).top = (w.thread t).top - 1 + (0 + 1) := by omega
    exact (shifts_setField (j := 0) idx name).run hE hlive htop h
  · exact (shifts_setFunction (j := 0) idx name _).run hE hlive rfl h

/-- Field access resolves its index before it pushes. -/
theorem fields_resolved (hv : w.Denotes t idx v) (hlive : w.liveThread t = true)
    (hbased : (w.thread t).base ≤ (w.thread t).top) (name : String) :
    Resolves w t idx v name ∧ Balanced w t idx name ∧
      forall i, v = .table i -> (w.heap.tables.get i.index).metatable = none ->
        Writes w t idx i name := by
  refine ⟨⟨?_, ?_, ?_⟩, balanced_fields hlive idx name, ?_⟩
  · exact becomes_getField hv hlive hbased name
  · exact fun hone hplace => becomes_setField hv hlive hone hplace name
  · exact becomes_setFunction hv hlive hbased name
  · rintro i rfl hplain
    refine ⟨?_, fun hone hplace => ?_, fun f => ?_⟩
    · exact needs_getField_plain hv hlive hbased hplain name
    · exact needs_setField_plain hv hlive hone hplace hplain name
    · exact needs_setFunction_plain hv hlive hbased hplain name f

/-- A new machine with one table in the two topmost slots. -/
def twiceTopped : World := after (do pushTable ⟨0⟩; Interface.pushValue ⟨0⟩ (-1)) freshWorld

/-- An index that counts from the top names the table under the value. -/
theorem fields_resolved_twiceTopped :
    twiceTopped.Denotes ⟨0⟩ (-2) (.table ⟨2⟩) ∧ ¬ NamesTop twiceTopped ⟨0⟩ (-2) ∧
      Resolves twiceTopped ⟨0⟩ (-2) (.table ⟨2⟩) "" ∧ Writes twiceTopped ⟨0⟩ (-2) ⟨2⟩ "" := by
  have hdenotes : twiceTopped.Denotes ⟨0⟩ (-2) (.table ⟨2⟩) :=
    ⟨by decide +kernel, by decide +kernel⟩
  have hresolved := fields_resolved hdenotes (by decide +kernel) (by decide +kernel) ""
  exact ⟨hdenotes, by decide +kernel, hresolved.1, hresolved.2.2 ⟨2⟩ rfl (by decide +kernel)⟩

/-- A table cannot be written to its own field with the index of the slot that it is
written from: the name is moved into that slot first, and a string has no fields. -/
theorem own_slot_taken :
    twiceTopped.Denotes ⟨0⟩ (-1) (.table ⟨2⟩) ∧ NamesTop twiceTopped ⟨0⟩ (-1) ∧
      (twiceTopped.heap.tables.get 2).metatable = none ∧ twiceTopped.Ample ⟨0⟩ 2 ∧
      Outcome.raise? (setField ⟨0⟩ (-1) "self" idle twiceTopped) =
        some (.error ⟨0⟩ .errRun) := by
  have hdenotes : twiceTopped.Denotes ⟨0⟩ (-1) (.table ⟨2⟩) :=
    ⟨by decide +kernel, by decide +kernel⟩
  have hample : twiceTopped.Ample ⟨0⟩ 2 := ⟨by decide +kernel, by decide +kernel, by decide +kernel⟩
  exact ⟨hdenotes, by decide +kernel, by decide +kernel, hample, by decide +kernel⟩

end Interface

end LuaHost
