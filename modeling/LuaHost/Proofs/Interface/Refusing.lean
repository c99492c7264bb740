import LuaHost.Handle.Owned
import LuaHost.Proofs.Interface.Resolving

/-!
# Indices that are refused

An index that counts from the top means another slot once something was pushed, so an
operation has to check it before it does anything else.  All of them do, except the one
that writes a host function to a field: it pushes the function first, and only then is
the index checked, by which time it may name a slot that is there.
-/

namespace LuaHost

namespace Machine

/-!
# Computations that only panic
-/

/-- A computation that ends with a panic before it has changed anything. -/
def Refuses {α : Type} (x : M α) (w : World) (message : String) : Prop :=
  forall E, x E w = .error (.panic (.text message)) w

section Refuses

variable {α β : Type} {x : M α} {w : World} {message : String}

theorem Refuses.bind (h : Refuses x w message) (f : α → M β) : Refuses (x >>= f) w message :=
  fun E => bind_of_error (h E) f

/-- What went before has only looked. -/
theorem Returns.refuses {a : α} {f : α → M β} (hx : Returns x w a w)
    (hf : Refuses (f a) w message) : Refuses (x >>= f) w message :=
  fun E => (bind_of_ok (hx E) f).trans (hf E)

end Refuses

end Machine

namespace Interface

open Machine World

variable {t : ThreadId} {w : World} {n : Nat} {idx : Int}

/-!
# The check
-/

/-- An index that names nothing on a stack with `n` values: zero, or one that counts from
the top to below the bottom. -/
def OffStack (n : Nat) (idx : Int) : Prop :=
  idx = 0 ∨ (registryIndex < idx ∧ idx < 0 ∧ (n : Int) < -idx)

instance (n : Nat) (idx : Int) : Decidable (OffStack n idx) :=
  inferInstanceAs (Decidable (_ ∨ _))

theorem validIndex_eq_false_iff : validIndex n idx = false ↔ OffStack n idx := by
  have hnegative : registryIndex < 0 := by decide
  rw [← Bool.not_eq_true, validIndex_iff]
  unfold OffStack
  omega

theorem refuses_checkIndex (h : OffStack (w.thread t).height idx) :
    Refuses (checkIndex t idx) w (indexComplaint (w.thread t).height idx) := by
  refine Returns.refuses (returns_height w t) ?_
  rw [validIndex_eq_false_iff.mpr h]
  exact fun _ => rfl

/-!
# Operations that check first
-/

/-- Operations on the value at an index, or on its place, with their other operands. -/
inductive Access where
  | pushValue
  | insert
  | rotate (n : Int)
  | copyFrom (dst : Int)
  | copyTo (src : Int)
  | replace
  | remove
  | getField (name : String)
  | setField (name : String)
  | getInt (n : Int64)
  | setInt (n : Int64)
  | getTable
  | setTable
  | rawGet
  | rawSet
  | rawGetInt (n : Int64)
  | rawSetInt (n : Int64)
  | next
  | getMetatable
  | setMetatable
  | getUserValue (n : Int)
  | setUserValue (n : Int)
  | testUserData (name : String)
  | len
  | toValue
  | toManualValue
  | toHost
  | copyTable

namespace Access

/-- The operation itself; what it answers does not matter here. -/
def perform (t : ThreadId) (idx : Int) : Access → M Unit
  | .pushValue => Interface.pushValue t idx
  | .insert => Interface.insert t idx
  | .rotate n => Interface.rotate t idx n
  | .copyFrom dst => copy t idx dst
  | .copyTo src => copy t src idx
  | .replace => Interface.replace t idx
  | .remove => Interface.remove t idx
  | .getField name => do let _ ← Interface.getField t idx name
  | .setField name => Interface.setField t idx name
  | .getInt n => do let _ ← Interface.getInt t idx n
  | .setInt n => Interface.setInt t idx n
  | .getTable => do let _ ← Interface.getTable t idx
  | .setTable => Interface.setTable t idx
  | .rawGet => do let _ ← Interface.rawGet t idx
  | .rawSet => Interface.rawSet t idx
  | .rawGetInt n => do let _ ← Interface.rawGetInt t idx n
  | .rawSetInt n => Interface.rawSetInt t idx n
  | .next => do let _ ← Interface.next t idx
  | .getMetatable => do let _ ← Interface.getMetatable t idx
  | .setMetatable => Interface.setMetatable t idx
  | .getUserValue n => do let _ ← Interface.getUserValue t idx n
  | .setUserValue n => do let _ ← Interface.setUserValue t idx n
  | .testUserData name => do let _ ← Interface.testUserData t idx name
  | .len => Interface.len t idx
  | .toValue => do let _ ← OwnedValue.fromIndex t idx
  | .toManualValue => do let _ ← ManualValue.fromIndex t idx
  | .toHost => do let _ ← Interface.toHost t idx
  | .copyTable => do let _ ← Interface.copyTable t idx

/-- The other index is one that the host may use. -/
def Admits (n : Nat) : Access → Prop
  | .copyTo src => validIndex n src = true
  | _ => True

end Access

/-- An operation that is given an index off the stack says so, and has done nothing. -/
theorem refuses_perform (h : OffStack (w.thread t).height idx) (op : Access)
    (hop : op.Admits (w.thread t).height) :
    Refuses (op.perform t idx) w (indexComplaint (w.thread t).height idx) := by
  have hcheck := refuses_checkIndex h
  cases op with
  | copyTo src => exact Returns.refuses (returns_checkIndex hop) (hcheck.bind _)
  | pushValue | insert | rotate | copyFrom | replace | setField | setInt | setTable | rawSet
  | rawSetInt | setMetatable | len => exact hcheck.bind _
  | remove | getField | getInt | getTable | rawGet | rawGetInt | next | getMetatable
  | getUserValue | setUserValue | testUserData | toHost => exact (hcheck.bind _).bind _
  -- these ask for the type first
  | toManualValue | copyTable => exact ((hcheck.bind _).bind _).bind _
  | toValue => exact (((hcheck.bind _).bind _).bind _).bind _

/-!
# The operation that pushes first
-/

theorem setField_absolute (h : validIndex (w.thread t).height idx = true) (name : String)
    (E : Engine) :
    setField t idx name E w = setField t ((w.thread t).absolute idx) name E w := by
  have hvalid := validIndex_iff.mp h
  have hkept : validIndex (w.thread t).height ((w.thread t).absolute idx) = true ∧
      (w.thread t).absolute ((w.thread t).absolute idx) = (w.thread t).absolute idx := by
    unfold Thread.absolute
    by_cases hsame : idx > 0 ∨ idx ≤ registryIndex
    · rw [if_pos hsame, if_pos hsame]
      exact ⟨h, rfl⟩
    · rw [if_neg hsame, if_pos (Or.inl (by omega))]
      exact ⟨validIndex_iff.mpr (by omega), rfl⟩
  refine (bind_of_ok (returns_checkIndex h E) _).trans ?_
  refine (bind_of_ok (returns_absIndex w t idx E) _).trans ?_
  refine Eq.trans ?_ (bind_of_ok (returns_checkIndex hkept.1 E) _).symm
  refine Eq.trans ?_ (bind_of_ok (returns_absIndex w t _ E) _).symm
  rw [hkept.2]

/-- What is done after a host function was pushed is done on a stack that is higher by
one. -/
theorem pushFunction_congr (hlive : w.liveThread t = true)
    (hbased : (w.thread t).base ≤ (w.thread t).top) (f : HostFn) {x y : M Unit} {E : Engine}
    (h : forall w', (w'.thread t).height = (w.thread t).height + 1 -> x E w' = y E w') :
    (do pushFunction t f; x) E w = (do pushFunction t f; y) E w := by
  cases hpush : pushFunction t f E w with
  | error r w' => exact (bind_of_error hpush _).trans (bind_of_error hpush _).symm
  | ok a w' =>
      have hraised := ((needs_pushFunction hlive f).of_ok hpush).raised
      have htop : (w'.thread t).top = (w.thread t).top + 1 := hraised.top_eq
      have hbase : (w'.thread t).base = (w.thread t).base := hraised.below.base_eq
      have hheight : (w'.thread t).height = (w.thread t).height + 1 := by
        show (w'.thread t).top - (w'.thread t).base = (w.thread t).top - (w.thread t).base + 1
        omega
      refine (bind_of_ok hpush fun _ => x).trans ?_
      exact (h w' hheight).trans (bind_of_ok hpush fun _ => y).symm

/-- An index that counts from the top is shifted before anything is pushed. -/
theorem setFunction_counted (hidx : idx ≤ 0) (hstack : registryIndex < idx) (name : String)
    (f : HostFn) (E : Engine) :
    setFunction t idx name f E w =
      (do pushFunction t f; setField t ((w.thread t).height + 1 + idx) name) E w := by
  refine (bind_of_ok (returns_absIndex w t idx E) _).trans ?_
  unfold Thread.absolute
  rw [if_neg (by omega)]

/-- What writing a host function to a field comes to with an index off the stack. -/
structure Misplaces (w : World) (t : ThreadId) (idx : Int) (name : String) (f : HostFn) :
    Prop where
  /-- The field of another slot is written. -/
  redirected : -(2 * (w.thread t).height + 2) ≤ idx -> idx < -((w.thread t).height + 2) ->
    validIndex (w.thread t).height ((w.thread t).height + 2 + idx) = true ∧
      forall E, setFunction t idx name f E w =
        setFunction t ((w.thread t).height + 2 + idx) name f E w
  /-- The function is what the field is written to. -/
  own : idx = 0 ∨ idx = -((w.thread t).height + 2) -> forall E,
    setFunction t idx name f E w = (do pushFunction t f; setField t (-1) name) E w
  /-- The function is left on the stack, and another index is complained about. -/
  late : idx = -((w.thread t).height + 1) ∨ idx < -(2 * (w.thread t).height + 2) -> forall E,
    setFunction t idx name f E w = (do
      pushFunction t f
      abort (indexComplaint ((w.thread t).height + 1) ((w.thread t).height + 1 + idx))) E w

theorem misplaces_setFunction (h : OffStack (w.thread t).height idx)
    (hlive : w.liveThread t = true) (hbased : (w.thread t).base ≤ (w.thread t).top)
    (name : String) (f : HostFn) : Misplaces w t idx name f := by
  have hregistry : registryIndex < -1 := by decide
  have hidx : idx ≤ 0 ∧ registryIndex < idx := by
    unfold OffStack at h
    omega
  -- the function is pushed before the index is looked at, on a stack that is then higher by one
  constructor
  · intro hlow hhigh
    refine ⟨validIndex_iff.mpr (by omega), fun E => ?_⟩
    rw [setFunction_counted hidx.1 hidx.2, setFunction_counted (by omega) (by omega)]
    refine pushFunction_congr hlive hbased f fun w' hheight => ?_
    have hvalid : validIndex (w'.thread t).height ((w.thread t).height + 1 + idx) = true :=
      validIndex_iff.mpr (by omega)
    rw [setField_absolute hvalid]
    unfold Thread.absolute
    rw [if_neg (by omega), hheight]
    congr 1
    omega
  · intro hown E
    rw [setFunction_counted hidx.1 hidx.2]
    refine pushFunction_congr hlive hbased f fun w' hheight => ?_
    rcases hown with rfl | rfl
    · have hvalid : validIndex (w'.thread t).height (-1) = true := validIndex_iff.mpr (by omega)
      rw [setField_absolute hvalid]
      unfold Thread.absolute
      rw [if_neg (by omega), hheight]
      congr 1
      omega
    · congr 1
      omega
  · intro hlate E
    rw [setFunction_counted hidx.1 hidx.2]
    refine pushFunction_congr hlive hbased f fun w' hheight => ?_
    have hoff : OffStack (w'.thread t).height ((w.thread t).height + 1 + idx) := by
      unfold OffStack at h ⊢
      omega
    have hrefused := refuses_perform hoff (.setField name) trivial E
    rw [hheight] at hrefused
    exact hrefused

/-!
# An index off the stack
-/

/-- Operations that check an index before they push refuse one off the stack; the one that
writes a host function goes on with another index. -/
theorem indices_refused (h : OffStack (w.thread t).height idx) :
    (forall op : Access, op.Admits (w.thread t).height ->
      Refuses (op.perform t idx) w (indexComplaint (w.thread t).height idx)) ∧
    (w.liveThread t = true -> (w.thread t).base ≤ (w.thread t).top ->
      forall name f, Misplaces w t idx name f) :=
  ⟨refuses_perform h, misplaces_setFunction h⟩

/-- A new machine with a table on the stack. -/
def tableTopped : World := after (pushTable ⟨0⟩) freshWorld

theorem indices_refused_tableTopped :
    OffStack (tableTopped.thread ⟨0⟩).height (-4) ∧
      (Access.copyTo 1).Admits (tableTopped.thread ⟨0⟩).height ∧
      Refuses ((Access.copyTo 1).perform ⟨0⟩ (-4)) tableTopped
        (indexComplaint (tableTopped.thread ⟨0⟩).height (-4)) ∧
      Misplaces tableTopped ⟨0⟩ (-4) "add" ⟨0⟩ := by
  have hoff : OffStack (tableTopped.thread ⟨0⟩).height (-4) := by decide +kernel
  have hadmits : (Access.copyTo 1).Admits (tableTopped.thread ⟨0⟩).height :=
    show validIndex _ 1 = true by decide +kernel
  have hrefused := indices_refused hoff
  exact ⟨hoff, hadmits, hrefused.1 _ hadmits,
    hrefused.2 (by decide +kernel) (by decide +kernel) "add" ⟨0⟩⟩

/-- With an index below the bottom a host function is written to the table that is on the
stack. -/
theorem function_misplaced :
    OffStack (tableTopped.thread ⟨0⟩).height (-4) ∧
      ¬ Refuses (setFunction ⟨0⟩ (-4) "add" ⟨0⟩) tableTopped
        (indexComplaint (tableTopped.thread ⟨0⟩).height (-4)) ∧
      answer? (setFunction ⟨0⟩ (-4) "add" ⟨0⟩) tableTopped = some () ∧
      (tableTopped.heap.tables.get 2).get (.ofText "add") = .nil ∧
      ((after (setFunction ⟨0⟩ (-4) "add" ⟨0⟩) tableTopped).heap.tables.get 2).get
        (.ofText "add") = .closure tableTopped.nextClosure := by
  have hanswer : answer? (setFunction ⟨0⟩ (-4) "add" ⟨0⟩) tableTopped = some () := by
    decide +kernel
  refine ⟨by decide +kernel, fun hrefuses => ?_, hanswer, by decide +kernel, by decide +kernel⟩
  cases (hrefuses idle).symm.trans (ok_after hanswer)

end Interface

end LuaHost
