import LuaHost.Handle.Typed
import LuaHost.Machine.Engine
import LuaHost.Proofs.Interface.Assembling
import LuaHost.Proofs.Interface.Disassembling
import LuaHost.Stock.Host

/-!
# Stack discipline

The operations that are put together from several others leave a stack as they
found it, add one value or remove one, whatever the stack holds and however the
operation ends normally.  What they call on the way has to leave alone what lies
below it: the handlers of a table may do anything else.
-/

namespace LuaHost

open Interface Machine

variable {os : List ThreadId} {t : ThreadId} {j : Nat} {α σ : Type}

/-!
# Handles
-/

theorem ManualRef.shifts_popFrom : Shifts os t (ManualRef.popFrom t) (j + 1) fun _ => j :=
  shifts_registryRef.bind fun _ => Shifts.pure _

theorem ManualRef.shifts_fromIndex (idx : Int) :
    Shifts os t (ManualRef.fromIndex t idx) j fun _ => j :=
  (shifts_pushValue idx).bind fun _ => ManualRef.shifts_popFrom

theorem ManualRef.shifts_copy (r : ManualRef) : Shifts os r.thread r.copy j fun _ => j :=
  (shifts_pushRef r.id).bind fun _ => ManualRef.shifts_popFrom

theorem OwnedRef.shifts_adopt (id : RefId) : Shifts os t (OwnedRef.adopt t id) j fun _ => j :=
  shifts_shareFlag.bind fun _ => Shifts.pure _

theorem OwnedRef.shifts_popFrom : Shifts os t (OwnedRef.popFrom t) (j + 1) fun _ => j :=
  shifts_registryRef.bind fun id => OwnedRef.shifts_adopt id

theorem OwnedRef.shifts_fromIndex (idx : Int) :
    Shifts os t (OwnedRef.fromIndex t idx) j fun _ => j :=
  (shifts_pushValue idx).bind fun _ => OwnedRef.shifts_popFrom

theorem OwnedRef.shifts_copy (r : OwnedRef) : Shifts os r.thread r.copy j fun _ => j :=
  (shifts_pushRef r.id).bind fun _ => OwnedRef.shifts_popFrom

theorem OwnedRef.shifts_typeOf (r : OwnedRef) : Shifts os r.thread r.typeOf j fun _ => j :=
  (shifts_pushRef r.id).bind fun _ => (shifts_pop 1).bind fun _ => Shifts.pure _

/-!
# Detached values
-/

theorem ManualValue.shifts_fromIndex (idx : Int) :
    Shifts os t (ManualValue.fromIndex t idx) j fun _ => j := by
  have hbehind : forall k : RefKind,
      Shifts os t (do return Detached.ref k (← ManualRef.fromIndex t idx)) j fun _ => j :=
    fun _ => (ManualRef.shifts_fromIndex idx).bind fun _ => Shifts.pure _
  refine (still_typeOf t idx).shifts.bind fun k => ?_
  cases k with
  | none => exact Shifts.pure _
  | nil => exact Shifts.pure _
  | boolean => exact (still_look t idx _).shifts.bind fun _ => Shifts.pure _
  | number =>
      refine (still_isInteger t idx).shifts.bind fun integer => ?_
      split
      · exact (still_look t idx _).shifts.bind fun _ => Shifts.pure _
      · exact (still_look t idx _).shifts.bind fun _ => Shifts.pure _
  | lightUserData => exact (still_look t idx _).shifts.bind fun _ => Shifts.pure _
  | string => exact hbehind .string
  | table => exact hbehind .table
  | function => exact hbehind .function
  | userData => exact hbehind .userData
  | thread => exact hbehind .thread

theorem ManualValue.shifts_popFrom : Shifts os t (ManualValue.popFrom t) (j + 1) fun _ => j :=
  (ManualValue.shifts_fromIndex _).bind fun _ => (shifts_pop 1).bind fun _ => Shifts.pure _

/-- A value whose handle, if it has one, is used through a thread. -/
def ManualValue.On (t : ThreadId) (v : ManualValue) : Prop :=
  forall r, v.reference? = some r -> r.thread = t

/-- A value whose handle, if it has one, is used through a thread. -/
def OwnedValue.On (t : ThreadId) (v : OwnedValue) : Prop :=
  forall r, v.reference? = some r -> r.thread = t

theorem ManualValue.on_fromIndex {idx : Int} {E : Engine} {w w' : World} {v : ManualValue}
    (h : ManualValue.fromIndex t idx E w = .ok v w') : v.On t := by
  have hbehind : forall {k : RefKind} {w : World},
      (do return Detached.ref k (← ManualRef.fromIndex t idx) : M ManualValue) E w = .ok v w' ->
      v.On t := by
    intro k w h
    rcases ok_bind h with ⟨r, w₁, hr, h⟩
    rcases ok_bind hr with ⟨_, w₂, _, hr⟩
    rcases ok_bind hr with ⟨id, w₃, _, hr⟩
    cases hr
    cases h
    intro r hr
    cases hr
    rfl
  have hplain : forall {v' : ManualValue} {w w' : World}, v'.reference? = none ->
      (pure v' : M ManualValue) E w = .ok v w' -> v.On t := by
    intro v' w w' hnone h r hr
    cases h
    rw [hnone] at hr
    cases hr
  have hafter : forall {β : Type} {x : M β} {f : β → ManualValue} {w w' : World},
      (forall b, (f b).reference? = none) -> (do return f (← x) : M ManualValue) E w = .ok v w' ->
      v.On t := by
    intro β x f w w' hnone h
    rcases ok_bind h with ⟨b, w₁, _, h⟩
    exact hplain (hnone b) h
  rcases ok_bind h with ⟨k, w₁, _, h⟩
  cases k with
  | none => exact hplain rfl h
  | nil => exact hplain rfl h
  | boolean => exact hafter (fun _ => rfl) h
  | number =>
      rcases ok_bind h with ⟨integer, w₂, _, h⟩
      cases integer with
      | true => exact hafter (fun _ => rfl) h
      | false => exact hafter (fun _ => rfl) h
  | lightUserData => exact hafter (fun _ => rfl) h
  | string => exact hbehind h
  | table => exact hbehind h
  | function => exact hbehind h
  | userData => exact hbehind h
  | thread => exact hbehind h

theorem ManualValue.shifts_copy {v : ManualValue} (h : v.On t) :
    Shifts os t v.copy j fun _ => j := by
  cases v with
  | ref k r =>
      rw [← h r rfl]
      exact r.shifts_copy.bind fun _ => Shifts.pure _
  | _ => exact Shifts.pure _

theorem OwnedValue.shifts_fromManual {v : ManualValue} (h : v.On t) :
    Shifts os t (OwnedValue.fromManual v) j fun _ => j := by
  cases v with
  | ref k r =>
      rw [← h r rfl]
      exact (OwnedRef.shifts_adopt r.id).bind fun _ => Shifts.pure _
  | _ => exact Shifts.pure _

theorem OwnedValue.shifts_fromIndex (idx : Int) :
    Shifts os t (OwnedValue.fromIndex t idx) j fun _ => j :=
  (ManualValue.shifts_fromIndex idx).bind_of ManualValue.on_fromIndex fun _ h =>
    OwnedValue.shifts_fromManual h

theorem OwnedValue.shifts_popFrom : Shifts os t (OwnedValue.popFrom t) (j + 1) fun _ => j := by
  refine ManualValue.shifts_popFrom.bind_of (P := ManualValue.On t) (fun h => ?_)
    fun _ h => OwnedValue.shifts_fromManual h
  rcases ok_bind h with ⟨v, w₁, hv, h⟩
  rcases ok_bind h with ⟨_, w₂, _, h⟩
  cases h
  exact ManualValue.on_fromIndex hv

theorem OwnedValue.shifts_copy {v : OwnedValue} (h : v.On t) :
    Shifts os t v.copy j fun _ => j := by
  cases v with
  | ref k r =>
      rw [← h r rfl]
      exact r.shifts_copy.bind fun _ => Shifts.pure _
  | _ => exact Shifts.pure _

/-!
# Handles of a known type
-/

theorem StringRef.shifts_toBytes (r : OwnedRef) :
    Shifts os r.thread (StringRef.toBytes r) j fun _ => j :=
  (shifts_pushRef r.id).bind fun _ => Interface.shifts_toBytes.bind fun _ =>
    (shifts_pop 1).bind fun _ => Shifts.pure _

theorem StringRef.shifts_toText (r : OwnedRef) :
    Shifts os r.thread (StringRef.toText r) j fun _ => j :=
  (shifts_pushRef r.id).bind fun _ =>
    (Interface.shifts_toBytes.bind fun _ => Shifts.pure _).bind fun _ =>
      (shifts_pop 1).bind fun _ => Shifts.pure _

namespace TableRef

theorem shifts_pushTable (r : OwnedRef) :
    Shifts os r.thread (TableRef.pushTable r) j fun _ => j + 1 := by
  refine (shifts_pushRef r.id).bind fun k => ?_
  split
  · exact (still_abort _).shifts
  · exact Shifts.pure _

theorem shifts_pushKey (k : Key) : Shifts os t (pushKey t k) j fun _ => j + 1 := by
  cases k <;> exact shifts_pushNew _

theorem shifts_copyToHost (r : OwnedRef) :
    Shifts os r.thread (TableRef.copyToHost r) j fun _ => j :=
  (shifts_pushTable r).bind fun _ => (shifts_copyTable _).bind fun _ =>
    (shifts_pop 1).bind fun _ => Shifts.pure _

theorem shifts_get (r : OwnedRef) (k : Key) : Shifts os r.thread (TableRef.get r k) j fun _ => j :=
  (shifts_pushTable r).bind fun _ => (shifts_pushKey k).bind fun _ =>
    (shifts_getTable _).bind fun _ => (shifts_toHost _).bind fun _ =>
      (shifts_pop 2).bind fun _ => Shifts.pure _

theorem shifts_set (r : OwnedRef) (k : Key) (v : Data.Value) :
    Shifts os r.thread (TableRef.set r k v) j fun _ => j :=
  (shifts_pushTable r).bind fun _ => (shifts_pushKey k).bind fun _ =>
    (shifts_pushHost v).bind fun _ => (shifts_setTable _).bind fun _ => shifts_pop 1

theorem shifts_len (r : OwnedRef) : Shifts os r.thread (TableRef.len r) j fun _ => j :=
  (shifts_pushTable r).bind fun _ => (Interface.shifts_len _).bind fun _ =>
    (still_look _ _ _).shifts.bind fun _ => (shifts_pop 2).bind fun _ => Shifts.pure _

theorem shifts_isEmpty (r : OwnedRef) : Shifts os r.thread (TableRef.isEmpty r) j fun _ => j := by
  refine (shifts_pushTable r).bind fun _ => (shifts_pushNew _).bind fun _ => ?_
  refine (shifts_next _).bind fun more => ?_
  cases more with
  | true => exact (shifts_pop 3).bind fun _ => Shifts.pure _
  | false => exact (shifts_pop 1).bind fun _ => Shifts.pure _

theorem shifts_forEach (r : OwnedRef) {f : σ → M (Bool × σ)}
    (hf : forall s, Shifts os r.thread (f s) 0 fun _ => 0) (s : σ) :
    Shifts os r.thread (TableRef.forEach r f s) j fun _ => j := by
  have hvisits : forall (i : Int) (size : Nat), Shifts os r.thread (do
      pushNil r.thread
      let s ← visit r.thread i f s (size + 1)
      pop r.thread 1
      return s) (j + 1) fun _ => j :=
    fun i size => (shifts_pushNew _).bind fun _ => (Disassembling.shifts_visit i hf _ s).bind fun _ =>
      (shifts_pop 1).bind fun _ => Shifts.pure _
  refine (shifts_pushTable r).bind fun _ => (still_absIndex _ _).shifts.bind fun i => ?_
  refine (still_tableAt _ i).shifts.bind fun id => ?_
  cases id with
  | none => exact (Shifts.pure _).bind fun size => hvisits i size
  | some id =>
      exact (still_table id).shifts.bind fun _ => (Shifts.pure _).bind fun size => hvisits i size

end TableRef

theorem UserDataRef.shifts_downcast (r : OwnedRef) (type : HostType) :
    Shifts os r.thread (UserDataRef.downcast r type) j fun _ => j :=
  (shifts_pushRef r.id).bind fun _ => (shifts_toUserData type _).bind fun _ =>
    (shifts_pop 1).bind fun _ => Shifts.pure _

theorem ThreadRef.shifts_thread (r : OwnedRef) :
    Shifts os r.thread (ThreadRef.thread r) j fun _ => j := by
  refine (shifts_pushRef r.id).bind fun _ => (still_look _ _ _).shifts.bind fun t => ?_
  refine (shifts_pop 1).bind fun _ => ?_
  cases t with
  | none => exact (still_abort _).shifts
  | some t => exact Shifts.pure _

theorem OwnedValue.shifts_copyToHost {v : OwnedValue} (h : v.On t) :
    Shifts os t v.copyToHost j fun _ => j := by
  cases v with
  | ref k r =>
      rw [← h r rfl]
      cases k with
      | string => exact (StringRef.shifts_toText r).bind fun _ => Shifts.pure _
      | table => exact (TableRef.shifts_copyToHost r).bind fun _ => Shifts.pure _
      | _ => exact Shifts.pure _
  | _ => exact Shifts.pure _

namespace Discipline

/-!
# Effects
-/

/-- What an operation does to the stack of its thread. -/
inductive Effect where
  | keeps | adds | removes
deriving DecidableEq

/-- What is seen of the effect: where the top is afterwards, and that the values of
the running call that are on the stack before and after are the same. -/
def Effect.Holds : Effect → Thread → Thread → Prop
  | .keeps, th, th' => th'.top = th.top ∧ th.SameUpTo th.top th'
  | .adds, th, th' => th'.top = th.top + 1 ∧ th.SameUpTo th.top th'
  | .removes, th, th' => th.top = th'.top + 1 ∧ th.base ≤ th'.top ∧ th.SameUpTo th'.top th'

/-- A computation that leaves the stack of a thread as it found it. -/
def Leaves (os : List ThreadId) (t : ThreadId) (x : M α) : Prop := Shifts os t x 0 fun _ => 0

/-- The operations that are put together from several others, each with the
thread that it is for and with its effect.  The visits of a table leave the stack
as they find it. -/
inductive Composite (os : List ThreadId) : forall {α : Type}, M α -> ThreadId -> Effect -> Prop where
  | refTypeOf (r : OwnedRef) : Composite os r.typeOf r.thread .keeps
  | refCopy (r : OwnedRef) : Composite os r.copy r.thread .keeps
  | refFromIndex (t : ThreadId) (idx : Int) : Composite os (OwnedRef.fromIndex t idx) t .keeps
  | manualRefCopy (r : ManualRef) : Composite os r.copy r.thread .keeps
  | manualRefFromIndex (t : ThreadId) (idx : Int) :
      Composite os (ManualRef.fromIndex t idx) t .keeps
  | valueFromIndex (t : ThreadId) (idx : Int) : Composite os (OwnedValue.fromIndex t idx) t .keeps
  | valueCopy {t : ThreadId} {v : OwnedValue} (h : v.On t) : Composite os v.copy t .keeps
  | manualValueFromIndex (t : ThreadId) (idx : Int) :
      Composite os (ManualValue.fromIndex t idx) t .keeps
  | manualValueCopy {t : ThreadId} {v : ManualValue} (h : v.On t) : Composite os v.copy t .keeps
  | toText (r : OwnedRef) : Composite os (StringRef.toText r) r.thread .keeps
  | toBytes (r : OwnedRef) : Composite os (StringRef.toBytes r) r.thread .keeps
  | tableToHost (r : OwnedRef) : Composite os (TableRef.copyToHost r) r.thread .keeps
  | get (r : OwnedRef) (k : Key) : Composite os (TableRef.get r k) r.thread .keeps
  | set (r : OwnedRef) (k : Key) (v : Data.Value) : Composite os (TableRef.set r k v) r.thread .keeps
  | len (r : OwnedRef) : Composite os (TableRef.len r) r.thread .keeps
  | isEmpty (r : OwnedRef) : Composite os (TableRef.isEmpty r) r.thread .keeps
  | forEach (r : OwnedRef) {σ : Type} {f : σ → M (Bool × σ)}
      (hf : forall s, Leaves os r.thread (f s)) (s : σ) :
      Composite os (TableRef.forEach r f s) r.thread .keeps
  | downcast (r : OwnedRef) (type : HostType) :
      Composite os (UserDataRef.downcast r type) r.thread .keeps
  | thread (r : OwnedRef) : Composite os (ThreadRef.thread r) r.thread .keeps
  | valueToHost {t : ThreadId} {v : OwnedValue} (h : v.On t) : Composite os v.copyToHost t .keeps
  | toHost (t : ThreadId) (idx : Int) : Composite os (Interface.toHost t idx) t .keeps
  | copyTable (t : ThreadId) (idx : Int) : Composite os (Interface.copyTable t idx) t .keeps
  | mainThread (t : ThreadId) : Composite os (Interface.mainThread t) t .keeps
  | testUserData (t : ThreadId) (idx : Int) (name : String) :
      Composite os (Interface.testUserData t idx name) t .keeps
  | toUserData (t : ThreadId) (type : HostType) (idx : Int) :
      Composite os (Interface.toUserData t type idx) t .keeps
  | register (t : ThreadId) (name : String) (f : HostFn) :
      Composite os (Interface.registerGlobal t name f) t .keeps
  | preload (t : ThreadId) (name : String) (opener : HostFn) :
      Composite os (Interface.preload t name opener) t .keeps
  | checkStatus (t : ThreadId) (s : Status) : Composite os (Interface.checkStatus t s) t .keeps
  | pushHost (t : ThreadId) (v : Data.Value) : Composite os (Interface.pushHost t v) t .adds
  | newLibrary (t : ThreadId) (fs : List (String × HostFn)) :
      Composite os (Interface.newLibrary t fs) t .adds
  | pushUserData (t : ThreadId) (type : HostType) (v : HostValue) (userValues : Nat) :
      Composite os (Interface.pushUserData t type v userValues) t .adds
  | pushFunction (t : ThreadId) (f : HostFn) : Composite os (Interface.pushFunction t f) t .adds
  | pushRef (t : ThreadId) (id : RefId) : Composite os (Interface.pushRef t id) t .adds
  | getGlobal (t : ThreadId) (name : String) : Composite os (Interface.getGlobal t name) t .adds
  | getNamedMetatable (t : ThreadId) (name : String) :
      Composite os (Interface.getNamedMetatable t name) t .adds
  | refPopFrom (t : ThreadId) : Composite os (OwnedRef.popFrom t) t .removes
  | manualRefPopFrom (t : ThreadId) : Composite os (ManualRef.popFrom t) t .removes
  | valuePopFrom (t : ThreadId) : Composite os (OwnedValue.popFrom t) t .removes
  | manualValuePopFrom (t : ThreadId) : Composite os (ManualValue.popFrom t) t .removes
  | setGlobal (t : ThreadId) (name : String) : Composite os (Interface.setGlobal t name) t .removes

/-!
# Operations that need a value
-/

/-- The computation returns only where the running call has a value. -/
def Consumes (os : List ThreadId) (t : ThreadId) (x : M α) : Prop :=
  forall {E : Engine} {w a w'}, E.Disciplined os -> w.liveThread t = true -> x E w = .ok a w' ->
    (w.thread t).height ≠ 0

theorem Consumes.bind {β : Type} {x : M α} {f : α → M β} (h : Consumes os t x) :
    Consumes os t (x >>= f) := by
  intro E w b w' hE hlive hx
  rcases ok_bind hx with ⟨a, w₁, hfirst, _⟩
  exact h hE hlive hfirst

theorem consumes_registryRef : Consumes os t (registryRef t) := by
  intro E w a w' _ _ h
  have h := (returns_height w t).ok_bind h
  intro hzero
  rw [hzero] at h
  cases h

theorem consumes_typeOf : Consumes os t (typeOf t (-1)) := by
  intro E w k w' _ _ h hzero
  rcases ok_bind h with ⟨_, w₁, hcheck, _⟩
  have hvalid := (ok_checkIndex hcheck).1
  rw [hzero] at hvalid
  cases hvalid

theorem consumes_popFrom_manualValue : Consumes os t (ManualValue.popFrom t) :=
  Consumes.bind (Consumes.bind consumes_typeOf)

/-- The table of globals is moved under the value. -/
theorem consumes_setGlobal (name : String) : Consumes os t (setGlobal t name) := by
  intro E w a w' hE hlive h
  rcases ok_bind h with ⟨_, w₁, hpush, h⟩
  rcases (shifts_pushGlobals (j := 0)).run hE hlive rfl hpush with ⟨hpushed, hcarried⟩
  have htop : (w₁.thread t).top = (w.thread t).top + 1 := hpushed
  rcases ok_bind h with ⟨_, w₂, hinsert, _⟩
  rcases ok_bind hinsert with ⟨_, w₃, hcheck, _⟩
  have htwo := two_le_height (ok_checkIndex hcheck).1
  rw [hcarried.below.base_eq, htop] at htwo
  unfold Thread.height
  omega

/-!
# Effects of the operations
-/

/-- How an effect is shown. -/
def Effect.Performed (os : List ThreadId) (t : ThreadId) (x : M α) : Effect → Prop
  | .keeps => Leaves os t x
  | .adds => Shifts os t x 0 fun _ => 1
  | .removes => (Shifts os t x 1 fun _ => 0) ∧ Consumes os t x

theorem Composite.performed {x : M α} {e : Effect} (h : Composite os x t e) :
    e.Performed os t x := by
  cases h with
  | refTypeOf r => exact r.shifts_typeOf
  | refCopy r => exact r.shifts_copy
  | refFromIndex _ idx => exact OwnedRef.shifts_fromIndex idx
  | manualRefCopy r => exact r.shifts_copy
  | manualRefFromIndex _ idx => exact ManualRef.shifts_fromIndex idx
  | valueFromIndex _ idx => exact OwnedValue.shifts_fromIndex idx
  | valueCopy hon => exact OwnedValue.shifts_copy hon
  | manualValueFromIndex _ idx => exact ManualValue.shifts_fromIndex idx
  | manualValueCopy hon => exact ManualValue.shifts_copy hon
  | toText r => exact StringRef.shifts_toText r
  | toBytes r => exact StringRef.shifts_toBytes r
  | tableToHost r => exact TableRef.shifts_copyToHost r
  | get r k => exact TableRef.shifts_get r k
  | set r k v => exact TableRef.shifts_set r k v
  | len r => exact TableRef.shifts_len r
  | isEmpty r => exact TableRef.shifts_isEmpty r
  | forEach r hf s => exact TableRef.shifts_forEach r hf s
  | downcast r type => exact UserDataRef.shifts_downcast r type
  | thread r => exact ThreadRef.shifts_thread r
  | valueToHost hon => exact OwnedValue.shifts_copyToHost hon
  | toHost _ idx => exact shifts_toHost idx
  | copyTable _ idx => exact shifts_copyTable idx
  | mainThread => exact shifts_mainThread
  | testUserData _ idx name => exact shifts_testUserData idx name
  | toUserData _ type idx => exact shifts_toUserData type idx
  | register _ name f => exact shifts_registerGlobal name f
  | preload _ name opener => exact shifts_preload name opener
  | checkStatus _ s => exact shifts_checkStatus s
  | pushHost _ v => exact shifts_pushHost v
  | newLibrary _ fs => exact shifts_newLibrary fs
  | pushUserData _ type v n => exact shifts_pushUserData type v n
  | pushFunction _ f => exact shifts_pushFunction f
  | pushRef _ id => exact shifts_pushRef id
  | getGlobal _ name => exact shifts_getGlobal name
  | getNamedMetatable _ name => exact shifts_getField _ name
  | refPopFrom => exact ⟨OwnedRef.shifts_popFrom, Consumes.bind consumes_registryRef⟩
  | manualRefPopFrom => exact ⟨ManualRef.shifts_popFrom, Consumes.bind consumes_registryRef⟩
  | valuePopFrom => exact ⟨OwnedValue.shifts_popFrom, Consumes.bind consumes_popFrom_manualValue⟩
  | manualValuePopFrom => exact ⟨ManualValue.shifts_popFrom, consumes_popFrom_manualValue⟩
  | setGlobal _ name => exact ⟨shifts_setGlobal name, consumes_setGlobal name⟩

theorem Effect.Performed.holds {x : M α} {e : Effect} (h : e.Performed os t x) {E : Engine}
    (hE : E.Disciplined os) {w w' : World} {a : α} (hlive : w.liveThread t = true)
    (hrun : x E w = .ok a w') :
    e.Holds (w.thread t) (w'.thread t) ∧
      forall o, o ∈ os -> o ≠ t -> (w.thread o).SameStack (w'.thread o) := by
  cases e with
  | keeps =>
      rcases Shifts.run h hE hlive rfl hrun with ⟨htop, hcarried⟩
      exact ⟨⟨htop, hcarried.below⟩, hcarried.others⟩
  | adds =>
      rcases Shifts.run h hE hlive rfl hrun with ⟨htop, hcarried⟩
      exact ⟨⟨htop, hcarried.below⟩, hcarried.others⟩
  | removes =>
      have hheight := h.2 hE hlive hrun
      unfold Thread.height at hheight
      have hone : (w.thread t).top = ((w.thread t).top - 1) + 1 := by omega
      rcases h.1.run hE hlive hone hrun with ⟨htop, hcarried⟩
      have htop : (w'.thread t).top = (w.thread t).top - 1 := htop
      refine ⟨⟨by omega, by omega, ?_⟩, hcarried.others⟩
      rw [htop]
      exact hcarried.below

/-- A composite operation that returns has its effect on the stack of its thread,
and none on the stacks of other threads, when no call on the way touches what
lies below it or these stacks. -/
theorem composite_effect {os : List ThreadId} {x : M α} {t : ThreadId} {e : Effect}
    (hx : Composite os x t e) {E : Engine} {w w' : World} {a : α} (hlive : w.liveThread t = true)
    (hcalls : x (E.within os) w = x E w) (hrun : x E w = .ok a w') :
    e.Holds (w.thread t) (w'.thread t) ∧
      forall o, o ∈ os -> o ≠ t -> (w.thread o).SameStack (w'.thread o) :=
  hx.performed.holds (Engine.disciplined_within os E) hlive (hcalls.trans hrun)

/-!
# Handlers of a table
-/

/-- A machine whose host runs in a call with one value, and has a handle to an
empty table.  A script function looks up what the table does not have; it can set
local variables of its callers, and resume a thread that has not begun. -/
def handling (p : Prototype) : World where
  heap :=
    { tables := { items := #[some (({} : Table).setInt 4 (.table ⟨1⟩)),
        some { metatable := some ⟨2⟩ },
        some (({} : Table).setStr Event.index.field (.closure ⟨0⟩))] }
      closures := { items := #[some (.script p #[⟨0⟩, ⟨1⟩, ⟨2⟩])] }
      upvalues := { items := #[some (.closed (.native (.debug .setlocal))),
        some (.closed (.native (.coroutine .resume))), some (.closed (.thread ⟨1⟩))] }
      threads := { items := #[
        some { stack := #[.nil, .native .frame, .int 5], top := 3, unyieldable := 1
               frames := #[{ func := 0, top := 21 }, { func := 1, top := 23 }] },
        some { Thread.fresh with stack := #[.nil, .native .frame], top := 2 }] } }

/-- Answers the key. -/
def answering : Prototype where
  parameters := 2
  code := #[.abck .ret1 1 0 0 false]

/-- Sets the first value of its caller, and resumes the thread. -/
def meddling : Prototype where
  maxStack := 4
  code := #[.abck .getUpval 0 0 0 false, .abx .loadInt 1 65537, .abx .loadInt 2 65536,
    .abck .loadTrue 3 0 0 false, .abck .call 0 4 1 false, .abck .getUpval 0 1 0 false,
    .abck .getUpval 1 2 0 false, .abck .call 0 2 1 false, .abck .ret0 0 1 0 false]

/-- Looks up a key of the table. -/
def looking : M (Option Data.Value) := TableRef.get ⟨⟨0⟩, 4, false⟩ (.integer 1)

/-- The stack is as it was around a handler that answers the key and touches nothing
else. -/
theorem composite_effect_answering :
    exists a w', looking ((engine Stock.host depth).within [⟨1⟩]) (handling answering) = .ok a w' ∧
      Effect.keeps.Holds ((handling answering).thread ⟨0⟩) (w'.thread ⟨0⟩) ∧
      ((handling answering).thread ⟨1⟩).SameStack (w'.thread ⟨1⟩) := by
  have hreturns : (match looking ((engine Stock.host depth).within [⟨1⟩]) (handling answering) with
      | .ok _ _ => true
      | .error _ _ => false) = true := by
    decide +kernel
  cases hrun : looking ((engine Stock.host depth).within [⟨1⟩]) (handling answering) with
  | ok a w' =>
      have hlooking : Composite [⟨1⟩] looking ⟨0⟩ .keeps := .get ⟨⟨0⟩, 4, false⟩ (.integer 1)
      have hcalls := congrArg (fun E => looking E (handling answering))
        (Engine.within_within [⟨1⟩] (engine Stock.host depth))
      rcases composite_effect hlooking (by decide +kernel) hcalls hrun with ⟨hkeeps, hothers⟩
      exact ⟨a, w', rfl, hkeeps, hothers ⟨1⟩ (by decide) (by decide)⟩
  | error r w' =>
      rw [hrun] at hreturns
      cases hreturns

/-- A handler that meddles with its callers changes the stack of the operation, and
the one of another thread. -/
theorem looking_meddled :
    exists a w', Machine.exec Stock.host looking (handling meddling) = .ok a w' ∧
      ¬ Effect.keeps.Holds ((handling meddling).thread ⟨0⟩) (w'.thread ⟨0⟩) ∧
      ¬ ((handling meddling).thread ⟨1⟩).SameStack (w'.thread ⟨1⟩) := by
  have hreturns : (match Machine.exec Stock.host looking (handling meddling) with
      | .ok _ w' => decide ((w'.thread ⟨0⟩).slot 2 = .bool true ∧ (w'.thread ⟨1⟩).top = 1)
      | .error _ _ => false) = true := by
    decide +kernel
  cases hrun : Machine.exec Stock.host looking (handling meddling) with
  | ok a w' =>
      rw [hrun] at hreturns
      rcases of_decide_eq_true hreturns with ⟨hslot, htop⟩
      refine ⟨a, w', rfl, fun hkeeps => ?_, fun hsame => ?_⟩
      · have hsame := hkeeps.2.slot_eq 2 (by decide) (by decide)
        rw [hslot] at hsame
        exact absurd hsame (by decide)
      · have hsame := hsame.top_eq
        rw [htop] at hsame
        exact absurd hsame (by decide)
  | error r w' =>
      rw [hrun] at hreturns
      cases hreturns

end Discipline

end LuaHost
