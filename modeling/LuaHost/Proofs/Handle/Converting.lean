import LuaHost.Proofs.Handle.Agreeing
import LuaHost.Proofs.Numeric.Equality

/-!
# Conversions of detached values

A value at an index that is detached may be copied, handed over from one layer of handles to the
other, taken out of its variant and put back into it, any number of times.  Whatever is held in the
end still tells the type of the value, and pushes the value itself; the stack that it came from stays
as it was.
-/

namespace LuaHost

open Interface Machine Session World

/-!
# Values that are registered
-/

/-- How much room on a stack it takes to register a value; only objects are registered. -/
def Value.roomToRegister : Value → Nat
  | .nil | .bool _ | .int _ | .float _ | .light _ => 0
  | _ => 1

theorem RefKind.roomToRegister {v : Value} {k : RefKind} (h : v.kind = k.kind) :
    v.roomToRegister = 1 := by
  cases v with
  | nil => cases k <;> cases h
  | bool _ => cases k <;> cases h
  | int _ => cases k <;> cases h
  | float _ => cases k <;> cases h
  | light _ => cases k <;> cases h
  | _ => rfl

theorem RefKind.eq_of_kind {v : Value} {k k' : RefKind} (h : v.kind = k.kind)
    (h' : v.kind = k'.kind) : k = k' := by
  rw [h] at h'
  cases k <;> cases k' <;> first | rfl | cases h'

namespace World

variable {t t' : ThreadId} {w w' : World} {vs : List Value} {idx : Int} {n : Nat}

/-!
# What stays beside a stack
-/

theorem Beside.thread_ne (h : Beside t w vs w') (hne : t' ≠ t) : w'.thread t' = w.thread t' := by
  rcases h.rest_eq with ⟨T, l, log, hrest⟩
  rw [hrest]
  exact thread_setThread_ne hne _

theorem Beside.liveThread_eq (h : Beside t w vs w') : w'.liveThread t' = w.liveThread t' := by
  rcases h.rest_eq with ⟨T, l, log, hrest⟩
  rw [hrest]
  exact liveThread_setThread _ t t' _

theorem Beside.ample_any (h : Beside t w [] w') (hample : w.Ample t' n) : w'.Ample t' n := by
  by_cases heq : t' = t
  · subst heq
    exact h.ample hample
  · refine ⟨h.liveThread_eq.trans hample.live, ?_, ?_⟩ <;> rw [h.thread_ne heq]
    · exact hample.based
    · exact hample.fits

theorem Beside.closures_eq (h : Beside t w vs w') : w'.heap.closures = w.heap.closures := by
  rcases h.rest_eq with ⟨T, l, log, hrest⟩
  rw [hrest]
  rfl

/-- What an index denotes is the same, and it has the same value. -/
theorem Beside.value?_eq (h : Beside t w [] w') (hbased : (w.thread t).base ≤ (w.thread t).top)
    (hvalid : validIndex (w.thread t).height idx = true) : w'.value? t idx = w.value? t idx := by
  have htop : (w'.thread t).top = (w.thread t).top := h.raised.top_eq
  have hbase := h.raised.below.base_eq
  have hslot := h.raised.below.slot_eq
  have hfunc : (w'.thread t).frame.func = (w.thread t).frame.func := Nat.succ_inj.mp hbase
  have hlow : (w.thread t).frame.func < (w.thread t).top := hbased
  have hplace : w'.placeOf (w'.thread t) idx = w.placeOf (w.thread t) idx := by
    unfold placeOf
    rw [hfunc, htop, hslot _ hlow, h.closures_eq]
  -- a slot that an index denotes is below the top
  have hbelow : forall i, w.placeOf (w.thread t) idx = .slot i -> i < (w.thread t).top := by
    intro i hi
    simp only [validIndex, Bool.and_eq_true, bne_iff_ne, ne_eq, Bool.or_eq_true,
      decide_eq_true_eq] at hvalid
    rcases hvalid with ⟨hne, hin⟩
    unfold placeOf at hi
    unfold Thread.height at hin
    split at hi
    · split at hi
      · cases hi
        assumption
      · cases hi
    · split at hi
      · cases hi
        omega
      · split at hi
        · cases hi
        · split at hi
          · split at hi
            · split at hi <;> cases hi
            · cases hi
          · cases hi
  unfold value? valueAt
  rw [hplace]
  cases hp : w.placeOf (w.thread t) idx with
  | slot i => simp [valueOf, hslot i (hbelow i hp)]
  | registry => simp [valueOf, h.registry_eq]
  | upvalue c i => simp [valueOf, h.closures_eq]
  | nowhere => rfl

end World

/-!
# Handles of every sort
-/

namespace Session.Handle

/-- A handle of any sort that holds a value, and is used through a thread. -/
inductive Bears (t : ThreadId) (v : Value) : Handle → Prop where
  | manualRef {k : RefKind} {r : ManualRef} : v.kind = k.kind → r.Via t → Bears t v (.manualRef r)
  | manualValue {d : ManualValue} : d.StandsFor (ManualRef.Via t) (some v) →
      Bears t v (.manualValue d)
  | ownedRef {k : RefKind} {r : OwnedRef} : v.kind = k.kind → r.Via t → Bears t v (.ownedRef r)
  | ownedValue {d : OwnedValue} : d.StandsFor (OwnedRef.Via t) (some v) → Bears t v (.ownedValue d)
  | typed {k : RefKind} {r : OwnedRef} : v.kind = k.kind → r.Via t → Bears t v (.typed k r)

/-- A handle of a known type as the variant of that type; a single one is put into the variant that
is named. -/
def wrap (k : RefKind) : Handle → Handle
  | .manualRef r => .manualValue (.ref k r)
  | .typed k' r => .ownedValue (.ref k' r)
  | x => x

/-- The stack on which a handle is pushed: a single handle knows its own. -/
def target (t : ThreadId) : Handle → ThreadId
  | .manualRef r => r.thread
  | .ownedRef r | .typed _ r => r.thread
  | .manualValue _ | .ownedValue _ => t

/-- How a handle tells the type of its value; a single one that is released by hand does not. -/
def typeOf? : Handle → Option (M Kind)
  | .manualRef _ => none
  | .ownedRef r | .typed _ r => some r.typeOf
  | .manualValue d => some (return d.kind)
  | .ownedValue d => some (return d.kind)

end Session.Handle

theorem Detached.StandsFor.kind_eq {ρ : Type} {P : ρ → Prop} {d : Detached ρ} {v : Value}
    (h : d.StandsFor P (some v)) : d.kind = v.kind := by
  cases h with
  | behind hkind _ => exact hkind.symm
  | _ => rfl

theorem Detached.StandsFor.asKind?_eq {ρ : Type} {P : ρ → Prop} {d : Detached ρ} {v : Value}
    {k : RefKind} (h : d.StandsFor P (some v)) (hkind : v.kind = k.kind) :
    exists r, d.asKind? k = some r ∧ P r := by
  cases h with
  | behind hkind' hP =>
      cases RefKind.eq_of_kind hkind hkind'
      exact ⟨_, if_pos rfl, hP⟩
  | _ => cases k <;> cases hkind

namespace Converting

open Ownership

/-- A handle for a value in a registry that has the entry, and a stack with room to register the
value. -/
structure Held (es : List (RefId × Value)) (t : ThreadId) (v : Value) (x : Handle) (w : World) :
    Prop where
  bears : x.Bears t v
  ledger : Ledger es w
  mem : forall id, x.id? = some id -> (id, v) ∈ es
  ample : w.Ample t v.roomToRegister

variable {es : List (RefId × Value)} {t t' : ThreadId} {v : Value} {x : Handle} {w : World}

namespace Held

theorem ample_one (h : Held es t v x w) {k : RefKind} (hkind : v.kind = k.kind) : w.Ample t 1 := by
  have hample := h.ample
  rw [RefKind.roomToRegister hkind] at hample
  exact hample

theorem returns_copy (h : Held es t v x w) (hroom : es.length < maxHandles) :
    exists y w', Returns x.copy w y w' ∧ y.Bears t v ∧ Beside t w [] w' := by
  have hrefl := Beside.refl h.ample
  have hmanual {r : ManualRef} {k : RefKind} (hkind : v.kind = k.kind) (hvia : r.Via t)
      (hid : x.id? = some r.id) :=
    ManualRef.returns_copy h.ledger hroom (RefKind.behind hkind).1 (h.ample_one hkind) hvia
      (h.mem r.id hid)
  have howned {r : OwnedRef} {k : RefKind} (hkind : v.kind = k.kind) (hvia : r.Via t)
      (hid : x.id? = some r.id) :=
    OwnedRef.returns_copy h.ledger hroom (RefKind.behind hkind).1 (h.ample_one hkind) hvia
      (h.mem r.id hid)
  cases h.bears with
  | manualRef hkind hvia =>
      rcases hmanual hkind hvia rfl with ⟨r', w', hrun, hvia', hbeside⟩
      exact ⟨_, w', Returns.bind hrun (Returns.pure _ _), .manualRef hkind hvia', hbeside⟩
  | manualValue hstands =>
      rcases hstands.returns_mapM (f := ManualRef.copy) hrefl (fun v' k r hv hkind hr hvia => by
        cases hv
        exact hmanual hkind hvia (congrArg (Option.map ManualRef.id) hr)) with
        ⟨d', w', hrun, hstands', hbeside⟩
      exact ⟨_, w', Returns.bind hrun (Returns.pure _ _), .manualValue hstands', hbeside⟩
  | ownedRef hkind hvia =>
      rcases howned hkind hvia rfl with ⟨r', w', hrun, hvia', hbeside⟩
      exact ⟨_, w', Returns.bind hrun (Returns.pure _ _), .ownedRef hkind hvia', hbeside⟩
  | ownedValue hstands =>
      rcases hstands.returns_mapM (f := OwnedRef.copy) hrefl (fun v' k r hv hkind hr hvia => by
        cases hv
        exact howned hkind hvia (congrArg (Option.map OwnedRef.id) hr)) with
        ⟨d', w', hrun, hstands', hbeside⟩
      exact ⟨_, w', Returns.bind hrun (Returns.pure _ _), .ownedValue hstands', hbeside⟩
  | typed hkind hvia =>
      rcases howned hkind hvia rfl with ⟨r', w', hrun, hvia', hbeside⟩
      exact ⟨_, w', Returns.bind hrun (Returns.pure _ _), .typed hkind hvia', hbeside⟩

theorem returns_fromManual {d : ManualValue} (h : Held es t v (.manualValue d) w) :
    exists (d' : OwnedValue) (w' : World), Returns (OwnedValue.fromManual d) w d' w' ∧
      d'.StandsFor (OwnedRef.Via t) (some v) ∧ Beside t w [] w' := by
  cases h.bears with
  | manualValue hstands =>
      exact hstands.returns_mapM (Beside.refl h.ample) fun v' k r hv hkind _ hvia => by
        cases hv
        exact OwnedRef.returns_fromManual h.ledger (h.ample_one hkind) hvia

theorem returns_intoSafe (h : Held es t v x w) :
    exists y w', Returns (Turn.run .intoSafe x) w (some y) w' ∧ y.Bears t v ∧ Beside t w [] w' := by
  have hrefl := Beside.refl h.ample
  cases x with
  | manualRef r =>
      cases h.bears with
      | manualRef hkind hvia =>
          rcases OwnedRef.returns_fromManual h.ledger (h.ample_one hkind) hvia with
            ⟨r', w', hrun, hvia', hbeside⟩
          exact ⟨_, w', Returns.bind hrun (Returns.pure _ _), .ownedRef hkind hvia', hbeside⟩
  | manualValue d =>
      rcases h.returns_fromManual with ⟨d', w', hrun, hstands, hbeside⟩
      exact ⟨_, w', Returns.bind hrun (Returns.pure _ _), .ownedValue hstands, hbeside⟩
  | _ => exact ⟨_, w, Returns.pure _ w, h.bears, hrefl⟩

theorem returns_intoUnsafe (h : Held es t v x w) :
    exists y w', Returns (Turn.run .intoUnsafe x) w (some y) w' ∧ y.Bears t v ∧
      Beside t w [] w' := by
  have hrefl := Beside.refl h.ample
  cases x with
  | ownedRef r =>
      cases h.bears with
      | ownedRef hkind hvia =>
          rcases OwnedRef.returns_toManual h.ample hvia with ⟨r', w', hrun, hvia', hbeside⟩
          exact ⟨_, w', Returns.bind hrun (Returns.pure _ _), .manualRef hkind hvia', hbeside⟩
  | ownedValue d =>
      cases h.bears with
      | ownedValue hstands =>
          rcases hstands.returns_mapM (f := OwnedRef.toManual) hrefl (fun v' k r _ _ _ hvia =>
            OwnedRef.returns_toManual h.ample hvia) with ⟨d', w', hrun, hstands', hbeside⟩
          exact ⟨_, w', Returns.bind hrun (Returns.pure _ _), .manualValue hstands', hbeside⟩
  | _ => exact ⟨_, w, Returns.pure _ w, h.bears, hrefl⟩

theorem returns_intoInner (h : Held es t v x w) :
    exists y w', Returns (Turn.run .intoInner x) w (some y) w' ∧ y.Bears t v ∧
      Beside t w [] w' := by
  have hrefl := Beside.refl h.ample
  cases x with
  | typed k r =>
      cases h.bears with
      | typed hkind hvia => exact ⟨_, w, Returns.pure _ w, .ownedRef hkind hvia, hrefl⟩
  | _ => exact ⟨_, w, Returns.pure _ w, h.bears, hrefl⟩

theorem returns_asKind (h : Held es t v x w) {k : RefKind} (hkind : v.kind = k.kind) :
    exists y w', Returns (Turn.run (.asKind k) x) w (some y) w' ∧ y.Bears t v ∧
      Beside t w [] w' := by
  have hrefl := Beside.refl h.ample
  cases x with
  | manualValue d =>
      cases h.bears with
      | manualValue hstands =>
          rcases hstands.asKind?_eq hkind with ⟨r, hr, hvia⟩
          refine ⟨.manualRef r, w, ?_, .manualRef hkind hvia, hrefl⟩
          simp only [Turn.run, hr]
          exact Returns.pure _ w
  | ownedValue d =>
      cases h.bears with
      | ownedValue hstands =>
          rcases hstands.asKind?_eq hkind with ⟨r, hr, hvia⟩
          refine ⟨.typed k r, w, ?_, .typed hkind hvia, hrefl⟩
          simp only [Turn.run, OwnedValue.takeKind, hr]
          exact Returns.bind (Returns.pure _ w) (Returns.pure _ w)
  | _ => exact ⟨_, w, Returns.pure _ w, h.bears, hrefl⟩

theorem returns_tryKind (h : Held es t v x w) {k : RefKind} (hkind : v.kind = k.kind) :
    exists y w', Returns (Turn.run (.tryKind k) x) w (some y) w' ∧ y.Bears t v ∧
      Beside t w [] w' := by
  have hrefl := Beside.refl h.ample
  cases x with
  | ownedValue d =>
      cases h.bears with
      | ownedValue hstands =>
          rcases hstands.asKind?_eq hkind with ⟨r, hr, hvia⟩
          refine ⟨.typed k r, w, ?_, .typed hkind hvia, hrefl⟩
          simp only [Turn.run, OwnedValue.tryKind, OwnedValue.takeKind, hr]
          exact Returns.bind (Returns.bind (Returns.pure _ w) (Returns.pure _ w)) (Returns.pure _ w)
  | _ => exact ⟨_, w, Returns.pure _ w, h.bears, hrefl⟩

theorem bears_wrap (h : x.Bears t v) {k : RefKind} (hkind : v.kind = k.kind) :
    (x.wrap k).Bears t v := by
  cases h with
  | manualRef _ hvia => exact .manualValue (.behind hkind hvia)
  | typed hkind' hvia => exact .ownedValue (.behind hkind' hvia)
  | manualValue hstands => exact .manualValue hstands
  | ownedRef hkind' hvia => exact .ownedRef hkind' hvia
  | ownedValue hstands => exact .ownedValue hstands

theorem returns_due (h : Held es t v x w) {m : Nat}
    (hliveness : w.liveness = Liveness.owned true (m + 1)) :
    exists w', Returns (x.due.run x) w none w' ∧ Beside t w [] w' := by
  have hrefl := Beside.refl h.ample
  have hcons {id : RefId} (hid : x.id? = some id) : Ledger ((id, v) :: es.erase (id, v)) w :=
    h.ledger.perm (List.perm_cons_erase (h.mem id hid))
  have hmanual {r : ManualRef} (hid : x.id? = some r.id) :
      exists w', Returns r.release w () w' ∧ Beside t w [] w' :=
    returns_registryUnref_beside (hcons hid) h.ample
  have howned {r : OwnedRef} (hvia : r.Via t) (hid : x.id? = some r.id) :
      exists w', Returns r.drop w () w' ∧ Beside t w [] w' :=
    OwnedRef.returns_drop (hcons hid) h.ample hvia hliveness
  cases h.bears with
  | manualRef _ _ =>
      rcases hmanual rfl with ⟨w', hrun, hbeside⟩
      exact ⟨w', Returns.bind hrun (Returns.pure _ _), hbeside⟩
  | manualValue hstands =>
      cases hstands with
      | @behind _ k r _ _ =>
          rcases hmanual (r := r) rfl with ⟨w', hrun, hbeside⟩
          exact ⟨w', Returns.bind hrun (Returns.pure _ _), hbeside⟩
      | _ => exact ⟨w, Returns.pure _ w, hrefl⟩
  | ownedRef _ hvia =>
      rcases howned hvia rfl with ⟨w', hrun, hbeside⟩
      exact ⟨w', Returns.bind hrun (Returns.pure _ _), hbeside⟩
  | ownedValue hstands =>
      cases hstands with
      | @behind _ k r _ hvia =>
          rcases howned hvia rfl with ⟨w', hrun, hbeside⟩
          exact ⟨w', Returns.bind hrun (Returns.pure _ _), hbeside⟩
      | _ => exact ⟨w, Returns.pure _ w, hrefl⟩
  | typed _ hvia =>
      rcases howned hvia rfl with ⟨w', hrun, hbeside⟩
      exact ⟨w', Returns.bind hrun (Returns.pure _ _), hbeside⟩

/-!
# Reading what is held
-/

theorem returns_push (h : Held es t v x w) (hample : w.Ample (x.target t') 1) :
    exists a w', Returns (x.push t') w a w' ∧ Loaded (x.target t') w [v] w' := by
  -- a plain value is pushed on the stack that is asked for, and a registered one on that of its
  -- handle
  have hscalar : x.target t' = t' -> exists w', Returns (pushNew t' v) w () w' ∧
      Loaded (x.target t') w [v] w' := by
    intro htarget
    rw [htarget] at hample ⊢
    rcases (needs_pushNew hample.live v).returns hample.fits with ⟨_, w', hrun, hloaded⟩
    exact ⟨w', hrun, hloaded⟩
  have hpush {id : RefId} (hid : x.id? = some id) :
      exists w', Returns (pushRef (x.target t') id) w v.kind w' ∧ Loaded (x.target t') w [v] w' :=
    returns_pushRef_loaded h.ledger (h.mem id hid) hample
  cases h.bears with
  | manualRef _ _ =>
      rcases hpush rfl with ⟨w', hrun, hloaded⟩
      exact ⟨_, w', Returns.bind hrun (Returns.pure _ _), hloaded⟩
  | manualValue hstands =>
      cases hstands with
      | behind _ _ =>
          rcases hpush rfl with ⟨w', hrun, hloaded⟩
          exact ⟨_, w', Returns.bind (Returns.bind hrun (Returns.pure _ _)) (Returns.pure _ _),
            hloaded⟩
      | _ =>
          rcases hscalar rfl with ⟨w', hrun, hloaded⟩
          exact ⟨_, w', Returns.bind hrun (Returns.pure _ _), hloaded⟩
  | ownedRef _ _ =>
      rcases hpush rfl with ⟨w', hrun, hloaded⟩
      exact ⟨_, w', Returns.bind hrun (Returns.pure _ _), hloaded⟩
  | ownedValue hstands =>
      cases hstands with
      | behind _ _ =>
          rcases hpush rfl with ⟨w', hrun, hloaded⟩
          exact ⟨_, w', Returns.bind (Returns.bind hrun (Returns.pure _ _)) (Returns.pure _ _),
            hloaded⟩
      | _ =>
          rcases hscalar rfl with ⟨w', hrun, hloaded⟩
          exact ⟨_, w', Returns.bind hrun (Returns.pure _ _), hloaded⟩
  | typed _ _ =>
      rcases hpush rfl with ⟨w', hrun, hloaded⟩
      exact ⟨_, w', Returns.bind hrun (Returns.pure _ _), hloaded⟩

theorem returns_typeOf_owned {r : OwnedRef} (hledger : Ledger es w) (hmem : (r.id, v) ∈ es)
    (hample : w.Ample r.thread 1) :
    exists w', Returns r.typeOf w v.kind w' ∧ Beside r.thread w [] w' := by
  rcases returns_pushRef_loaded hledger hmem hample with ⟨w₁, hpush, hloaded⟩
  rcases returns_pop_loaded [] [v] hample.live hample.based hloaded with ⟨w', hpop, hpopped⟩
  refine ⟨w', ?_, Beside.ofLoaded w.log hpopped⟩
  exact Returns.bind hpush (Returns.bind hpop (Returns.pure _ _))

theorem returns_typeOf (h : Held es t v x w) {ask : M Kind} (hask : x.typeOf? = some ask) :
    exists w', Returns ask w v.kind w' ∧ Beside t w [] w' := by
  have hrefl := Beside.refl h.ample
  cases h.bears with
  | manualRef _ _ => cases hask
  | manualValue hstands =>
      cases hask
      rw [hstands.kind_eq]
      exact ⟨w, Returns.pure _ w, hrefl⟩
  | ownedValue hstands =>
      cases hask
      rw [hstands.kind_eq]
      exact ⟨w, Returns.pure _ w, hrefl⟩
  | @ownedRef k r hkind hvia =>
      cases hask
      have hample := h.ample_one hkind
      have hmem := h.mem r.id rfl
      rcases hvia with ⟨rfl, _⟩
      exact returns_typeOf_owned h.ledger hmem hample
  | @typed k r hkind hvia =>
      cases hask
      have hample := h.ample_one hkind
      have hmem := h.mem r.id rfl
      rcases hvia with ⟨rfl, _⟩
      exact returns_typeOf_owned h.ledger hmem hample

end Held

/-!
# Conversions
-/

/-- One conversion of a handle into another. -/
inductive Conversion where
  /-- A copy beside the handle that was copied. -/
  | copy
  /-- A copy in the place of the handle that was copied, which is ended. -/
  | renew
  | turn (a : Turn)
  | wrap (k : RefKind)

/-- What is held afterwards, if anything. -/
def Conversion.run : Conversion → Handle → M (Option Handle)
  | .copy, x => do return some (← x.copy)
  | .renew, x => do
    let y ← x.copy
    let _ ← x.due.run x
    return some y
  | .turn a, x => a.run x
  | .wrap k, x => return some (x.wrap k)

/-- A conversion that a value of a type can go through: it neither ends the handle nor takes it for
one of another type. -/
def Conversion.Fits (kind : Kind) : Conversion → Prop
  | .turn .release | .turn .drop => False
  | .turn (.asKind k) | .turn (.tryKind k) | .wrap k => k.kind = kind
  | _ => True

/-- How many handles there are more than before. -/
def Conversion.added : Conversion → Nat
  | .copy => 1
  | _ => 0

/-- Goes through conversions in order, as long as something is held. -/
def convert : List Conversion → Handle → M (Option Handle)
  | [], x => return some x
  | c :: cs, x => do
    match ← c.run x with
    | some y => convert cs y
    | none => return none

/-- Detaches the value at an index, to be released by hand or not. -/
def detach (safe : Bool) (t : ThreadId) (idx : Int) : M Handle :=
  createHandle t (if safe then .ownedValueIndex idx else .manualValueIndex idx)

/-!
# What every conversion keeps
-/

/-- A handle that a run holds for a value besides others, of which `n` are copies for the same
value; the stack is as it was. -/
structure Carried (s : State) (t : ThreadId) (v : Value) (n : Nat) (x : Handle) (w : World) :
    Prop where
  bears : x.Bears t v
  beside : Beside t s.world [] w
  sound : exists others, Sound { s with world := w, held := ⟨x, v⟩ :: others } ∧
    (entriesOf others).length ≤ (entriesOf s.held).length + n

variable {s : State} {idx : Int} {n : Nat} {y : Handle} {w' : World}

theorem id_ne_of_bears (h : x.Bears t v) {id : RefId} (hid : x.id? = some id) : id ≠ nilRef := by
  cases h with
  | manualRef _ hvia =>
      cases hid
      exact hvia.2
  | manualValue hstands => exact (Handle.StandsFor.manual hstands).id_ne hid
  | ownedRef _ hvia =>
      cases hid
      exact hvia.2.1
  | ownedValue hstands => exact (Handle.StandsFor.owned hstands).id_ne hid
  | typed _ hvia =>
      cases hid
      exact hvia.2.1

theorem ne_closed (hrunning : s.phase = .running) : s.phase ≠ .closed := by
  rw [hrunning]
  exact nofun

theorem held_of_sound {hs : List Holding} (hrunning : s.phase = .running)
    (hsound : Sound { s with world := w, held := hs }) (hx : ⟨x, v⟩ ∈ hs) (hbears : x.Bears t v)
    (hbeside : Beside t s.world [] w) (hample : s.world.Ample t v.roomToRegister) :
    Held (entriesOf hs ++ s.lapsed) t v x w := by
  refine ⟨hbears, hsound.ledger (ne_closed hrunning), fun id hid => ?_, hbeside.ample hample⟩
  refine List.mem_append_left _ (entries_of_mem hx ?_)
  rw [entries_of_id hid (id_ne_of_bears hbears hid)]
  exact List.mem_singleton_self _

namespace Carried

theorem held (h : Carried s t v n x w) (hrunning : s.phase = .running)
    (hample : s.world.Ample t v.roomToRegister) :
    exists es, Held es t v x w ∧ es.length ≤ s.entries.length + n + 1 := by
  rcases h.sound with ⟨others, hsound, hlength⟩
  refine ⟨_, held_of_sound hrunning hsound (List.mem_cons_self ..) h.bears h.beside hample, ?_⟩
  have hone := Agreeing.length_entries_le_one ⟨x, v⟩
  simp only [State.entries, entriesOf, List.flatMap_cons, List.length_append] at hone hlength ⊢
  omega

/-!
# One conversion
-/

theorem copied (h : Carried s t v n x w) (hrunning : s.phase = .running)
    (hroom : s.entries.length + n + 1 < maxHandles) (hrun : Returns x.copy w y w') :
    exists others, Sound { s with world := w', held := ⟨y, v⟩ :: ⟨x, v⟩ :: others } ∧
      (entriesOf others).length ≤ (entriesOf s.held).length + n := by
  rcases h.sound with ⟨others, hsound, hlength⟩
  have hone := Agreeing.length_entries_le_one ⟨x, v⟩
  have hnumbers : (entriesOf (⟨x, v⟩ :: others) ++ s.lapsed).length < maxHandles := by
    simp only [State.entries, entriesOf, List.flatMap_cons, List.length_append] at *
    omega
  refine ⟨others, sound_step hsound ?_, hlength⟩
  exact .copy (x := ⟨x, v⟩) (ne_closed hrunning) (List.mem_cons_self ..) hnumbers (hrun idle)

theorem returns_copy (h : Carried s t v n x w) (hrunning : s.phase = .running)
    (hample : s.world.Ample t v.roomToRegister) (hroom : s.entries.length + n + 1 < maxHandles) :
    exists y w', Returns (Conversion.run .copy x) w (some y) w' ∧ Carried s t v (n + 1) y w' := by
  rcases h.held hrunning hample with ⟨es, hheld, _⟩
  rcases hheld.returns_copy (by omega) with ⟨y, w', hrun, hy, hbeside⟩
  rcases h.copied hrunning hroom hrun with ⟨others, hsound, hlength⟩
  refine ⟨y, w', Returns.bind hrun (Returns.pure _ _), hy, h.beside.trans hbeside, _, hsound, ?_⟩
  have hone := Agreeing.length_entries_le_one ⟨x, v⟩
  simp only [entriesOf, List.flatMap_cons, List.length_append] at *
  omega

/-- The handle that was copied is ended when the copy has its own number. -/
theorem returns_renew (h : Carried s t v n x w) (hrunning : s.phase = .running)
    (hample : s.world.Ample t v.roomToRegister) (hroom : s.entries.length + n + 1 < maxHandles) :
    exists y w', Returns (Conversion.run .renew x) w (some y) w' ∧ Carried s t v n y w' := by
  rcases h.held hrunning hample with ⟨es, hheld, _⟩
  rcases hheld.returns_copy (by omega) with ⟨y, w₁, hcopy, hy, hbeside₁⟩
  rcases h.copied hrunning hroom hcopy with ⟨others, hsound, hlength⟩
  have hbeside := h.beside.trans hbeside₁
  have hmem : Holding.mk x v ∈ (⟨y, v⟩ :: ⟨x, v⟩ :: others : List Holding) :=
    List.mem_cons_of_mem _ (List.mem_cons_self ..)
  have hliveness := hsound.liveness_eq
  dsimp only at hliveness
  rw [hrunning] at hliveness
  rcases (held_of_sound hrunning hsound hmem h.bears hbeside hample).returns_due hliveness with
    ⟨w₂, hdue, hbeside₂⟩
  have hparts : (⟨y, v⟩ :: ⟨x, v⟩ :: others : List Holding) = [⟨y, v⟩] ++ ⟨x, v⟩ :: others := rfl
  have hgone := sound_step hsound (.gone (ne_closed hrunning) hparts (hdue idle))
  dsimp only at hgone
  rw [remainder_running hrunning] at hgone
  refine ⟨y, w₂, ?_, hy, hbeside.trans hbeside₂, others, hgone, hlength⟩
  exact Returns.bind hcopy (Returns.bind hdue (Returns.pure _ _))

theorem turned (h : Carried s t v n x w) (hrunning : s.phase = .running) {a : Turn}
    (hturn : exists y w', Returns (a.run x) w (some y) w' ∧ y.Bears t v ∧ Beside t w [] w') :
    exists y w', Returns (a.run x) w (some y) w' ∧ Carried s t v n y w' := by
  rcases hturn with ⟨y, w', hrun, hy, hbeside⟩
  rcases h.sound with ⟨others, hsound, hlength⟩
  refine ⟨y, w', hrun, hy, h.beside.trans hbeside, others, ?_, hlength⟩
  have hparts : (⟨x, v⟩ :: others : List Holding) = [] ++ ⟨x, v⟩ :: others := rfl
  have hturned := sound_step hsound (.turn (ne_closed hrunning) hparts (hrun idle))
  exact hturned

theorem wrapped (h : Carried s t v n x w) (hrunning : s.phase = .running) {k : RefKind}
    (hkind : v.kind = k.kind) : Carried s t v n (x.wrap k) w := by
  rcases h.sound with ⟨others, hsound, hlength⟩
  refine ⟨Held.bears_wrap h.bears hkind, h.beside, others, ?_, hlength⟩
  have hparts : (⟨x, v⟩ :: others : List Holding) = [] ++ ⟨x, v⟩ :: others := rfl
  have hstanding := hsound.standing (ne_closed hrunning) hparts
  refine hsound.replaced hparts (hstanding.congr ?_ ?_ fun k' hk' => ?_)
  · cases x <;> rfl
  · cases x <;> rfl
  · cases x with
    | manualRef r =>
        cases hk'
        exact hkind
    | _ => exact hstanding.suits.kind_eq k' hk'

/-- Going through a conversion leaves a handle of some sort for the same value. -/
theorem conversion (h : Carried s t v n x w) (hrunning : s.phase = .running)
    (hample : s.world.Ample t v.roomToRegister) (c : Conversion) (hfits : c.Fits v.kind)
    (hroom : s.entries.length + n + 1 < maxHandles) :
    exists y w', Returns (c.run x) w (some y) w' ∧ Carried s t v (n + c.added) y w' := by
  rcases h.held hrunning hample with ⟨es, hheld, _⟩
  cases c with
  | copy => exact h.returns_copy hrunning hample hroom
  | renew => exact h.returns_renew hrunning hample hroom
  | turn a =>
      refine h.turned hrunning ?_
      cases a with
      | release => exact absurd hfits not_false
      | drop => exact absurd hfits not_false
      | intoSafe => exact hheld.returns_intoSafe
      | intoUnsafe => exact hheld.returns_intoUnsafe
      | intoInner => exact hheld.returns_intoInner
      | asKind k => exact hheld.returns_asKind hfits.symm
      | tryKind k => exact hheld.returns_tryKind hfits.symm
  | wrap k => exact ⟨_, w, Returns.pure _ w, h.wrapped hrunning hfits.symm⟩

end Carried

/-!
# Whole chains
-/

theorem returns_convert (hrunning : s.phase = .running)
    (hample : s.world.Ample t v.roomToRegister) (cs : List Conversion) :
    forall {n : Nat} {x : Handle} {w : World}, Carried s t v n x w ->
      (forall c, c ∈ cs -> c.Fits v.kind) ->
      s.entries.length + n + (cs.map Conversion.added).sum + 1 < maxHandles ->
      exists m y w', Returns (convert cs x) w (some y) w' ∧ Carried s t v m y w' := by
  induction cs with
  | nil => exact fun {n x w} h _ _ => ⟨n, x, w, Returns.pure _ w, h⟩
  | cons c cs ih =>
      intro n x w h hfits hroom
      rw [List.map_cons, List.sum_cons] at hroom
      rcases h.conversion hrunning hample c (hfits c (List.mem_cons_self ..)) (by omega) with
        ⟨y, w₁, hrun, h₁⟩
      rcases ih h₁ (fun c' hc' => hfits c' (List.mem_cons_of_mem _ hc')) (by omega) with
        ⟨m, z, w₂, hruns, h₂⟩
      exact ⟨m, z, w₂, Returns.bind hrun hruns, h₂⟩

theorem carried_created (hsound : Sound s) (hrunning : s.phase = .running)
    (hvalue : s.world.value? t idx = some v) (hroom : s.entries.length < maxHandles)
    {c : CreateStep} (hidx : c.index? = some idx) (hrun : Returns (createHandle t c) s.world x w)
    (hx : x.Bears t v) (hbeside : Beside t s.world [] w) : Carried s t v 0 x w := by
  have hmade := sound_step hsound (.create (ne_closed hrunning) hidx hroom (hrun idle))
  rw [valueAt_of_value? hvalue] at hmade
  exact ⟨hx, hbeside, s.held, hmade, Nat.le_refl _⟩

theorem returns_detach (hsound : Sound s) (hrunning : s.phase = .running)
    (hvalid : validIndex (s.world.thread t).height idx = true)
    (hvalue : s.world.value? t idx = some v) (hample : s.world.Ample t v.roomToRegister)
    (hroom : s.entries.length < maxHandles) (safe : Bool) :
    exists x w, Returns (detach safe t idx) s.world x w ∧ Carried s t v 0 x w := by
  have hledger := hsound.ledger (ne_closed hrunning)
  have hmanual : exists (d : ManualValue) (w : World),
      Returns (ManualValue.fromIndex t idx) s.world d w ∧
        d.StandsFor (ManualRef.Via t) (some v) ∧ Beside t s.world [] w := by
    by_cases hobject : exists k : RefKind, v.kind = k.kind
    · rcases hobject with ⟨k, hk⟩
      rw [RefKind.roomToRegister hk] at hample
      exact ManualValue.returns_fromIndex_behind hledger hroom hample hvalid hvalue hk
    · have hplain (k : RefKind) : v.kind ≠ k.kind := fun hk => hobject ⟨k, hk⟩
      rcases ManualValue.returns_fromIndex_plain hvalue hvalid hplain with ⟨d, hrun, hstands⟩
      exact ⟨d, s.world, hrun, hstands, Beside.refl hample⟩
  rcases hmanual with ⟨d, w₁, hdetach, hstands, hbeside⟩
  have hcreate : Returns (createHandle t (.manualValueIndex idx)) s.world (.manualValue d) w₁ :=
    Returns.bind hdetach (Returns.pure _ _)
  have hcarried := carried_created hsound hrunning hvalue hroom rfl hcreate (.manualValue hstands)
    hbeside
  cases safe with
  | false => exact ⟨_, w₁, hcreate, hcarried⟩
  | true =>
      rcases hcarried.held hrunning hample with ⟨es, hheld, _⟩
      rcases hheld.returns_fromManual with ⟨d', w₂, hadopt, hstands', hbeside'⟩
      have howned : Returns (createHandle t (.ownedValueIndex idx)) s.world (.ownedValue d') w₂ :=
        Returns.bind (Returns.bind hdetach hadopt) (Returns.pure _ _)
      exact ⟨_, w₂, howned, carried_created hsound hrunning hvalue hroom rfl howned
        (.ownedValue hstands') (hbeside.trans hbeside')⟩

theorem target_of_bears (h : x.Bears t v) (t' : ThreadId) : x.target t' = t' ∨ x.target t' = t := by
  cases h with
  | manualRef _ hvia => exact .inr hvia.1
  | manualValue _ => exact .inl rfl
  | ownedRef _ hvia => exact .inr hvia.1
  | ownedValue _ => exact .inl rfl
  | typed _ hvia => exact .inr hvia.1

/-- Every value is equal to itself but a `NaN`. -/
theorem rawEq_self (v : Value) :
    v.rawEq v = true ↔ forall f, v = .float f -> f.isNaN = false := by
  cases v with
  | float f => simp [Value.rawEq, Double.eq_iff]
  | _ => simp [Value.rawEq]

/-- A value at an index is detached and goes through conversions that fit it.  Whatever is held then,
and so whatever is held on the way, tells the value's type and pushes the value itself on any stack
with room for it; the value is raw-equal to the one at the index unless it is a `NaN`, and that one
is still there. -/
theorem run_converts {libraries : Bool} {E : Engine} {w₀ : World}
    (hopen : openMachine libraries E freshWorld = .ok () w₀) (hrun : Run { world := w₀ } s)
    (hrunning : s.phase = .running) (hvalid : validIndex (s.world.thread t).height idx = true)
    (hvalue : s.world.value? t idx = some v) (hample : s.world.Ample t v.roomToRegister)
    (safe : Bool) (cs : List Conversion) (hfits : forall c, c ∈ cs -> c.Fits v.kind)
    (hnumbers : s.entries.length + (cs.map Conversion.added).sum + 1 < maxHandles) :
    exists x w, Returns (do convert cs (← detach safe t idx)) s.world (some x) w ∧
      (forall ask, x.typeOf? = some ask -> exists w', Returns ask w v.kind w' ∧ Beside t w [] w') ∧
      (forall k, x.refKind? = some k -> k.kind = v.kind) ∧
      (forall t', (x.target t' = t' ∨ x.target t' = t) ∧ (s.world.Ample (x.target t') 1 ->
        exists a w', Returns (x.push t') w a w' ∧ Loaded (x.target t') w [v] w')) ∧
      (v.rawEq v = true ↔ forall f, v = .float f -> f.isNaN = false) ∧
      Beside t s.world [] w ∧ w.value? t idx = some v ∧
      (w.thread t).values = (s.world.thread t).values := by
  have hsound := sound_run (sound_opened hopen) hrun
  rcases returns_detach hsound hrunning hvalid hvalue hample (by omega) safe with
    ⟨x₀, w₁, hdetach, hcarried⟩
  rcases returns_convert hrunning hample cs hcarried hfits (by omega) with
    ⟨n, x, w, hconvert, h⟩
  rcases h.held hrunning hample with ⟨es, hheld, _⟩
  have hkind : forall k, x.refKind? = some k -> k.kind = v.kind := by
    intro k hk
    rcases h.sound with ⟨others, hothers, _⟩
    exact ((hothers.suits ⟨x, v⟩ (List.mem_cons_self ..)).kind_eq k hk).symm
  refine ⟨x, w, Returns.bind hdetach hconvert, fun ask hask => hheld.returns_typeOf hask, hkind,
    fun t' => ⟨target_of_bears h.bears t', fun hroom => ?_⟩, rawEq_self v, h.beside, ?_,
    h.beside.raised.below.values_eq h.beside.raised.top_eq⟩
  · exact hheld.returns_push (h.beside.ample_any hroom)
  · rw [h.beside.value?_eq hample.based hvalid, hvalue]

/-- Handed over and back, taken out of its variant and put back, with copies on the way. -/
def wandering : List Conversion :=
  [.copy, .turn .intoSafe, .turn (.asKind .table), .renew, .wrap .table, .turn .intoUnsafe,
    .turn (.asKind .table), .turn .intoSafe]

theorem run_converts_looped :
    exists x w a w', Returns (do convert wandering (← detach false ⟨0⟩ 1)) Agreeing.loopedWorld
        (some x) w ∧
      Returns (x.push ⟨0⟩) w a w' ∧ Loaded ⟨0⟩ w [.table ⟨2⟩] w' ∧
      w.value? ⟨0⟩ 1 = some (.table ⟨2⟩) := by
  rcases Agreeing.loopedWorld_eq with ⟨hvalid, hvalue, _, _, hlive, hbased, hfits⟩
  have hample : Agreeing.loopedWorld.Ample ⟨0⟩ 1 := by
    refine Ample.mono ⟨hlive, hbased, hfits⟩ ?_
    unfold World.roomAt
    rw [hvalue]
    exact Nat.le_add_right 1 _
  have hwander : forall c, c ∈ wandering -> c.Fits (Value.table ⟨2⟩).kind := by
    intro c hc
    simp only [wandering, List.mem_cons, List.not_mem_nil, or_false] at hc
    rcases hc with rfl | rfl | rfl | rfl | rfl | rfl | rfl | rfl <;> trivial
  rcases run_converts ok_openedWorld Agreeing.run_looped rfl hvalid hvalue hample false wandering
    hwander (by decide) with ⟨x, w, hconvert, _, _, hpush, _, _, hstill, _⟩
  rcases hpush ⟨0⟩ with ⟨htarget, hpush⟩
  have htarget : x.target ⟨0⟩ = ⟨0⟩ := htarget.elim id id
  rw [htarget] at hpush
  rcases hpush hample with ⟨a, w', hpush, hloaded⟩
  exact ⟨x, w, a, w', hconvert, hpush, hloaded, hstill⟩

/-- A `NaN` that is detached and pushed again is not raw-equal to the one at the index. -/
theorem nan_returns_unequal :
    answer? (do
      pushNumber ⟨0⟩ ⟨0x7ff8000000000000⟩
      let d ← OwnedValue.fromIndex ⟨0⟩ 1
      d.push ⟨0⟩
      rawEqual ⟨0⟩ 1 2) openedWorld = some false := by
  decide +kernel

end Converting

end LuaHost
