import LuaHost.Proofs.Handle.Turning

/-!
# The threads of handles

A handle works through the thread from whose stack it was created.  Its copies do
so as well, and so does whatever it is turned into.
-/

namespace LuaHost

/-- The thread through which a handle works. -/
def Session.Handle.through? : Session.Handle → Option ThreadId
  | .manualRef r => some r.thread
  | .ownedRef r | .typed _ r => some r.thread
  | .manualValue v => v.reference?.map (·.thread)
  | .ownedValue v => v.reference?.map (·.thread)

namespace Machine

/-!
# What a computation returns
-/

/-- Whatever the computation returns has the property. -/
def Yields {α : Type} (P : α → Prop) (x : M α) : Prop :=
  forall E w a w', x E w = .ok a w' -> P a

namespace Yields

variable {α β : Type} {P : α → Prop} {Q : β → Prop}

theorem any (x : M α) : Yields (fun _ => True) x := fun _ _ _ _ _ => trivial

theorem pure {a : α} (h : P a) : Yields P (pure a) := by
  rintro _ _ _ _ ⟨⟩
  exact h

theorem bind {x : M α} {f : α → M β} (hx : Yields P x) (hf : forall a, P a -> Yields Q (f a)) :
    Yields Q (x >>= f) := by
  intro E w b w' hok
  rcases ok_bind hok with ⟨a, w₁, ha, hok⟩
  exact hf a (hx E w a w₁ ha) E w₁ b w' hok

theorem after (x : M α) {f : α → M β} (hf : forall a, Yields Q (f a)) : Yields Q (x >>= f) :=
  (any x).bind fun a _ => hf a

end Yields

end Machine

namespace Interface

open Machine Session

variable {o : Option ThreadId}

/-!
# The thread of a handle
-/

/-- A handle that works through a thread does so through this one. -/
def Through (o : Option ThreadId) (x : Handle) : Prop := forall u, x.through? = some u -> o = some u

theorem yields_adopt (t : ThreadId) (id : RefId) :
    Yields (fun r => some t = some r.thread) (OwnedRef.adopt t id) :=
  Yields.after _ fun _ => Yields.pure rfl

theorem yields_popFrom (t : ThreadId) :
    Yields (fun r => some t = some r.thread) (OwnedRef.popFrom t) :=
  Yields.after _ fun id => yields_adopt t id

theorem yields_popFrom_manual (t : ThreadId) :
    Yields (fun r => some t = some r.thread) (ManualRef.popFrom t) :=
  Yields.after _ fun _ => Yields.pure rfl

theorem yields_fromManual (r : ManualRef) :
    Yields (fun r' => some r.thread = some r'.thread) (OwnedRef.fromManual r) :=
  yields_adopt r.thread r.id

theorem yields_toManual (r : OwnedRef) :
    Yields (fun r' => some r.thread = some r'.thread) r.toManual := by
  unfold OwnedRef.toManual
  split
  · exact Yields.after _ fun _ => Yields.pure rfl
  · exact Yields.pure rfl

theorem yields_copy_manual (r : ManualRef) :
    Yields (fun r' => some r.thread = some r'.thread) r.copy :=
  Yields.after _ fun _ => yields_popFrom_manual r.thread

theorem yields_copy_owned (r : OwnedRef) :
    Yields (fun r' => some r.thread = some r'.thread) r.copy :=
  Yields.after _ fun _ => yields_popFrom r.thread

theorem through_manualRef {r : ManualRef} (h : o = some r.thread) : Through o (.manualRef r) := by
  rintro _ ⟨⟩
  exact h

theorem through_ownedRef {r : OwnedRef} (h : o = some r.thread) : Through o (.ownedRef r) := by
  rintro _ ⟨⟩
  exact h

theorem through_typed (k : RefKind) {r : OwnedRef} (h : o = some r.thread) :
    Through o (.typed k r) := by
  rintro _ ⟨⟩
  exact h

theorem through_manualValue {d : ManualValue}
    (h : forall r, d.reference? = some r -> o = some r.thread) : Through o (.manualValue d) := by
  intro u hu
  rcases Option.map_eq_some_iff.mp hu with ⟨r, hr, rfl⟩
  exact h r hr

theorem through_ownedValue {d : OwnedValue}
    (h : forall r, d.reference? = some r -> o = some r.thread) : Through o (.ownedValue d) := by
  intro u hu
  rcases Option.map_eq_some_iff.mp hu with ⟨r, hr, rfl⟩
  exact h r hr

/-- Handles that replace the one behind a value work through its thread, if each of them does. -/
theorem yields_mapM {ρ σ : Type} {f : ρ → M σ} {thread : ρ → ThreadId} {thread' : σ → ThreadId}
    (h : forall r, Yields (fun s => some (thread r) = some (thread' s)) (f r)) (d : Detached ρ) :
    Yields
      (fun d' => forall s, d'.reference? = some s -> d.reference?.map thread = some (thread' s))
      (d.mapM f) := by
  cases d with
  | ref k r =>
      refine (h r).bind fun s hs => Yields.pure ?_
      rintro _ ⟨⟩
      exact hs
  | _ => exact Yields.pure nofun

theorem yields_detach (t : ThreadId) (idx : Int) :
    Yields (fun d => forall r, d.reference? = some r -> some t = some r.thread)
      (ManualValue.fromIndex t idx) := by
  have hbehind (k : RefKind) :
      Yields (fun d => forall r, d.reference? = some r -> some t = some r.thread)
        (do return .ref k (← ManualRef.fromIndex t idx) : M ManualValue) := by
    have hfrom : Yields (fun r => some t = some r.thread) (ManualRef.fromIndex t idx) :=
      Yields.after _ fun _ => yields_popFrom_manual t
    refine hfrom.bind fun r hr => Yields.pure ?_
    rintro _ ⟨⟩
    exact hr
  refine Yields.after _ fun k => ?_
  cases k with
  | none => exact Yields.pure nofun
  | nil => exact Yields.pure nofun
  | boolean => exact Yields.after _ fun _ => Yields.pure nofun
  | number =>
      refine Yields.after _ fun integral => ?_
      cases integral with
      | true => exact Yields.after _ fun _ => Yields.pure nofun
      | false => exact Yields.after _ fun _ => Yields.pure nofun
  | lightUserData => exact Yields.after _ fun _ => Yields.pure nofun
  | string => exact hbehind .string
  | table => exact hbehind .table
  | function => exact hbehind .function
  | userData => exact hbehind .userData
  | thread => exact hbehind .thread

theorem yields_createHandle (t : ThreadId) (c : CreateStep) :
    Yields (Through (some t)) (createHandle t c) := by
  have hpop : Yields (fun d => forall r, d.reference? = some r -> some t = some r.thread)
      (ManualValue.popFrom t) :=
    (yields_detach t (-1)).bind fun _ hd => Yields.after _ fun _ => Yields.pure hd
  have howned {d : ManualValue} (hd : forall r, d.reference? = some r -> some t = some r.thread) :
      Yields (fun d' => forall r, d'.reference? = some r -> some t = some r.thread)
        (OwnedValue.fromManual d) := by
    intro E w d' w' hok r hr
    have hthread := yields_mapM yields_fromManual d E w d' w' hok r hr
    rcases Option.map_eq_some_iff.mp hthread with ⟨r', hr', heq⟩
    rw [hd r' hr', heq]
  cases c with
  | manualPop =>
      exact (yields_popFrom_manual t).bind fun _ hr => Yields.pure (through_manualRef hr)
  | manualIndex idx =>
      refine Yields.bind (P := fun r => some t = some r.thread) ?_
        fun _ hr => Yields.pure (through_manualRef hr)
      exact Yields.after _ fun _ => yields_popFrom_manual t
  | manualRaw id => exact Yields.pure (through_manualRef rfl)
  | manualValuePop => exact hpop.bind fun _ hd => Yields.pure (through_manualValue hd)
  | manualValueIndex idx =>
      exact (yields_detach t idx).bind fun _ hd => Yields.pure (through_manualValue hd)
  | ownedPop => exact (yields_popFrom t).bind fun _ hr => Yields.pure (through_ownedRef hr)
  | ownedIndex idx =>
      refine Yields.bind (P := fun r => some t = some r.thread) ?_
        fun _ hr => Yields.pure (through_ownedRef hr)
      exact Yields.after _ fun _ => yields_popFrom t
  | ownedValuePop =>
      exact (hpop.bind fun _ hd => howned hd).bind fun _ hd => Yields.pure (through_ownedValue hd)
  | ownedValueIndex idx =>
      exact ((yields_detach t idx).bind fun _ hd => howned hd).bind
        fun _ hd => Yields.pure (through_ownedValue hd)

theorem yields_copy (x : Handle) : Yields (Through x.through?) x.copy := by
  cases x with
  | manualRef r =>
      exact (yields_copy_manual r).bind fun _ hr => Yields.pure (through_manualRef hr)
  | manualValue d =>
      exact (yields_mapM yields_copy_manual d).bind
        fun _ hd => Yields.pure (through_manualValue hd)
  | ownedRef r => exact (yields_copy_owned r).bind fun _ hr => Yields.pure (through_ownedRef hr)
  | ownedValue d =>
      exact (yields_mapM yields_copy_owned d).bind fun _ hd => Yields.pure (through_ownedValue hd)
  | typed k r => exact (yields_copy_owned r).bind fun _ hr => Yields.pure (through_typed k hr)

theorem reference_of_asKind {ρ : Type} {k : RefKind} {d : Detached ρ} {r : ρ}
    (h : d.asKind? k = some r) : d.reference? = some r := by
  cases d with
  | ref k' r' =>
      have h : (if k = k' then some r' else none) = some r := h
      split at h
      · exact h
      · cases h
  | _ => cases h

theorem yields_takeKind (k : RefKind) (d : OwnedValue) :
    Yields (fun r => forall r', r = some r' -> d.reference? = some r')
      (OwnedValue.takeKind k d) := by
  unfold OwnedValue.takeKind
  cases hkind : d.asKind? k with
  | some r =>
      refine Yields.pure ?_
      rintro _ ⟨⟩
      exact reference_of_asKind hkind
  | none => exact Yields.after _ fun _ => Yields.pure nofun

theorem through_of_reference {d : OwnedValue} {r : OwnedRef} (k : RefKind)
    (h : d.reference? = some r) : Through (Handle.ownedValue d).through? (.typed k r) :=
  through_typed k (Option.map_eq_some_iff.mpr ⟨r, h, rfl⟩)

theorem through_self (x : Handle) : Through x.through? x := fun _ hu => hu

/-- What comes in the place of a handle works through the same thread. -/
theorem yields_turn (a : Turn) (x : Handle) :
    Yields (fun y => forall z, y = some z -> Through x.through? z) (a.run x) := by
  have hsome {z : Handle} (hz : Through x.through? z) :
      Yields (fun y => forall z, y = some z -> Through x.through? z)
        (pure (some z) : M (Option Handle)) := by
    refine Yields.pure ?_
    rintro _ ⟨⟩
    exact hz
  have hnone : Yields (fun y => forall z, y = some z -> Through x.through? z)
      (pure none : M (Option Handle)) :=
    Yields.pure nofun
  -- an operation that ends a handle yields none, and one that a handle does not have yields it as
  -- it was
  cases a with
  | release =>
      cases x with
      | manualRef r => exact Yields.after _ fun _ => hnone
      | manualValue d => exact Yields.after _ fun _ => hnone
      | _ => exact hsome (through_self _)
  | drop =>
      cases x with
      | ownedRef r => exact Yields.after _ fun _ => hnone
      | typed k r => exact Yields.after _ fun _ => hnone
      | ownedValue d => exact Yields.after _ fun _ => hnone
      | _ => exact hsome (through_self _)
  | intoSafe =>
      cases x with
      | manualRef r => exact (yields_fromManual r).bind fun _ hr => hsome (through_ownedRef hr)
      | manualValue d =>
          exact (yields_mapM yields_fromManual d).bind fun _ hd => hsome (through_ownedValue hd)
      | _ => exact hsome (through_self _)
  | intoUnsafe =>
      cases x with
      | ownedRef r => exact (yields_toManual r).bind fun _ hr => hsome (through_manualRef hr)
      | ownedValue d =>
          exact (yields_mapM yields_toManual d).bind fun _ hd => hsome (through_manualValue hd)
      | _ => exact hsome (through_self _)
  | intoInner =>
      cases x with
      | typed k r => exact hsome (through_ownedRef rfl)
      | _ => exact hsome (through_self _)
  | asKind k =>
      cases x with
      | manualValue d =>
          show Yields _ (pure (some ((d.asKind? k).elim (.manualValue d) .manualRef)) :
            M (Option Handle))
          cases hkind : d.asKind? k with
          | some r =>
              refine hsome (through_manualRef ?_)
              exact Option.map_eq_some_iff.mpr ⟨r, reference_of_asKind hkind, rfl⟩
          | none => exact hsome (through_self _)
      | ownedValue d =>
          refine (yields_takeKind k d).bind fun r hr => ?_
          cases r with
          | some r => exact hsome (through_of_reference k (hr r rfl))
          | none => exact hnone
      | _ => exact hsome (through_self _)
  | tryKind k =>
      cases x with
      | ownedValue d =>
          refine Yields.bind (P := fun r => forall r', r.toOption = some r' ->
            d.reference? = some r') ?_ fun r hr => ?_
          · refine (yields_takeKind k d).bind fun r hr => ?_
            cases r with
            | some r => exact Yields.pure hr
            | none => exact Yields.pure nofun
          · cases r with
            | ok r => exact hsome (through_of_reference k (hr r rfl))
            | error f => exact hnone
      | _ => exact hsome (through_self _)

end Interface

end LuaHost
