import LuaHost.Proofs.Handle.Creating

/-!
# Using handles up

An operation that uses a handle up either puts another handle for the same
number in its place, or ends the number.  A handle that is dropped when its
machine does not run any longer leaves the number in the registry.
-/

namespace LuaHost

namespace Session

/-!
# Operations
-/

/-- What uses a handle up. -/
inductive Turn where
  | release
  | drop
  | intoSafe
  | intoUnsafe
  | intoInner
  | asKind (k : RefKind)
  | tryKind (k : RefKind)

/-- What is there in place of the handle; an operation on a handle of the wrong sort changes
nothing, and one that is released by hand is not released by dropping it. -/
def Turn.run : Turn → Handle → M (Option Handle)
  | .release, .manualRef r => do
    r.release
    return none
  | .release, .manualValue v => do
    ManualValue.release v
    return none
  | .drop, .ownedRef r | .drop, .typed _ r => do
    r.drop
    return none
  | .drop, .ownedValue v => do
    OwnedValue.drop v
    return none
  | .intoSafe, .manualRef r => return some (.ownedRef (← OwnedRef.fromManual r))
  | .intoSafe, .manualValue v => return some (.ownedValue (← OwnedValue.fromManual v))
  | .intoUnsafe, .ownedRef r => return some (.manualRef (← r.toManual))
  | .intoUnsafe, .ownedValue v => return some (.manualValue (← OwnedValue.toManual v))
  | .intoInner, .typed _ r => return some (.ownedRef r)
  | .asKind k, .manualValue v => return some ((v.asKind? k).elim (.manualValue v) .manualRef)
  | .asKind k, .ownedValue v => return (← OwnedValue.takeKind k v).map (.typed k)
  | .tryKind k, .ownedValue v => return (← OwnedValue.tryKind k v).toOption.map (.typed k)
  | _, x => return some x

/-- The operation that ends a handle's number. -/
def Handle.due : Handle → Turn
  | .manualRef _ | .manualValue _ => .release
  | _ => .drop

namespace Handle

theorem drop_eq (x : Handle) : x.drop = (x.owned?.elim (pure ()) OwnedRef.drop : M Unit) := by
  cases x with
  | ownedValue v => cases v <;> rfl
  | _ => rfl

theorem id?_of_owned {x : Handle} {r : OwnedRef} (h : x.owned? = some r) : x.id? = some r.id := by
  cases x with
  | ownedRef r' => cases h; rfl
  | typed k r' => cases h; rfl
  | ownedValue v =>
      cases v with
      | ref k r' => cases h; rfl
      | _ => cases h
  | _ => cases h

theorem entries_of_owned {x : Handle} {r : OwnedRef} (h : x.owned? = some r) (v : Value) :
    x.entries v = Interface.entry r.id v := by
  unfold entries
  rw [id?_of_owned h]

theorem shares_of_owned {x : Handle} {r : OwnedRef} (h : x.owned? = some r) : x.shares = 1 := by
  unfold shares
  rw [h]
  rfl

end Handle

end Session

namespace Interface

open Machine Session

variable {es : List (RefId × Value)} {w w' : World} {E : Engine} {v : Value} {alive : Bool}
  {m : Nat}

/-!
# Dropping
-/

/-- A handle for a value, in a registry that has `es` beside it, and with `m` owners of the flag
beside it. -/
structure Standing (es : List (RefId × Value)) (v : Value) (alive : Bool) (m : Nat) (x : Handle)
    (w : World) : Prop where
  suits : x.Suits v
  ledger : Ledger (x.entries v ++ es) w
  liveness_eq : w.liveness = Liveness.owned alive (m + x.shares)

/-- What is left in the registry of a handle that is gone. -/
def remainder (alive : Bool) (x : Handle) (v : Value) : List (RefId × Value) :=
  if x.owned?.isSome && !alive then x.entries v else []

theorem returns_isAlive_owned (h : w.liveness = Liveness.owned alive (m + 1)) :
    Returns isAlive w alive w := by
  have hread := returns_isAlive w
  rw [h] at hread
  exact hread

theorem returns_dropShare_owned (h : w.liveness = Liveness.owned alive (m + 1)) :
    Returns dropShare w () (w.withLiveness (Liveness.owned alive m)) := by
  have hdrop := returns_dropShare w
  rw [h, Liveness.less_owned] at hdrop
  exact hdrop

/-- A handle that outlives its machine is dropped without an operation on the machine. -/
theorem returns_drop_late {r : OwnedRef} (hflagged : r.flagged = true)
    (h : w.liveness = Liveness.owned false (m + 1)) :
    Returns r.drop w () (w.withLiveness (Liveness.owned false m)) := by
  unfold OwnedRef.drop
  rw [if_pos hflagged]
  exact Returns.bind (returns_isAlive_owned h) (returns_dropShare_owned h)

theorem returns_drop_early {r : OwnedRef} (hflagged : r.flagged = true)
    (hledger : Ledger (entry r.id v ++ es) w) (h : w.liveness = Liveness.owned true (m + 1)) :
    exists w', Returns r.drop w () w' ∧ Ledger es w' ∧ w'.liveness = Liveness.owned true m := by
  rcases returns_registryUnref hledger with ⟨w₁, hunref, hledger₁, hliveness₁⟩
  rw [h] at hliveness₁
  refine ⟨w₁.withLiveness (Liveness.owned true m), ?_, ?_, rfl⟩
  · unfold OwnedRef.drop
    rw [if_pos hflagged]
    refine Returns.bind (returns_isAlive_owned h) ?_
    exact Returns.bind hunref (returns_dropShare_owned hliveness₁)
  · exact hledger₁.spared (w₁.spared_withLiveness _)

theorem returns_dropHandle {x : Handle} (h : Standing es v alive m x w)
    (howned : x.owned?.isSome = true) :
    exists w', Returns x.drop w () w' ∧ Ledger (remainder alive x v ++ es) w' ∧
      w'.liveness = Liveness.owned alive m := by
  rcases Option.isSome_iff_exists.mp howned with ⟨r, hr⟩
  have hflagged := h.suits.flagged r hr
  have hliveness := h.liveness_eq
  rw [Handle.shares_of_owned hr] at hliveness
  have hdrop : x.drop = r.drop := by
    rw [Handle.drop_eq, hr]
    rfl
  rw [hdrop]
  cases alive with
  | true =>
      have hledger := h.ledger
      rw [Handle.entries_of_owned hr] at hledger
      rcases returns_drop_early hflagged hledger hliveness with ⟨w', hrun, hledger', hliveness'⟩
      have hnone : remainder true x v = [] := by
        unfold remainder
        rw [Bool.not_true, Bool.and_false]
        rfl
      rw [hnone]
      exact ⟨w', hrun, hledger', hliveness'⟩
  | false =>
      have hall : remainder false x v = x.entries v := by
        unfold remainder
        rw [howned]
        rfl
      rw [hall]
      exact ⟨_, returns_drop_late hflagged hliveness, h.ledger.spared (w.spared_withLiveness _),
        rfl⟩

/-!
# Every way to use a handle up
-/

/-- What has become of a handle. -/
inductive Turned (es : List (RefId × Value)) (v : Value) (alive : Bool) (m : Nat) (x : Handle) :
    Option Handle → World → Prop where
  | kept {x' : Handle} {w : World} : Standing es v alive m x' w ->
      Turned es v alive m x (some x') w
  | gone {w : World} : Ledger (remainder alive x v ++ es) w ->
      w.liveness = Liveness.owned alive m -> Turned es v alive m x none w

/-- A handle is the same for everything that the registry and the flag are concerned with. -/
theorem Standing.congr {x x' : Handle} (h : Standing es v alive m x w) (hid : x'.id? = x.id?)
    (howned : x'.owned? = x.owned?) (hkind : forall k, x'.refKind? = some k -> v.kind = k.kind) :
    Standing es v alive m x' w := by
  refine ⟨⟨?_, hkind, ?_⟩, ?_, ?_⟩
  · rw [hid]
    exact h.suits.nil_iff
  · rw [howned]
    exact h.suits.flagged
  · unfold Handle.entries
    rw [hid]
    exact h.ledger
  · unfold Handle.shares
    rw [howned]
    exact h.liveness_eq

/-- Every handle can be released or dropped, which ends its number and its share. -/
theorem returns_due {x : Handle} (h : Standing es v alive m x w) :
    exists w', Returns (x.due.run x) w none w' ∧ Ledger (remainder alive x v ++ es) w' ∧
      w'.liveness = Liveness.owned alive m := by
  -- a handle that is released by hand has no share, and one that is dropped gives up its own
  have hmanual {r : ManualRef} (hentries : x.entries v = entry r.id v) (howned : x.owned? = none) :
      exists w', Returns r.release w () w' ∧ Ledger (remainder alive x v ++ es) w' ∧
        w'.liveness = Liveness.owned alive m := by
    have hledger := h.ledger
    rw [hentries] at hledger
    rcases returns_registryUnref hledger with ⟨w', hrun, hledger', hliveness⟩
    have hliveness' := hliveness.trans h.liveness_eq
    unfold Handle.shares at hliveness'
    rw [howned] at hliveness'
    refine ⟨w', hrun, ?_, hliveness'⟩
    unfold remainder
    rw [howned]
    exact hledger'
  have howned (hsome : x.owned?.isSome = true) :
      exists w', Returns (do x.drop; return none : M (Option Handle)) w none w' ∧
        Ledger (remainder alive x v ++ es) w' ∧ w'.liveness = Liveness.owned alive m := by
    rcases returns_dropHandle h hsome with ⟨w', hrun, hrest⟩
    exact ⟨w', Returns.bind hrun (Returns.pure _ _), hrest⟩
  cases x with
  | manualRef r =>
      rcases hmanual rfl rfl with ⟨w', hrun, hrest⟩
      exact ⟨w', Returns.bind hrun (Returns.pure _ _), hrest⟩
  | ownedRef r => exact howned rfl
  | typed k r => exact howned rfl
  | manualValue d =>
      cases d with
      | ref k r =>
          rcases hmanual (r := r) rfl rfl with ⟨w', hrun, hrest⟩
          exact ⟨w', Returns.bind hrun (Returns.pure _ _), hrest⟩
      | _ => exact ⟨w, Returns.pure _ _, h.ledger, h.liveness_eq⟩
  | ownedValue d =>
      cases d with
      | ref k r => exact howned rfl
      | _ => exact ⟨w, Returns.pure _ _, h.ledger, h.liveness_eq⟩

theorem ends_due {x : Handle} (h : Standing es v alive m x w) (E : Engine) {R : World → Prop} :
    Ends (x.due.run x) E w (Turned es v alive m x) R := by
  rcases returns_due h with ⟨w', hrun, hledger, hliveness⟩
  exact hrun.ends (Turned.gone hledger hliveness)

theorem ends_release {x : Handle} (h : Standing es v alive m x w) (E : Engine) :
    Ends (Turn.run .release x) E w (Turned es v alive m x) fun w' => w.Kept w' := by
  cases x with
  | manualRef r => exact ends_due h E
  | manualValue d => exact ends_due h E
  | _ => exact Turned.kept h

theorem ends_drop {x : Handle} (h : Standing es v alive m x w) (E : Engine) :
    Ends (Turn.run .drop x) E w (Turned es v alive m x) fun w' => w.Kept w' := by
  cases x with
  | manualRef r => exact Turned.kept h
  | manualValue d => exact Turned.kept h
  | _ => exact ends_due h E

/-- Taking over a handle that is released by hand counts its share. -/
theorem Standing.ends_adopt {x : Handle} (h : Standing es v alive m x w) (hm : m ≠ 0) {id : RefId}
    (hid : x.id? = some id) (howned : x.owned? = none) {wrap : OwnedRef → Handle}
    {k : Option RefKind} (hwrap : Wraps wrap k)
    (hkind : forall k', k = some k' -> v.kind = k'.kind) (t : ThreadId) (E : Engine) :
    Ends (OwnedRef.adopt t id) E w (fun r w' => Standing es v alive m (wrap r) w')
      fun w' => w.Kept w' := by
  refine (Interface.ends_adopt h.ledger t E).imp ?_ fun _ h => h.1
  rintro r w' ⟨rfl, hshared⟩
  have hliveness := h.liveness_eq
  unfold Handle.shares at hliveness
  rw [howned] at hliveness
  refine ⟨⟨?_, ?_, ?_⟩, ?_, ?_⟩
  · intro id' hid'
    rw [hwrap.id_eq] at hid'
    cases hid'
    exact h.suits.nil_iff id hid
  · intro k' hk'
    rw [hwrap.kind_eq] at hk'
    exact hkind k' hk'
  · intro r hr
    rw [hwrap.owned_eq] at hr
    cases hr
    rfl
  · have hledger := h.ledger.spared hshared.toSpared
    unfold Handle.entries at hledger ⊢
    rw [hid] at hledger
    rw [hwrap.id_eq]
    exact hledger
  · rw [hshared.liveness_eq, hliveness, Handle.shares_of_owned (hwrap.owned_eq _)]
    exact Liveness.more_owned alive hm

theorem ends_intoSafe {x : Handle} (h : Standing es v alive m x w) (hm : m ≠ 0) (E : Engine) :
    Ends (Turn.run .intoSafe x) E w (Turned es v alive m x) fun w' => w.Kept w' := by
  cases x with
  | manualRef r =>
      exact (h.ends_adopt hm rfl rfl wraps_ownedRef nofun r.thread E).bind
        fun _ _ hstanding => Turned.kept hstanding
  | manualValue d =>
      cases d with
      | ref k r =>
          refine Ends.bind (P := fun d w' => Standing es v alive m (.ownedValue d) w') ?_
            fun _ _ hstanding => Turned.kept hstanding
          refine (h.ends_adopt hm rfl rfl (wraps_ownedValue k) ?_ r.thread E).bind
            fun _ _ hstanding => hstanding
          rintro _ ⟨⟩
          exact h.suits.kind_eq k rfl
      | _ => exact Turned.kept (h.congr rfl rfl nofun)
  | _ => exact Turned.kept h

/-- Giving a handle back to be released by hand gives up its share. -/
theorem Standing.returns_toManual {x : Handle} {r : OwnedRef} (h : Standing es v alive m x w)
    (hr : x.owned? = some r) (x' : Handle) (hid : x'.id? = some r.id) (howned : x'.owned? = none)
    (hkind : forall k, x'.refKind? = some k -> v.kind = k.kind) :
    exists w', Returns r.toManual w ⟨r.thread, r.id⟩ w' ∧ Standing es v alive m x' w' := by
  have hliveness := h.liveness_eq
  rw [Handle.shares_of_owned hr] at hliveness
  refine ⟨w.withLiveness (Liveness.owned alive m), ?_, ⟨⟨?_, hkind, ?_⟩, ?_, ?_⟩⟩
  · unfold OwnedRef.toManual
    rw [if_pos (h.suits.flagged r hr)]
    exact Returns.bind (returns_dropShare_owned hliveness) (Returns.pure _ _)
  · rw [hid, ← Handle.id?_of_owned hr]
    exact h.suits.nil_iff
  · rw [howned]
    exact nofun
  · have hledger := h.ledger.spared (w.spared_withLiveness (Liveness.owned alive m))
    rw [Handle.entries_of_owned hr] at hledger
    unfold Handle.entries
    rw [hid]
    exact hledger
  · unfold Handle.shares
    rw [howned]
    rfl

theorem ends_intoUnsafe {x : Handle} (h : Standing es v alive m x w) (E : Engine) :
    Ends (Turn.run .intoUnsafe x) E w (Turned es v alive m x) fun w' => w.Kept w' := by
  cases x with
  | ownedRef r =>
      rcases h.returns_toManual rfl (.manualRef ⟨r.thread, r.id⟩) rfl rfl nofun with
        ⟨w', hrun, hstanding⟩
      exact Ends.after hrun (Turned.kept hstanding)
  | ownedValue d =>
      cases d with
      | ref k r =>
          have hkind (k' : RefKind) (hk' : some k = some k') : v.kind = k'.kind := by
            cases hk'
            exact h.suits.kind_eq k rfl
          rcases h.returns_toManual rfl (.manualValue (.ref k ⟨r.thread, r.id⟩)) rfl rfl hkind
            with ⟨w', hrun, hstanding⟩
          refine Ends.after (Returns.bind hrun (Returns.pure _ _)) ?_
          exact Turned.kept hstanding
      | _ => exact Turned.kept (h.congr rfl rfl nofun)
  | _ => exact Turned.kept h

theorem ends_intoInner {x : Handle} (h : Standing es v alive m x w) (E : Engine) :
    Ends (Turn.run .intoInner x) E w (Turned es v alive m x) fun w' => w.Kept w' := by
  cases x with
  | typed k r => exact Turned.kept (h.congr rfl rfl nofun)
  | _ => exact Turned.kept h

/-- Taking the handle of a type out of a detached value drops a value of another type. -/
theorem ends_takeKind {d : OwnedValue} (h : Standing es v alive m (.ownedValue d) w) (k : RefKind)
    (E : Engine) :
    Ends (OwnedValue.takeKind k d) E w
      (fun r w' => Turned es v alive m (.ownedValue d) (r.map (.typed k)) w')
      fun w' => w.Kept w' := by
  -- a value of another type is dropped like any owned handle
  have hother (hnone : d.asKind? k = none) : Ends (OwnedValue.takeKind k d) E w
      (fun r w' => Turned es v alive m (.ownedValue d) (r.map (.typed k)) w')
      fun w' => w.Kept w' := by
    unfold OwnedValue.takeKind
    rw [hnone]
    refine Ends.bind (P := fun _ w' => Turned es v alive m (.ownedValue d) none w') ?_
      fun _ _ hturned => hturned
    cases hd : d.reference? with
    | none =>
        have hliveness := h.liveness_eq
        have hledger := h.ledger
        cases d with
        | ref k' r => cases hd
        | _ => exact Turned.gone hledger hliveness
    | some r =>
        have howned : (Handle.ownedValue d).owned?.isSome = true := by
          show d.reference?.isSome = true
          rw [hd]
          rfl
        rcases returns_dropHandle h howned with ⟨w', hrun, hledger, hliveness⟩
        exact hrun.ends (Turned.gone hledger hliveness)
  cases d with
  | ref k' r =>
      by_cases hk : k = k'
      · subst hk
        have hsame : (Detached.ref k r : OwnedValue).asKind? k = some r := if_pos rfl
        unfold OwnedValue.takeKind
        rw [hsame]
        refine Turned.kept (h.congr rfl rfl ?_)
        rintro _ ⟨⟩
        exact h.suits.kind_eq k rfl
      · exact hother (if_neg hk)
  | _ => exact hother rfl

theorem ends_asKind {x : Handle} (h : Standing es v alive m x w) (k : RefKind) (E : Engine) :
    Ends (Turn.run (.asKind k) x) E w (Turned es v alive m x) fun w' => w.Kept w' := by
  cases x with
  | manualValue d =>
      cases d with
      | ref k' r =>
          show Ends (pure (some (((if k = k' then some r else none : Option ManualRef)).elim
            (Handle.manualValue (.ref k' r)) .manualRef))) E w _ _
          by_cases hk : k = k'
          · rw [if_pos hk]
            exact Turned.kept (h.congr rfl rfl nofun)
          · rw [if_neg hk]
            exact Turned.kept h
      | _ => exact Turned.kept h
  | ownedValue d => exact (ends_takeKind h k E).bind fun _ _ hturned => hturned
  | _ => exact Turned.kept h

theorem ends_tryKind {x : Handle} (h : Standing es v alive m x w) (k : RefKind) (E : Engine) :
    Ends (Turn.run (.tryKind k) x) E w (Turned es v alive m x) fun w' => w.Kept w' := by
  cases x with
  | ownedValue d =>
      refine Ends.bind (P := fun (r : Except Fault OwnedRef) w' =>
        Turned es v alive m (.ownedValue d) (r.toOption.map (.typed k)) w') ?_
        fun _ _ hturned => hturned
      refine (ends_takeKind h k E).bind ?_
      intro r w' hturned
      cases r with
      | none => exact hturned
      | some r => exact hturned
  | _ => exact Turned.kept h

/-- However a handle is used up, its number is either with what came in its place or released; a
handle that could not be taken over is left. -/
theorem ends_turn {x : Handle} (h : Standing es v alive m x w) (hm : m ≠ 0) (turn : Turn)
    (E : Engine) : Ends (turn.run x) E w (Turned es v alive m x) fun w' => w.Kept w' := by
  cases turn with
  | release => exact ends_release h E
  | drop => exact ends_drop h E
  | intoSafe => exact ends_intoSafe h hm E
  | intoUnsafe => exact ends_intoUnsafe h E
  | intoInner => exact ends_intoInner h E
  | asKind k => exact ends_asKind h k E
  | tryKind k => exact ends_tryKind h k E

end Interface

end LuaHost
