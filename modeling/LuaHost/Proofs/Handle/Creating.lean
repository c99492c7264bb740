import LuaHost.Proofs.Handle.Sharing
import LuaHost.Session.HandleSteps

/-!
# Creating handles

A handle is created in two steps: a value is pushed in a slot that is made for
it, and popped into the registry.  The slot that is popped leaves room to look
for the flag, so an owned handle gets its share once the value is registered.
-/

namespace LuaHost

/-!
# What a handle holds
-/

namespace Session.Handle

/-- The type that a handle says its value has. -/
def refKind? : Handle → Option RefKind
  | .manualValue (.ref k _) | .ownedValue (.ref k _) | .typed k _ => some k
  | _ => none

/-- The owned handle inside, which has a share in the flag. -/
def owned? : Handle → Option OwnedRef
  | .ownedRef r | .typed _ r => some r
  | .ownedValue v => v.reference?
  | _ => none

/-- How many shares in the flag a handle has. -/
def shares (h : Handle) : Nat := if h.owned?.isSome then 1 else 0

/-- What is registered for a handle that holds a value. -/
def entries (h : Handle) (v : Value) : List (Interface.RefId × Value) :=
  match h.id? with
  | some id => Interface.entry id v
  | none => []

/-- A handle that can hold a value: its number tells whether the value is `nil`, its
type is the value's, and an owned one has its share. -/
structure Suits (h : Handle) (v : Value) : Prop where
  nil_iff : forall id, h.id? = some id -> (id = Interface.nilRef ↔ v = .nil)
  kind_eq : forall k, h.refKind? = some k -> v.kind = k.kind
  flagged : forall r, h.owned? = some r -> r.flagged = true

end Session.Handle

/-- The index of the value that a step takes; a number is taken as it is. -/
def Session.CreateStep.index? : Session.CreateStep → Option Int
  | .manualPop | .manualValuePop | .ownedPop | .ownedValuePop => some (-1)
  | .manualIndex idx | .manualValueIndex idx | .ownedIndex idx | .ownedValueIndex idx => some idx
  | .manualRaw _ => none

namespace Thread

/-- A thread with one more value, which leaves room for another in its place. -/
structure Placed (v : Value) (th th' : Thread) : Prop extends th.Topped v th' where
  ready : (th'.drop 1).Ready 1

theorem placed_push {th th' : Thread} (h : th.Granted 1 th') (v : Value) :
    Placed v th (th'.push v) := by
  refine ⟨h.topped v, ?_⟩
  have hready := h.ready
  unfold Ready at hready ⊢
  have htop : ((th'.push v).drop 1).top = th'.top := Nat.add_sub_cancel _ _
  have hroom : ((th'.push v).drop 1).room = th'.room := room_push th' v
  rw [htop, hroom]
  rcases hready with hfits | hgrows
  · exact Or.inl hfits
  · exact Or.inr ⟨Nat.le_trans (Nat.le_of_eq hroom) hgrows.room_le,
      Nat.le_trans (Nat.le_of_eq (congrArg (· + 1) htop)) hgrows.top_le⟩

/-- A stack that lies within its room, as every stack does: so does a value in the
place of one that was removed. -/
def Within (th : Thread) : Prop :=
  th.top < th.room ∨ th.room ≤ Machine.maxStack ∧ th.top ≤ Machine.maxStack

theorem Within.ready {th : Thread} (h : th.Within) (hpos : 0 < th.top) : (th.drop 1).Ready 1 := by
  unfold Within at h
  have htop : (th.drop 1).top + 1 = th.top := Nat.sub_add_cancel hpos
  have hroom : (th.drop 1).room = th.room := rfl
  rcases h with hfits | hgrows
  · exact Or.inl (by omega)
  · exact Or.inr ⟨hgrows.1, by rw [htop]; exact hgrows.2⟩

end Thread

namespace Interface

open Machine Session

variable {es : List (RefId × Value)} {w w' : World} {t : ThreadId} {E : Engine} {v : Value}

/-- A handle that was created for a value, where `l` was the flag before. -/
structure Made (es : List (RefId × Value)) (v : Value) (l : Option Liveness) (h : Handle)
    (w : World) : Prop where
  suits : h.Suits v
  ledger : Ledger (h.entries v ++ es) w
  liveness_eq : w.liveness = if h.owned?.isSome then Liveness.more l else l

theorem made_plain {l : Option Liveness} {h : Handle} (hid : h.id? = none)
    (hkind : h.refKind? = none) (howned : h.owned? = none) (hledger : Ledger es w)
    (hliveness : w.liveness = l) : Made es v l h w := by
  refine ⟨⟨?_, ?_, ?_⟩, ?_, ?_⟩
  · rw [hid]
    exact nofun
  · rw [hkind]
    exact nofun
  · rw [howned]
    exact nofun
  · unfold Handle.entries
    rw [hid]
    exact hledger
  · rw [howned]
    exact hliveness

/-!
# Pushing into a slot that is made for the value
-/

/-- A value was pushed in a slot that was made for it. -/
def Placing (w : World) (t : ThreadId) (v : Value) (w' : World) : Prop :=
  exists th, Thread.Placed v (w.thread t) th ∧ w' = w.setThread t th

theorem placing_push {th : Thread} (h : (w.thread t).Granted 1 th) (v : Value) :
    exists w', Returns (push t v) (w.setThread t th) () w' ∧ Placing w t v w' :=
  ⟨_, returns_modifyThread_set _, _, Thread.placed_push h v, rfl⟩

theorem ends_reserve (w : World) (t : ThreadId) (n : Nat) (E : Engine) :
    Ends (reserve t n) E w
      (fun _ w' => exists th, (w.thread t).Granted n th ∧ w' = w.setThread t th)
      fun w' => w.Kept w' :=
  (keeps_reserve t n).ends fun _ _ hok => ok_reserve hok

theorem ends_checkIndex (w : World) (t : ThreadId) (idx : Int) (E : Engine) :
    Ends (checkIndex t idx) E w (fun _ w' => validIndex (w.thread t).height idx = true ∧ w' = w)
      fun w' => w.Kept w' := by
  refine (keeps_checkIndex t idx).ends ?_
  intro _ w' hok
  rcases ok_checkIndex hok with ⟨hvalid, rfl⟩
  exact ⟨hvalid, rfl⟩

theorem ends_pushValue (w : World) (t : ThreadId) (idx : Int) (E : Engine) :
    Ends (pushValue t idx) E w (fun _ w' => Placing w t (w.valueAt t idx) w')
      fun w' => w.Kept w' := by
  refine (ends_checkIndex w t idx E).bind ?_
  rintro _ w ⟨_, rfl⟩
  refine (ends_reserve w t 1 E).bind ?_
  rintro _ _ ⟨th, hgranted, rfl⟩
  refine Ends.after (returns_value_at _ t idx) ?_
  rw [World.valueAt_alike hgranted.toAlike]
  rcases placing_push hgranted (w.valueAt t idx) with ⟨w', hpush, hplacing⟩
  exact hpush.ends hplacing

theorem ends_pushRef (h : Ledger es w) {id : RefId} (hnil : id = nilRef -> v = .nil)
    (hmem : entry id v ⊆ es) (t : ThreadId) (E : Engine) :
    Ends (pushRef t id) E w (fun k w' => k = v.kind ∧ Placing w t v w') fun w' => w.Kept w' := by
  unfold pushRef
  by_cases hid : id = nilRef
  · rw [if_pos (by rw [hid]; rfl), hnil hid]
    refine Ends.bind (P := fun _ w' => Placing w t .nil w') ?_ fun _ _ hplacing => ⟨rfl, hplacing⟩
    refine (ends_reserve w t 1 E).bind ?_
    rintro _ _ ⟨th, hgranted, rfl⟩
    rcases placing_push hgranted .nil with ⟨w', hpush, hplacing⟩
    exact hpush.ends hplacing
  · rw [entry_of_ne hid] at hmem
    have hmem := hmem (List.mem_singleton_self (id, v))
    have hbounds := h.bounds hmem
    have hvalid : validIndex (w.thread t).height registryIndex = true := by
      unfold validIndex registryIndex
      simp
    rw [if_neg (by simp [hid, (ne_reserved hbounds.1).1])]
    refine Ends.after (returns_checkIndex hvalid) ?_
    refine (ends_reserve w t 1 E).bind ?_
    rintro _ _ ⟨th, hgranted, rfl⟩
    have hread : Returns (rawValue t registryIndex (refKey id)) (w.setThread t th) v
        (w.setThread t th) := by
      have htable : Returns (tableAt t registryIndex) (w.setThread t th) (some w.registry)
          (w.setThread t th) := Returns.bind (returns_value_registry _ t) (Returns.pure _ _)
      rw [← h.registered id v hmem]
      exact Returns.bind htable fun _ => rfl
    refine Ends.after hread ?_
    rcases placing_push hgranted v with ⟨w', hpush, hplacing⟩
    exact Ends.after hpush ⟨rfl, hplacing⟩

/-!
# Registering what was pushed
-/

/-- A value has been registered under a number, and its slot leaves room. -/
structure Registered (w : World) (t : ThreadId) (es : List (RefId × Value)) (v : Value)
    (id : RefId) (w' : World) : Prop extends Numbered w es v id w' where
  roomy : w'.Roomy t

theorem ends_register_placed (h : Ledger es w) (hroom : es.length < maxHandles)
    {w₁ : World} (hplacing : Placing w t v w₁) (E : Engine) :
    Ends (registryRef t) E w₁
      (fun id w' => Registered w t es v id w' ∧ (w'.thread t).height = (w.thread t).height)
      fun w' => w.Kept w' := by
  rcases hplacing with ⟨th, hplaced, rfl⟩
  have hkept := w.kept_setThread t th
  refine (ends_registryRef (h.spared hkept.toSpared) hroom t E).imp ?_ ?_
  · intro id w' htaken
    have hlive : w.liveThread t = true :=
      (World.liveThread_setThread w t t th).symm.trans htaken.live
    rcases htaken with ⟨⟨hnil, hledger, hliveness⟩, _, hlive', hbelow, hthread⟩
    rw [World.thread_setThread hlive] at hnil hledger hbelow hthread
    rw [hplaced.top_eq, Nat.add_sub_cancel, hplaced.slot_top] at hnil hledger
    have htop : (th.drop 1).top = (w.thread t).top := by
      show th.top - 1 = _
      rw [hplaced.top_eq, Nat.add_sub_cancel]
    have hbase : (th.drop 1).base = (w.thread t).base := hplaced.below.base_eq
    refine ⟨⟨⟨hnil, hledger, hliveness.trans hkept.liveness_eq⟩, ⟨hlive', ?_, ?_⟩⟩, ?_⟩
    · rw [hthread]
      exact hplaced.ready
    · rw [hthread]
      show th.base ≤ th.top - 1
      omega
    · rw [hthread]
      unfold Thread.height
      rw [htop, hbase]
  · rintro w' ⟨_, rfl⟩
    exact hkept

/-- Taking a number over for an owned handle fails only for lack of room. -/
theorem ends_adopt {id : RefId} (h : Ledger es w) (t : ThreadId) (E : Engine) :
    Ends (OwnedRef.adopt t id) E w (fun r w' => r = ⟨t, id, true⟩ ∧ w.Shared w')
      fun w' => w.Kept w' ∧ ¬w.Roomy t := by
  refine (ends_shareFlag h t E).bind ?_
  rintro _ w' ⟨rfl, hshared⟩
  exact ⟨rfl, hshared⟩

/-- A way to hold an owned handle, which says what type its value has or does not. -/
structure Wraps (wrap : OwnedRef → Handle) (k : Option RefKind) : Prop where
  id_eq : forall r, (wrap r).id? = some r.id
  kind_eq : forall r, (wrap r).refKind? = k
  owned_eq : forall r, (wrap r).owned? = some r

theorem wraps_ownedRef : Wraps .ownedRef none := ⟨fun _ => rfl, fun _ => rfl, fun _ => rfl⟩

theorem wraps_typed (k : RefKind) : Wraps (.typed k) (some k) :=
  ⟨fun _ => rfl, fun _ => rfl, fun _ => rfl⟩

theorem wraps_ownedValue (k : RefKind) : Wraps (fun r => .ownedValue (.ref k r)) (some k) :=
  ⟨fun _ => rfl, fun _ => rfl, fun _ => rfl⟩

namespace Numbered

variable {id : RefId}

/-- A handle that is released by hand takes the number as it is. -/
theorem made (h : Numbered w es v id w') {x : Handle} (hid : x.id? = some id)
    (hkind : forall k, x.refKind? = some k -> v.kind = k.kind) (howned : x.owned? = none) :
    Made es v w.liveness x w' := by
  refine ⟨⟨?_, hkind, ?_⟩, ?_, ?_⟩
  · intro id' hid'
    rw [hid] at hid'
    cases hid'
    exact h.nil_iff
  · rw [howned]
    exact nofun
  · unfold Handle.entries
    rw [hid]
    exact h.ledger
  · rw [howned]
    exact h.liveness_eq

/-- An owned handle moreover takes a share in the flag. -/
theorem made_shared (h : Numbered w es v id w') {w'' : World} (hshared : w'.Shared w'')
    {wrap : OwnedRef → Handle} {k : Option RefKind} (hwrap : Wraps wrap k)
    (hkind : forall k', k = some k' -> v.kind = k'.kind) (t : ThreadId) :
    Made es v w.liveness (wrap ⟨t, id, true⟩) w'' := by
  refine ⟨⟨?_, ?_, ?_⟩, ?_, ?_⟩
  · intro id' hid'
    rw [hwrap.id_eq] at hid'
    cases hid'
    exact h.nil_iff
  · intro k' hk'
    rw [hwrap.kind_eq] at hk'
    exact hkind k' hk'
  · intro r hr
    rw [hwrap.owned_eq] at hr
    cases hr
    rfl
  · unfold Handle.entries
    rw [hwrap.id_eq]
    exact h.ledger.spared hshared.toSpared
  · rw [hwrap.owned_eq, hshared.liveness_eq, h.liveness_eq]
    rfl

end Numbered

namespace Registered

variable {id : RefId}

theorem ends_adopt (hreg : Registered w t es v id w') {wrap : OwnedRef → Handle}
    {k : Option RefKind} (hwrap : Wraps wrap k)
    (hkind : forall k', k = some k' -> v.kind = k'.kind) (E : Engine) {R : World → Prop} :
    Ends (OwnedRef.adopt t id) E w' (fun r w'' => Made es v w.liveness (wrap r) w'') R := by
  refine (Interface.ends_adopt hreg.ledger t E).imp ?_ fun _ h => absurd hreg.roomy h.2
  rintro r w'' ⟨rfl, hshared⟩
  exact hreg.made_shared hshared hwrap hkind t

/-- The value below may be removed as well. -/
theorem dropped (hreg : Registered w t es v id w') (hheight : (w'.thread t).height ≠ 0) :
    Registered w t es v id (w'.setThread t ((w'.thread t).drop 1)) := by
  have hkept := w'.kept_setThread t ((w'.thread t).drop 1)
  have hthread := World.thread_setThread hreg.roomy.live ((w'.thread t).drop 1)
  have htop : ((w'.thread t).drop 1).top = (w'.thread t).top - 1 := rfl
  have hroom : ((w'.thread t).drop 1).room = (w'.thread t).room := rfl
  have hbase : ((w'.thread t).drop 1).base = (w'.thread t).base := rfl
  unfold Thread.height at hheight
  refine ⟨⟨hreg.nil_iff, hreg.ledger.spared hkept.toSpared,
    hkept.liveness_eq.trans hreg.liveness_eq⟩, ⟨?_, ?_, ?_⟩⟩
  · rw [World.liveThread_setThread]
    exact hreg.roomy.live
  · rw [hthread]
    rcases hreg.roomy.ready with hfits | hgrows
    · exact Or.inl (by omega)
    · exact Or.inr ⟨hgrows.room_le, Nat.le_trans (by omega) hgrows.top_le⟩
  · rw [hthread, htop, hbase]
    omega

end Registered

/-!
# Single handles
-/

theorem ends_fromIndex_manual (h : Ledger es w) (hroom : es.length < maxHandles) (t : ThreadId)
    (idx : Int) (E : Engine) :
    Ends (ManualRef.fromIndex t idx) E w
      (fun r w' => exists id, r = ⟨t, id⟩ ∧ Registered w t es (w.valueAt t idx) id w' ∧
        (w'.thread t).height = (w.thread t).height)
      fun w' => w.Kept w' := by
  refine (ends_pushValue w t idx E).bind ?_
  intro _ w₁ hplacing
  refine (ends_register_placed h hroom hplacing E).bind ?_
  rintro id w' ⟨hreg, hheight⟩
  exact ⟨id, rfl, hreg, hheight⟩

theorem ends_fromIndex_owned (h : Ledger es w) (hroom : es.length < maxHandles) (t : ThreadId)
    (idx : Int) (E : Engine) :
    Ends (OwnedRef.fromIndex t idx) E w
      (fun r w' => Made es (w.valueAt t idx) w.liveness (.ownedRef r) w') fun w' => w.Kept w' := by
  refine (ends_pushValue w t idx E).bind ?_
  intro _ w₁ hplacing
  refine (ends_register_placed h hroom hplacing E).bind ?_
  rintro id w' ⟨hreg, _⟩
  exact hreg.ends_adopt wraps_ownedRef nofun E

theorem ends_copy_manual (h : Ledger es w) (hroom : es.length < maxHandles) {r : ManualRef}
    (hnil : r.id = nilRef -> v = .nil) (hmem : entry r.id v ⊆ es) (E : Engine) :
    Ends r.copy E w (fun r' w' => exists id, r' = ⟨r.thread, id⟩ ∧ Registered w r.thread es v id w')
      fun w' => w.Kept w' := by
  refine (ends_pushRef h hnil hmem r.thread E).bind ?_
  rintro _ w₁ ⟨_, hplacing⟩
  refine (ends_register_placed h hroom hplacing E).bind ?_
  rintro id w' ⟨hreg, _⟩
  exact ⟨id, rfl, hreg⟩

theorem ends_copy_owned (h : Ledger es w) (hroom : es.length < maxHandles) {r : OwnedRef}
    (hnil : r.id = nilRef -> v = .nil) (hmem : entry r.id v ⊆ es) {wrap : OwnedRef → Handle}
    {k : Option RefKind} (hwrap : Wraps wrap k)
    (hkind : forall k', k = some k' -> v.kind = k'.kind) (E : Engine) :
    Ends r.copy E w (fun r' w' => Made es v w.liveness (wrap r') w') fun w' => w.Kept w' := by
  refine (ends_pushRef h hnil hmem r.thread E).bind ?_
  rintro _ w₁ ⟨_, hplacing⟩
  refine (ends_register_placed h hroom hplacing E).bind ?_
  rintro id w' ⟨hreg, _⟩
  exact hreg.ends_adopt hwrap hkind E

/-!
# Detached values
-/

/-- What a value at an index is detached to: it is copied, or registered. -/
inductive DetachedTo (w : World) (t : ThreadId) (es : List (RefId × Value)) (v : Value) :
    ManualValue → World → Prop where
  | plain {mv : ManualValue} {w' : World} : mv.reference? = none -> w.Kept w' ->
      DetachedTo w t es v mv w'
  | behind {k : RefKind} {id : RefId} {w' : World} : v.kind = k.kind ->
      Registered w t es v id w' -> DetachedTo w t es v (.ref k ⟨t, id⟩) w'

theorem ends_typeOf (w : World) (t : ThreadId) (idx : Int) (E : Engine) :
    Ends (Interface.typeOf t idx) E w
      (fun k w' => validIndex (w.thread t).height idx = true ∧
        (forall k' : RefKind, k = k'.kind -> (w.valueAt t idx).kind = k'.kind) ∧ w' = w)
      fun w' => w.Kept w' := by
  refine (ends_checkIndex w t idx E).bind ?_
  rintro _ w ⟨hvalid, rfl⟩
  refine Ends.after (returns_value?_at w t idx) ?_
  unfold World.value?
  by_cases hplace : w.placeOf (w.thread t) idx = .nowhere
  · rw [if_pos hplace]
    refine ⟨hvalid, ?_, rfl⟩
    intro k' hk'
    cases k' <;> cases hk'
  · rw [if_neg hplace]
    exact ⟨hvalid, fun k' hk' => hk', rfl⟩

/-- What a value is detached to, and that an object is not on the stack any longer. -/
def Detaches (w : World) (t : ThreadId) (es : List (RefId × Value)) (v : Value) (mv : ManualValue)
    (w' : World) : Prop :=
  DetachedTo w t es v mv w' ∧
    (mv.reference?.isSome = true -> (w'.thread t).height = (w.thread t).height)

/-- Detaching what is not an object: it is only looked at. -/
structure Plain (x : M ManualValue) : Prop where
  keeps : Keeps World.Kept x
  no_handle : forall E w mv w', x E w = .ok mv w' -> mv.reference? = none

theorem Plain.pure {mv : ManualValue} (h : mv.reference? = none) : Plain (pure mv) := by
  refine ⟨Keeps.pure mv, ?_⟩
  rintro _ _ _ _ ⟨⟩
  exact h

theorem Plain.bind {α : Type} {x : M α} {f : α → M ManualValue} (hx : Keeps World.Kept x)
    (hf : forall a, Plain (f a)) : Plain (x >>= f) := by
  refine ⟨hx.bind fun a => (hf a).keeps, ?_⟩
  intro E w mv w' hok
  rcases ok_bind hok with ⟨a, w₁, _, hok⟩
  exact (hf a).no_handle E w₁ mv w' hok

theorem Plain.detaches {x : M ManualValue} (hx : Plain x) (w : World) (t : ThreadId)
    (es : List (RefId × Value)) (v : Value) (E : Engine) :
    Ends x E w (Detaches w t es v) fun w' => w.Kept w' := by
  refine hx.keeps.ends ?_
  intro mv w' hok
  have hnone := hx.no_handle E w mv w' hok
  refine ⟨DetachedTo.plain hnone ((ends_iff.mp (hx.keeps.run E w)).1 mv w' hok), ?_⟩
  rw [hnone]
  exact nofun

theorem ends_detach_behind (h : Ledger es w) (hroom : es.length < maxHandles) {t : ThreadId}
    {idx : Int} {k : RefKind} (hkind : (w.valueAt t idx).kind = k.kind) (E : Engine) :
    Ends (do return .ref k (← ManualRef.fromIndex t idx) : M ManualValue) E w
      (Detaches w t es (w.valueAt t idx)) fun w' => w.Kept w' := by
  refine (ends_fromIndex_manual h hroom t idx E).bind ?_
  rintro _ w' ⟨id, rfl, hreg, hheight⟩
  exact ⟨DetachedTo.behind hkind hreg, fun _ => hheight⟩

theorem ends_detach (h : Ledger es w) (hroom : es.length < maxHandles) (t : ThreadId) (idx : Int)
    (E : Engine) :
    Ends (ManualValue.fromIndex t idx) E w
      (fun mv w' => validIndex (w.thread t).height idx = true ∧
        Detaches w t es (w.valueAt t idx) mv w')
      fun w' => w.Kept w' := by
  unfold ManualValue.fromIndex
  refine (ends_typeOf w t idx E).bind ?_
  rintro k w ⟨hvalid, hkind, rfl⟩
  have hbehind (k' : RefKind) (hk' : k = k'.kind) :=
    (ends_detach_behind h hroom (hkind k' hk') E).imp (fun _ _ hd => And.intro hvalid hd)
      fun _ hkept => hkept
  have hplain {x : M ManualValue} (hx : Plain x) :=
    (hx.detaches w t es (w.valueAt t idx) E).imp (fun _ _ hd => And.intro hvalid hd)
      fun _ hkept => hkept
  cases k with
  | none => exact hplain (Plain.pure rfl)
  | nil => exact hplain (Plain.pure rfl)
  | boolean => exact hplain (Plain.bind (keeps_toBoolean t idx) fun _ => Plain.pure rfl)
  | number =>
      refine hplain (Plain.bind (keeps_isInteger t idx) fun integral => ?_)
      cases integral with
      | true => exact Plain.bind (keeps_toInteger t idx) fun _ => Plain.pure rfl
      | false => exact Plain.bind (keeps_toNumber t idx) fun _ => Plain.pure rfl
  | lightUserData =>
      exact hplain (Plain.bind (keeps_toUserDataAddress t idx) fun _ => Plain.pure rfl)
  | string => exact hbehind .string rfl
  | table => exact hbehind .table rfl
  | function => exact hbehind .function rfl
  | userData => exact hbehind .userData rfl
  | thread => exact hbehind .thread rfl

theorem ends_detach_top (h : Ledger es w) (hroom : es.length < maxHandles) (t : ThreadId)
    (E : Engine) :
    Ends (ManualValue.popFrom t) E w (DetachedTo w t es (w.valueAt t (-1)))
      fun w' => w.Kept w' := by
  refine (ends_detach h hroom t (-1) E).bind ?_
  rintro mv w' ⟨hvalid, hdetached, hheight⟩
  cases hdetached with
  | plain hnone hkept =>
      refine Ends.bind (((keeps_pop t 1).run E w').imp (fun _ _ h => h) fun _ h => hkept.trans h) ?_
      intro _ w'' hkept'
      exact DetachedTo.plain hnone (hkept.trans hkept')
  | behind hkind hreg =>
      have hpos : (w'.thread t).height ≠ 0 := by
        rw [hheight rfl]
        unfold validIndex registryIndex at hvalid
        simp at hvalid
        omega
      refine Ends.after (returns_pop_one hpos) ?_
      exact DetachedTo.behind hkind (hreg.dropped hpos)

theorem DetachedTo.made {mv : ManualValue} (hledger : Ledger es w) (h : DetachedTo w t es v mv w') :
    Made es v w.liveness (.manualValue mv) w' := by
  cases h with
  | plain hnone hkept =>
      have hkind : (Handle.manualValue mv).refKind? = none := by
        cases mv with
        | ref k r => cases hnone
        | _ => rfl
      refine made_plain ?_ hkind rfl (hledger.spared hkept.toSpared) hkept.liveness_eq
      show mv.reference?.map _ = none
      rw [hnone]
      rfl
  | behind hkind hreg =>
      refine hreg.made rfl ?_ rfl
      rintro _ ⟨⟩
      exact hkind

theorem DetachedTo.ends_fromManual {mv : ManualValue} (hledger : Ledger es w)
    (h : DetachedTo w t es v mv w') (E : Engine) {R : World → Prop} :
    Ends (OwnedValue.fromManual mv) E w'
      (fun ov w'' => Made es v w.liveness (.ownedValue ov) w'') R := by
  cases h with
  | plain hnone hkept =>
      have hledger' := hledger.spared hkept.toSpared
      cases mv with
      | ref k r => cases hnone
      | _ => exact made_plain rfl rfl rfl hledger' hkept.liveness_eq
  | @behind k id _ hkind hreg =>
      refine Ends.bind (hreg.ends_adopt (wraps_ownedValue k) ?_ E) fun _ _ hmade => hmade
      rintro _ ⟨⟩
      exact hkind

/-!
# Every way to create a handle
-/

theorem valueAt_top (w : World) (t : ThreadId) :
    w.valueAt t (-1) = (w.thread t).slot ((w.thread t).top - 1) := by
  unfold World.valueAt World.placeOf
  rw [if_neg (by decide), if_pos (by decide),
    show (((w.thread t).top : Int) + -1).toNat = (w.thread t).top - 1 by omega]
  rfl

theorem ends_popFrom_manual (h : Ledger es w) (hroom : es.length < maxHandles) (t : ThreadId)
    (E : Engine) :
    Ends (ManualRef.popFrom t) E w
      (fun r w' => Made es (w.valueAt t (-1)) w.liveness (.manualRef r) w')
      fun w' => w.Kept w' := by
  rw [valueAt_top]
  refine Ends.bind ((ends_registryRef h hroom t E).imp (fun _ _ h => h) ?_) ?_
  · rintro _ ⟨_, rfl⟩
    exact World.Kept.refl _
  · intro id w' htaken
    exact htaken.made rfl nofun rfl

/-- The slot that was popped leaves room to look for the flag. -/
theorem ends_popFrom_owned (h : Ledger es w) (hroom : es.length < maxHandles) (t : ThreadId)
    (E : Engine) :
    Ends (OwnedRef.popFrom t) E w
      (fun r w' => Made es (w.valueAt t (-1)) w.liveness (.ownedRef r) w')
      fun w' => (w.thread t).Within -> w.Kept w' := by
  rw [valueAt_top]
  refine Ends.bind ((ends_registryRef h hroom t E).imp (fun _ _ h => h) ?_) ?_
  · rintro _ ⟨_, rfl⟩ _
    exact World.Kept.refl _
  · intro id w₁ htaken
    refine (ends_adopt htaken.ledger t E).imp ?_ ?_
    · rintro r w' ⟨rfl, hshared⟩
      exact htaken.made_shared hshared wraps_ownedRef nofun t
    · rintro w' ⟨_, hnot⟩ hwithin
      have hbelow := htaken.below
      refine absurd ⟨htaken.liveThread_eq, ?_, ?_⟩ hnot
      · rw [htaken.thread_eq]
        exact hwithin.ready (by omega)
      · rw [htaken.thread_eq]
        show (w.thread t).base ≤ (w.thread t).top - 1
        omega

/-- Creating a handle registers the value for it, and takes its share; where that fails, nothing
has been registered. -/
theorem ends_createHandle (h : Ledger es w) (hroom : es.length < maxHandles) {c : CreateStep}
    {idx : Int} (hidx : c.index? = some idx) (t : ThreadId) (E : Engine) :
    Ends (createHandle t c) E w (Made es (w.valueAt t idx) w.liveness)
      fun w' => (w.thread t).Within -> w.Kept w' := by
  -- only popping an owned handle can fail late; the other ways keep the registry on any stack
  have hkept {α : Type} {x : M α} {Q : α → World → Prop} (hx : Ends x E w Q fun w' => w.Kept w') :
      Ends x E w Q fun w' => (w.thread t).Within -> w.Kept w' :=
    hx.imp (fun _ _ hQ => hQ) fun _ hkept _ => hkept
  cases c with
  | manualRaw => cases hidx
  | manualPop =>
      cases hidx
      exact (hkept (ends_popFrom_manual h hroom t E)).bind fun _ _ hmade => hmade
  | manualIndex =>
      cases hidx
      refine (hkept (ends_fromIndex_manual h hroom t idx E)).bind ?_
      rintro _ w' ⟨id, rfl, hreg, _⟩
      exact hreg.made rfl nofun rfl
  | manualValuePop =>
      cases hidx
      exact (hkept (ends_detach_top h hroom t E)).bind fun _ _ hdetached => hdetached.made h
  | manualValueIndex =>
      cases hidx
      exact (hkept (ends_detach h hroom t idx E)).bind fun _ _ hdetached => hdetached.2.1.made h
  | ownedPop =>
      cases hidx
      exact (ends_popFrom_owned h hroom t E).bind fun _ _ hmade => hmade
  | ownedIndex =>
      cases hidx
      exact (hkept (ends_fromIndex_owned h hroom t idx E)).bind fun _ _ hmade => hmade
  | ownedValuePop =>
      cases hidx
      refine Ends.bind ((hkept (ends_detach_top h hroom t E)).bind ?_) fun _ _ hmade => hmade
      exact fun _ _ hdetached => hdetached.ends_fromManual h E
  | ownedValueIndex =>
      cases hidx
      refine Ends.bind ((hkept (ends_detach h hroom t idx E)).bind ?_) fun _ _ hmade => hmade
      exact fun _ _ hdetached => hdetached.2.1.ends_fromManual h E

/-!
# Every way to copy a handle
-/

theorem ends_copyHandle (h : Ledger es w) (hroom : es.length < maxHandles) {x : Handle}
    (hsuits : x.Suits v) (hmem : x.entries v ⊆ es) (E : Engine) :
    Ends x.copy E w (Made es v w.liveness) fun w' => w.Kept w' := by
  -- a handle registers its value anew, a detached plain value is its own copy
  cases x with
  | manualRef r =>
      refine (ends_copy_manual h hroom (hsuits.nil_iff _ rfl).mp hmem E).bind ?_
      rintro _ w' ⟨id, rfl, hreg⟩
      exact hreg.made rfl nofun rfl
  | ownedRef r =>
      exact (ends_copy_owned h hroom (hsuits.nil_iff _ rfl).mp hmem wraps_ownedRef nofun E).bind
        fun _ _ hmade => hmade
  | typed k r =>
      refine (ends_copy_owned h hroom (hsuits.nil_iff _ rfl).mp hmem (wraps_typed k) ?_ E).bind
        fun _ _ hmade => hmade
      rintro _ ⟨⟩
      exact hsuits.kind_eq k rfl
  | manualValue d =>
      cases d with
      | ref k r =>
          refine Ends.bind ((ends_copy_manual h hroom (hsuits.nil_iff _ rfl).mp hmem E).bind ?_)
            fun _ _ hmade => hmade
          rintro _ w' ⟨id, rfl, hreg⟩
          refine hreg.made (x := .manualValue (.ref k ⟨r.thread, id⟩)) rfl ?_ rfl
          rintro _ ⟨⟩
          exact hsuits.kind_eq k rfl
      | _ => exact made_plain rfl rfl rfl h rfl
  | ownedValue d =>
      cases d with
      | ref k r =>
          refine Ends.bind (P := fun d w' => Made es v w.liveness (.ownedValue d) w') ?_
            fun _ _ hmade => hmade
          refine (ends_copy_owned h hroom (hsuits.nil_iff _ rfl).mp hmem (wraps_ownedValue k) ?_
            E).bind fun _ _ hmade => hmade
          rintro _ ⟨⟩
          exact hsuits.kind_eq k rfl
      | _ => exact made_plain rfl rfl rfl h rfl

end Interface

end LuaHost
