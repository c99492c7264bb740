import LuaHost.Proofs.Handle.Turning
import LuaHost.Proofs.Interface.Disassembling

/-!
# Handles that are made for a while

To create a handle, to read through it and to end it changes the registry, the
flag and the log, and nothing else that stays.  Where a stack has room for what
is pushed on the way, each of them returns, and leaves the stack as it found it.
-/

namespace LuaHost

theorem Thread.Raised.replaced (us : List Value) {v : Value} {th th' : Thread}
    (h : th.Raised (us ++ [v]) th') (v' : Value) :
    th.Raised (us ++ [v']) (th'.setSlot (th'.top - 1) v') := by
  have htop := h.top_eq
  rw [List.length_append, List.length_singleton] at htop
  have hlimit : (th'.setSlot (th'.top - 1) v').limit = th'.limit :=
    limit_congr (room_setSlot th' _ v')
  constructor
  case top_eq => rw [top_setSlot, List.length_append, List.length_singleton, htop]
  case below =>
    refine ⟨(base_setSlot th' _ v').trans h.below.base_eq, fun i hi => ?_⟩
    rw [slot_setSlot, if_neg (by omega)]
    exact h.below.slot_eq i hi
  case slot_eq =>
    intro i u hu
    rw [slot_setSlot]
    rw [List.getElem?_append] at hu
    split at hu
    · rw [if_neg (by omega)]
      refine h.slot_eq i u ?_
      rw [List.getElem?_append_left (by omega)]
      exact hu
    · rcases List.getElem?_eq_some_iff.mp hu with ⟨hi, rfl⟩
      rw [List.length_singleton] at hi
      rw [if_pos (by omega), List.getElem_singleton]
  case limit_eq => exact hlimit.trans h.limit_eq
  case fits =>
    rw [hlimit, top_setSlot]
    exact h.fits

namespace World

/-!
# What changes on the way
-/

/-- A stack that can hold `n` more values. -/
structure Ample (w : World) (t : ThreadId) (n : Nat) : Prop where
  live : w.liveThread t = true
  based : (w.thread t).base ≤ (w.thread t).top
  fits : (w.thread t).top + n ≤ (w.thread t).limit

theorem Ample.mono {w : World} {t : ThreadId} {m n : Nat} (h : w.Ample t n) (hmn : m ≤ n) :
    w.Ample t m :=
  ⟨h.live, h.based, Nat.le_trans (Nat.add_le_add_left hmn _) h.fits⟩

/-- Two worlds that differ in the registry, the flag and the log, and in one stack,
on which the second one has more values. -/
structure Beside (t : ThreadId) (w : World) (vs : List Value) (w' : World) : Prop where
  rest_eq : exists T l log, w' =
    (((w.setRegistry T).setThread t (w'.thread t)).withLiveness l).setLog log
  raised : (w.thread t).Raised vs (w'.thread t)

variable {t : ThreadId} {w w' w'' : World} {us vs : List Value} {n : Nat}

namespace Beside

theorem trans (h : Beside t w us w') (h' : Beside t w' vs w'') : Beside t w (us ++ vs) w'' := by
  refine ⟨?_, h.raised.trans h'.raised⟩
  rcases h.rest_eq with ⟨T, l, log, hrest⟩
  rcases h'.rest_eq with ⟨T', l', log', hrest'⟩
  refine ⟨T', l', log', hrest'.trans ?_⟩
  generalize w'.thread t = th at hrest
  subst hrest
  have hregistry := setRegistry_setRegistry w T T'
  have hthread := setThread_setThread (w.setRegistry T') t th (w''.thread t)
  rw [← hthread, ← hregistry]
  rfl

theorem ofLoaded (log : List LogRecord) (h : Loaded t (w.setLog log) vs w') : Beside t w vs w' := by
  refine ⟨⟨w.registryTable, w.liveness, log, ?_⟩, h.raised⟩
  rw [setRegistry_registryTable]
  exact h.rest_eq

theorem refl (h : w.Ample t n) : Beside t w [] w :=
  ofLoaded w.log (Loaded.nil (h.mono (Nat.zero_le n)).fits)

theorem changed (h : Beside t w vs w') (T : Table) (l : Option Liveness) (log : List LogRecord) :
    Beside t w vs (((w'.setRegistry T).withLiveness l).setLog log) := by
  rcases h.rest_eq with ⟨T', l', log', hrest⟩
  refine ⟨⟨T, l, log, ?_⟩, h.raised⟩
  show _ = (((w.setRegistry T).setThread t (w'.thread t)).withLiveness l).setLog log
  generalize w'.thread t = th at hrest
  subst hrest
  have hregistry := setRegistry_setRegistry w T' T
  rw [← hregistry]
  rfl

theorem withLiveness (h : Beside t w vs w') (l : Option Liveness) :
    Beside t w vs (w'.withLiveness l) := by
  have hchanged := h.changed w'.registryTable l w'.log
  rw [setRegistry_registryTable] at hchanged
  exact hchanged

theorem ample (h : Beside t w [] w') (hample : w.Ample t n) : w'.Ample t n := by
  have htop : (w'.thread t).top = (w.thread t).top := h.raised.top_eq
  refine ⟨?_, ?_, ?_⟩
  · rcases h.rest_eq with ⟨T, l, log, hrest⟩
    rw [hrest]
    exact (liveThread_setThread _ t t _).trans hample.live
  · rw [h.raised.below.base_eq, htop]
    exact hample.based
  · rw [h.raised.limit_eq, htop]
    exact hample.fits

theorem registry_eq (h : Beside t w vs w') : w'.registry = w.registry := by
  rcases h.rest_eq with ⟨T, l, log, hrest⟩
  rw [hrest]
  rfl

theorem tables_eq (h : Beside t w vs w') :
    exists T, w'.heap.tables = w.heap.tables.modify w.registry.index fun _ => T := by
  rcases h.rest_eq with ⟨T, l, log, hrest⟩
  refine ⟨T, ?_⟩
  rw [hrest]
  rfl

end Beside

theorem Loaded.kept (log : List LogRecord) (h : Loaded t (w.setLog log) vs w') : w.Kept w' := by
  refine ⟨spared_of_tables ?_ h.heap_tables, ?_⟩ <;> rw [h.rest_eq] <;> rfl

end World

namespace Interface

open Machine World

variable {es : List (RefId × Value)} {w w' : World} {t : ThreadId} {idx : Int} {id : RefId}
  {v : Value} {n : Nat}

/-!
# Pushing what is to be registered, and what was
-/

theorem returns_pushValue_loaded (hample : w.Ample t 1)
    (hvalid : validIndex (w.thread t).height idx = true) :
    exists w', Returns (Interface.pushValue t idx) w () w' ∧ Loaded t w [w.valueAt t idx] w' := by
  have hlive := hample.live
  rcases (needs_checkStack hlive (n := 1) (by decide)).1 hample.fits with
    ⟨th, halike, hlimit, hcheck⟩
  have hreserve : Returns (reserve t 1) w () (w.setThread t th) :=
    Returns.bind hcheck (Returns.pure _ _)
  have hread := returns_value_at (w.setThread t th) t idx
  rw [World.valueAt_alike halike] at hread
  have hfits := hample.fits
  have hraised : (w.thread t).Raised [] th := by
    refine ⟨halike.top_eq, halike.sameBelow _, nofun, hlimit, ?_⟩
    rw [halike.top_eq, hlimit]
    omega
  have hroom : ((w.setThread t th).thread t).top + 1 ≤ ((w.setThread t th).thread t).limit := by
    rw [thread_setThread hlive, halike.top_eq, hlimit]
    exact hfits
  rcases returns_push_loaded ((liveThread_setThread w t t th).trans hlive) (w.valueAt t idx) hroom
    with ⟨w', hpush, hpushed⟩
  refine ⟨w', ?_, (Loaded.ofRaised hlive hraised).trans hpushed⟩
  exact Returns.bind (returns_checkIndex hvalid)
    (Returns.bind hreserve (Returns.bind hread hpush))

theorem validIndex_registry (n : Nat) : validIndex n registryIndex = true := by
  unfold validIndex registryIndex
  simp

theorem returns_pushRef_loaded (h : Ledger es w) (hmem : (id, v) ∈ es) (hample : w.Ample t 1) :
    exists w', Returns (pushRef t id) w v.kind w' ∧ Loaded t w [v] w' := by
  have hreserved := ne_reserved (h.bounds hmem).1
  rcases (needs_reserve hample.live (n := 1) (by decide)).returns hample.fits with
    ⟨_, w₁, hreserve, hloaded⟩
  have htop : (w₁.thread t).top = (w.thread t).top := hloaded.raised.top_eq
  have hregistry : w₁.registry = w.registry := by
    rw [hloaded.rest_eq]
    rfl
  have hheld : w₁.registered id = v := by
    rw [← h.registered id v hmem]
    unfold World.registered registryTable
    rw [hregistry, hloaded.heap_tables]
  have hread : Returns (rawValue t registryIndex (refKey id)) w₁ v w₁ := by
    rw [← hheld]
    refine Returns.bind (a := some w₁.registry) ?_ (fun _ => rfl)
    exact Returns.bind (returns_value_registry w₁ t) (Returns.pure _ _)
  have hroom : (w₁.thread t).top + 1 ≤ (w₁.thread t).limit := by
    rw [htop, hloaded.raised.limit_eq]
    exact hample.fits
  rcases returns_push_loaded (hloaded.live hample.live) v hroom with ⟨w', hpush, hpushed⟩
  refine ⟨w', ?_, hloaded.trans hpushed⟩
  unfold pushRef
  rw [if_neg (by simp [hreserved.1, hreserved.2])]
  refine Returns.bind (returns_checkIndex (validIndex_registry _)) (Returns.bind hreserve ?_)
  exact Returns.bind hread (Returns.bind hpush (Returns.pure _ _))

/-!
# Registering and releasing
-/

theorem returns_registryRef_loaded (h : Ledger es w) (hroom : es.length < maxHandles)
    (hv : v ≠ .nil) (hample : w.Ample t n) (hloaded : Loaded t w [v] w') :
    exists id w'', Returns (registryRef t) w' id w'' ∧ id ≠ nilRef ∧ Ledger ((id, v) :: es) w'' ∧
      Beside t w [] w'' := by
  have htop : (w'.thread t).top = (w.thread t).top + 1 := hloaded.raised.top_eq
  have hslot : (w'.thread t).slot (w.thread t).top = v := hloaded.raised.slot_eq 0 v rfl
  have hbased := hample.based
  have hheight : (w'.thread t).height ≠ 0 := by
    unfold Thread.height
    rw [htop, hloaded.raised.below.base_eq]
    omega
  have hpop := returns_pop w' t
  rw [htop, Nat.add_sub_cancel, hslot] at hpop
  -- the value leaves the stack before the registry changes, so the entries are still those of `w`
  have hdropped := hloaded.drop [] [v] hample.live
  have hledger := h.spared (hdropped.kept w.log).toSpared
  rcases returns_register_entry hledger hroom hv with ⟨id, T, hregister, hid, hledger⟩
  have hisNil : v.isNil = false := by
    cases v with
    | nil => exact absurd rfl hv
    | _ => rfl
  let w₁ := (w'.setThread t ((w'.thread t).drop 1)).setRegistry T
  let log := ⟨.trace, "ref " ++ toString id⟩ :: w₁.log
  refine ⟨id, w₁.setLog log, ?_, hid, hledger.spared (w₁.kept_setLog log).toSpared,
    (Beside.ofLoaded w.log hdropped).changed T _ log⟩
  unfold registryRef
  refine Returns.bind (returns_height w' t) ?_
  rw [if_neg (by rw [beq_iff_eq]; exact hheight)]
  refine Returns.bind hpop ?_
  rw [hisNil]
  exact Returns.bind hregister (Returns.bind (returns_modify _ _) (Returns.pure _ _))

theorem returns_registryUnref_beside (h : Ledger ((id, v) :: es) w) (hample : w.Ample t n) :
    exists w', Returns (registryUnref id) w () w' ∧ Beside t w [] w' := by
  rcases returns_unref_entry h with ⟨T, log, hrun, _⟩
  exact ⟨_, hrun, (Beside.refl hample).changed T w.liveness log⟩

/-!
# Shares in the flag
-/

/-- Looking for the flag takes room for one value. -/
theorem returns_shareFlag (h : Ledger es w) (hample : w.Ample t 1) :
    exists w', Returns (shareFlag t) w true w' ∧ Beside t w [] w' := by
  have hflag : w.registryTable.get (.ofText aliveField) = .light flagAddress := by
    rcases h.whole with ⟨n, hwhole⟩
    exact hwhole.flagged
  rcases (needs_pushNew hample.live (.ofText aliveField)).returns hample.fits with
    ⟨_, w₁, hpush, hloaded⟩
  have htop : (w₁.thread t).top = (w.thread t).top + 1 := hloaded.raised.top_eq
  have hname : (w₁.thread t).slot ((w₁.thread t).top - 1) = .ofText aliveField := by
    rw [htop]
    exact hloaded.raised.slot_eq 0 _ rfl
  have hregistry : w₁.registryTable = w.registryTable := by
    rw [hloaded.rest_eq]
    rfl
  have hplain : w₁.registryTable.metatable = none := hregistry ▸ h.plain
  -- the name on top gives way to what the registry has under it, which is the address of the flag
  have hreplace := returns_replaceKey_registry hplain t
  dsimp only at hreplace
  rw [hname, hregistry, hflag] at hreplace
  let w₂ := w₁.setThread t ((w₁.thread t).setSlot ((w₁.thread t).top - 1) (.light flagAddress))
  have hreplaced : Loaded t w [.light flagAddress] w₂ := by
    have hraised := hloaded.raised.replaced [] (.light flagAddress)
    have hsame := Loaded.ofRaised hample.live hraised
    rw [← hloaded.setThread_eq] at hsame
    exact hsame
  have hread := returns_value_below w₂ t (n := 1) (by decide)
  rw [hreplaced.raised.top_eq] at hread
  have hslot : (w₂.thread t).slot (w.thread t).top = .light flagAddress :=
    hreplaced.raised.slot_eq 0 _ rfl
  have hcheck : Returns (checkIndex t (-1)) w₂ () w₂ := by
    refine returns_checkIndex_below (n := 1) (by decide) ?_
    rw [hreplaced.raised.top_eq, hreplaced.raised.below.base_eq]
    exact Nat.add_le_add_right hample.based 1
  have hlook : Returns (toLightUserData t (-1)) w₂ (some flagAddress) w₂ := by
    refine Returns.bind hcheck (Returns.bind hread ?_)
    rw [List.length_singleton, Nat.add_sub_cancel, hslot]
    exact Returns.pure _ _
  rcases returns_pop_loaded [] _ hample.live hample.based hreplaced with ⟨w₃, hpop, hpopped⟩
  have hbeside := Beside.ofLoaded w.log hpopped
  refine ⟨w₃.withLiveness (Liveness.more w₃.liveness), ?_, hbeside.withLiveness _⟩
  have hfield :
      Returns (getField t registryIndex aliveField) w (Value.light flagAddress).kind w₂ := by
    refine Returns.bind (returns_checkIndex (validIndex_registry _)) ?_
    refine Returns.bind (a := registryIndex) (Returns.pure registryIndex w) ?_
    exact Returns.bind hpush hreplace
  refine Returns.bind hfield (Returns.bind hlook (Returns.bind hpop ?_))
  exact Returns.bind (returns_modify _ _) (Returns.pure _ _)

end Interface

/-!
# Single handles
-/

open Interface Machine World

/-- A handle that is used through a thread, and does not stand for `nil`. -/
def ManualRef.Via (t : ThreadId) (r : ManualRef) : Prop := r.thread = t ∧ r.id ≠ nilRef

/-- An owned one moreover has its share in the flag. -/
def OwnedRef.Via (t : ThreadId) (r : OwnedRef) : Prop :=
  r.thread = t ∧ r.id ≠ nilRef ∧ r.flagged = true

variable {es : List (RefId × Value)} {w w' : World} {t : ThreadId} {idx : Int} {v : Value} {n : Nat}

namespace ManualRef

theorem returns_popFrom (h : Ledger es w) (hroom : es.length < maxHandles) (hv : v ≠ .nil)
    (hample : w.Ample t n) (hloaded : Loaded t w [v] w') :
    exists r w'', Returns (popFrom t) w' r w'' ∧ r.Via t ∧ Beside t w [] w'' := by
  rcases returns_registryRef_loaded h hroom hv hample hloaded with ⟨id, w'', hrun, hid, _, hbeside⟩
  exact ⟨⟨t, id⟩, w'', Returns.bind hrun (Returns.pure _ _), ⟨rfl, hid⟩, hbeside⟩

theorem returns_fromIndex (h : Ledger es w) (hroom : es.length < maxHandles)
    (hv : w.valueAt t idx ≠ .nil) (hample : w.Ample t 1)
    (hvalid : validIndex (w.thread t).height idx = true) :
    exists r w', Returns (fromIndex t idx) w r w' ∧ r.Via t ∧ Beside t w [] w' := by
  rcases returns_pushValue_loaded hample hvalid with ⟨w₁, hpush, hloaded⟩
  rcases returns_popFrom h hroom hv hample hloaded with ⟨r, w', hrun, hvia, hbeside⟩
  exact ⟨r, w', Returns.bind hpush hrun, hvia, hbeside⟩

variable {r : ManualRef}

theorem returns_copy (h : Ledger es w) (hroom : es.length < maxHandles) (hv : v ≠ .nil)
    (hample : w.Ample t 1) (hvia : r.Via t) (hmem : (r.id, v) ∈ es) :
    exists r' w', Returns r.copy w r' w' ∧ r'.Via t ∧ Beside t w [] w' := by
  rcases r with ⟨t', id⟩
  rcases hvia with ⟨rfl, hid⟩
  rcases returns_pushRef_loaded h hmem hample with ⟨w₁, hpush, hloaded⟩
  rcases returns_popFrom h hroom hv hample hloaded with ⟨r', w', hrun, hvia, hbeside⟩
  exact ⟨r', w', Returns.bind hpush hrun, hvia, hbeside⟩

end ManualRef

namespace OwnedRef

theorem returns_adopt (h : Ledger es w) (hample : w.Ample t 1) (id : RefId) :
    exists w', Returns (adopt t id) w ⟨t, id, true⟩ w' ∧ Beside t w [] w' := by
  rcases returns_shareFlag h hample with ⟨w', hrun, hbeside⟩
  exact ⟨w', Returns.bind hrun (Returns.pure _ _), hbeside⟩

theorem returns_popFrom (h : Ledger es w) (hroom : es.length < maxHandles) (hv : v ≠ .nil)
    (hample : w.Ample t 1) (hloaded : Loaded t w [v] w') :
    exists r w'', Returns (popFrom t) w' r w'' ∧ r.Via t ∧ Beside t w [] w'' := by
  rcases returns_registryRef_loaded h hroom hv hample hloaded with
    ⟨id, w₁, hregister, hid, hledger, hbeside⟩
  rcases returns_adopt hledger (hbeside.ample hample) id with ⟨w'', hadopt, hbeside'⟩
  exact ⟨⟨t, id, true⟩, w'', Returns.bind hregister hadopt, ⟨rfl, hid, rfl⟩, hbeside.trans hbeside'⟩

theorem returns_fromManual {r : ManualRef} (h : Ledger es w) (hample : w.Ample t 1)
    (hvia : r.Via t) :
    exists r' w', Returns (fromManual r) w r' w' ∧ r'.Via t ∧ Beside t w [] w' := by
  rcases r with ⟨t', id⟩
  rcases hvia with ⟨rfl, hid⟩
  rcases returns_adopt h hample id with ⟨w', hrun, hbeside⟩
  exact ⟨⟨t', id, true⟩, w', hrun, ⟨rfl, hid, rfl⟩, hbeside⟩

variable {r : OwnedRef}

theorem returns_copy (h : Ledger es w) (hroom : es.length < maxHandles) (hv : v ≠ .nil)
    (hample : w.Ample t 1) (hvia : r.Via t) (hmem : (r.id, v) ∈ es) :
    exists r' w', Returns r.copy w r' w' ∧ r'.Via t ∧ Beside t w [] w' := by
  rcases r with ⟨t', id, flagged⟩
  rcases hvia with ⟨rfl, hid, _⟩
  rcases returns_pushRef_loaded h hmem hample with ⟨w₁, hpush, hloaded⟩
  rcases returns_popFrom h hroom hv hample hloaded with ⟨r', w', hrun, hvia, hbeside⟩
  exact ⟨r', w', Returns.bind hpush hrun, hvia, hbeside⟩

theorem returns_toManual (hample : w.Ample t n) (hvia : r.Via t) :
    exists r' w', Returns r.toManual w r' w' ∧ r'.Via t ∧ Beside t w [] w' := by
  let w₁ := w.withLiveness (Liveness.less w.liveness)
  have hbeside : Beside t w [] w₁ := (Beside.refl hample).withLiveness _
  refine ⟨⟨r.thread, r.id⟩, w₁, ?_, ⟨hvia.1, hvia.2.1⟩, hbeside⟩
  unfold toManual
  rw [if_pos hvia.2.2]
  exact Returns.bind (returns_dropShare w) (Returns.pure _ _)

theorem returns_drop {m : Nat} (h : Ledger ((r.id, v) :: es) w) (hample : w.Ample t n)
    (hvia : r.Via t) (hliveness : w.liveness = Liveness.owned true (m + 1)) :
    exists w', Returns r.drop w () w' ∧ Beside t w [] w' := by
  rcases returns_registryUnref_beside h hample with ⟨w₁, hunref, hbeside⟩
  refine ⟨w₁.withLiveness (Liveness.less w₁.liveness), ?_, hbeside.withLiveness _⟩
  unfold drop
  rw [if_pos hvia.2.2]
  refine Returns.bind (returns_isAlive_owned hliveness) ?_
  exact Returns.bind hunref (returns_dropShare w₁)

end OwnedRef

/-!
# Copies of what is behind a handle
-/

theorem StringRef.returns_toText {r : OwnedRef} {s : Bytes} (h : Ledger es w)
    (hample : w.Ample t 1) (hvia : r.Via t) (hmem : (r.id, .str s) ∈ es) :
    exists w', Returns (StringRef.toText r) w (Bytes.toText s) w' ∧ w.Kept w' ∧
      Beside t w [] w' := by
  rcases hvia with ⟨rfl, _, _⟩
  rcases returns_pushRef_loaded h hmem hample with ⟨w₁, hpush, hloaded⟩
  have htop : (w₁.thread r.thread).top = (w.thread r.thread).top + 1 := hloaded.raised.top_eq
  have hslot : w₁.valueOf (w₁.thread r.thread) (w₁.placeOf (w₁.thread r.thread) (-1)) = .str s := by
    have hvalue := valueAt_top w₁ r.thread
    rw [htop, Nat.add_sub_cancel] at hvalue
    exact hvalue.trans (hloaded.raised.slot_eq 0 _ rfl)
  have hcheck : Returns (checkIndex r.thread (-1)) w₁ () w₁ := by
    refine returns_checkIndex_below (n := 1) (by decide) ?_
    rw [htop, hloaded.raised.below.base_eq]
    exact Nat.add_le_add_right hample.based 1
  have hread : Returns (toBytesAt r.thread (-1)) w₁ (some s) w₁ := by
    refine Returns.bind (returns_place w₁ r.thread (-1)) ?_
    refine Returns.bind (returns_valueAt w₁ r.thread _) ?_
    rw [hslot]
    exact Returns.pure _ _
  rcases returns_pop_loaded [] _ hample.live hample.based hloaded with ⟨w', hpop, hpopped⟩
  refine ⟨w', ?_, hpopped.kept w.log, Beside.ofLoaded w.log hpopped⟩
  have htext : Returns (Interface.toText r.thread (-1)) w₁ (some (Bytes.toText s)) w₁ :=
    Returns.bind (Returns.bind hcheck hread) (Returns.pure _ _)
  exact Returns.bind hpush (Returns.bind htext (Returns.bind hpop (Returns.pure _ _)))

theorem TableRef.returns_copyToHost {r : OwnedRef} {i : TableId} (h : Ledger es w)
    (hample : w.Ample t (1 + 2 * (w.heap.copyTable i).depth)) (hvia : r.Via t)
    (hmem : (r.id, .table i) ∈ es) :
    exists w', Returns (TableRef.copyToHost r) w (w.heap.copyTable i).table w' ∧ w.Kept w' ∧
      Beside t w [] w' := by
  rcases hvia with ⟨rfl, _, _⟩
  rcases returns_pushRef_loaded h hmem (hample.mono (by omega)) with ⟨w₁, hpush, hloaded⟩
  have htop : (w₁.thread r.thread).top = (w.thread r.thread).top + 1 := hloaded.raised.top_eq
  have hheap : w₁.heap.copyTable i = w.heap.copyTable i := by
    unfold Heap.copyTable Heap.entriesOf
    rw [hloaded.heap_tables]
  have hfits := hample.fits
  rcases (Disassembling.needs_copyTableOut (hloaded.live hample.live) i).returns
    (by rw [hheap, htop, hloaded.raised.limit_eq]; omega) with ⟨_, w₂, hcopy, rfl, hduring⟩
  rw [hheap] at hcopy hduring
  have hslot : (w₁.thread r.thread).slot (w.thread r.thread).top = .table i :=
    hloaded.raised.slot_eq 0 _ rfl
  have hvalue := returns_value?_top htop
  rw [hslot] at hvalue
  have hindex : validIndex (w₁.thread r.thread).height (-1) = true := by
    have hbased := hample.based
    unfold validIndex registryIndex Thread.height
    rw [htop, hloaded.raised.below.base_eq]
    simp
    omega
  -- what was left out of the copy is in the log now, and nothing else is different
  let log := (w.heap.copyTable i).log ++ w.log
  have hcopied : Loaded r.thread (w.setLog log) [.table i] w₂ := by
    unfold Disassembling.During at hduring
    rw [hloaded.log_eq] at hduring
    exact (hloaded.setLog log).trans hduring
  rcases returns_pop_loaded [] _ (w := w.setLog log) hample.live hample.based hcopied with
    ⟨w', hpop, hpopped⟩
  refine ⟨w', ?_, hpopped.kept log, Beside.ofLoaded log hpopped⟩
  have htable : Returns (TableRef.pushTable r) w () w₁ :=
    Returns.bind hpush (Returns.pure () w₁)
  refine Returns.bind htable (Returns.bind (returns_copyTable hindex hvalue hcopy) ?_)
  exact Returns.bind hpop (Returns.pure _ _)

end LuaHost
