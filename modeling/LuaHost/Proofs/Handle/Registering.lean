import LuaHost.Proofs.Handle.Keeping
import LuaHost.Proofs.UserData.Pushing

/-!
# Registering values of a stack

The value on top of a stack is popped into the registry.  A ledger says which
numbers are taken there, and for which values.
-/

namespace LuaHost

/-!
# Values at indices
-/

namespace World

/-- What an index of a thread denotes. -/
def placeOf (w : World) (th : Thread) (idx : Int) : Place :=
  if idx > 0 then
    if th.frame.func + idx.toNat < th.top then .slot (th.frame.func + idx.toNat) else .nowhere
  else if idx > registryIndex then .slot ((th.top : Int) + idx).toNat
  else if idx = registryIndex then .registry
  else
    match th.slot th.frame.func with
    | .closure c =>
      match w.heap.closures.get c.index with
      | .native _ ups =>
        if (registryIndex - idx).toNat ≤ ups.size then .upvalue c ((registryIndex - idx).toNat - 1)
        else .nowhere
      | .script .. => .nowhere
    | _ => .nowhere

/-- The value at a place of a thread. -/
def valueOf (w : World) (th : Thread) : Place → Value
  | .slot i => th.slot i
  | .registry => .table w.registry
  | .upvalue c i =>
    match w.heap.closures.get c.index with
    | .native _ ups => ups.getD i .nil
    | .script .. => .nil
  | .nowhere => .nil

theorem placeOf_alike (w : World) {th th' : Thread} (h : th.Alike th') (idx : Int) :
    w.placeOf th' idx = w.placeOf th idx := by
  have hfunc : th'.frame.func = th.frame.func := Nat.succ_inj.mp h.base_eq
  unfold placeOf
  rw [hfunc, h.top_eq, h.slot_eq]

theorem valueOf_alike (w : World) {th th' : Thread} (h : th.Alike th') (p : Place) :
    w.valueOf th' p = w.valueOf th p := by
  cases p with
  | slot i => exact h.slot_eq i
  | _ => rfl

/-- The value at an index of a stack. -/
def valueAt (w : World) (t : ThreadId) (idx : Int) : Value :=
  w.valueOf (w.thread t) (w.placeOf (w.thread t) idx)

/-- The value at an index, if there is one. -/
def value? (w : World) (t : ThreadId) (idx : Int) : Option Value :=
  if w.placeOf (w.thread t) idx = .nowhere then none else some (w.valueAt t idx)

/-- The value at an index does not depend on how much room a stack has. -/
theorem valueAt_alike {w : World} {t : ThreadId} {th : Thread} (h : (w.thread t).Alike th)
    (idx : Int) : (w.setThread t th).valueAt t idx = w.valueAt t idx := by
  cases hlive : w.liveThread t with
  | false => rw [setThread_of_dead hlive]
  | true =>
      unfold valueAt
      rw [thread_setThread hlive]
      show w.valueOf th (w.placeOf th idx) = _
      rw [w.placeOf_alike h, w.valueOf_alike h]

end World

namespace Machine

theorem returns_closure (w : World) (c : ClosureId) :
    Returns (closure c) w (w.heap.closures.get c.index) w :=
  fun _ => rfl

theorem returns_place (w : World) (t : ThreadId) (idx : Int) :
    Returns (place t idx) w (w.placeOf (w.thread t) idx) w := by
  unfold place World.placeOf
  refine Returns.bind (returns_thread w t) ?_
  split
  · dsimp only
    split <;> exact Returns.pure _ w
  · split
    · exact Returns.pure _ w
    · split
      · exact Returns.pure _ w
      · dsimp only
        cases (w.thread t).slot (w.thread t).frame.func with
        | closure c =>
            refine Returns.bind (returns_closure w c) ?_
            dsimp only
            cases w.heap.closures.get c.index with
            | native f ups => exact Returns.pure _ w
            | script p ups => exact Returns.pure _ w
        | _ => exact Returns.pure _ w

theorem returns_valueAt (w : World) (t : ThreadId) (p : Place) :
    Returns (valueAt t p) w (w.valueOf (w.thread t) p) w := by
  cases p with
  | slot i => exact Returns.bind (returns_thread w t) (Returns.pure _ w)
  | registry => exact Returns.bind (returns_get w) (Returns.pure _ w)
  | upvalue c i =>
      unfold World.valueOf
      refine Returns.bind (returns_closure w c) ?_
      dsimp only
      cases w.heap.closures.get c.index with
      | native f ups => exact Returns.pure _ w
      | script p ups => exact Returns.pure _ w
  | nowhere => exact Returns.pure _ w

theorem returns_value_at (w : World) (t : ThreadId) (idx : Int) :
    Returns (value t idx) w (w.valueAt t idx) w :=
  Returns.bind (returns_place w t idx) (returns_valueAt w t _)

theorem returns_value?_at (w : World) (t : ThreadId) (idx : Int) :
    Returns (value? t idx) w (w.value? t idx) w := by
  refine Returns.bind (returns_place w t idx) ?_
  unfold World.value? World.valueAt
  cases w.placeOf (w.thread t) idx with
  | nowhere => exact Returns.pure _ _
  | _ => exact Returns.bind (returns_valueAt w t _) (Returns.pure _ _)

end Machine

/-!
# What is registered
-/

namespace Interface

open Machine

/-- The taken numbers, each with the value that it was taken for. -/
structure Ledger (es : List (RefId × Value)) (w : World) : Prop where
  tracks : Tracks w (es.map Prod.fst)
  registered : forall id v, (id, v) ∈ es -> w.registered id = v

/-- What a number stands for in a ledger; the one of `nil` is not taken. -/
def entry (id : RefId) (v : Value) : List (RefId × Value) :=
  if id = nilRef then [] else [(id, v)]

/-- No number that is taken is one of those with a meaning of their own. -/
theorem ne_reserved {id : RefId} (h : 4 ≤ id) : id ≠ noRef ∧ id ≠ nilRef := by
  constructor <;> rintro rfl <;> exact absurd h (by decide)

theorem entry_nilRef (v : Value) : entry nilRef v = [] := if_pos rfl

theorem entry_of_ne {id : RefId} (h : id ≠ nilRef) (v : Value) : entry id v = [(id, v)] := if_neg h

variable {es es' : List (RefId × Value)} {w w' : World} {t : ThreadId} {E : Engine}

namespace Ledger

theorem spared (h : Ledger es w) (hspared : w.Spared w') : Ledger es w' := by
  refine ⟨hspared.tracks h.tracks, ?_⟩
  intro id v hmem
  rw [hspared.registered_eq h.tracks.1]
  exact h.registered id v hmem

theorem perm (h : Ledger es w) (hperm : es.Perm es') : Ledger es' w := by
  refine ⟨h.tracks.perm (hperm.map Prod.fst), ?_⟩
  intro id v hmem
  exact h.registered id v ((List.Perm.mem_iff hperm).mpr hmem)

theorem bounds (h : Ledger es w) {id : RefId} {v : Value} (hmem : (id, v) ∈ es) :
    4 ≤ id ∧ id < 2 ^ 31 :=
  h.tracks.bounds (List.mem_map_of_mem (f := Prod.fst) hmem)

theorem whole (h : Ledger es w) : exists n, Whole w.registryTable n := by
  rcases h.tracks.2 with ⟨free, n, _, hslots⟩
  exact ⟨n, hslots.toWhole⟩

theorem plain (h : Ledger es w) : w.registryTable.metatable = none := by
  rcases h.whole with ⟨n, hwhole⟩
  exact hwhole.plain

end Ledger

/-- Registering a value takes a number for it, and writes to the registry alone. -/
theorem returns_register_entry (h : Ledger es w) (hroom : es.length < maxHandles) {v : Value}
    (hv : v ≠ .nil) :
    exists id T, Returns (register v) w id (w.setRegistry T) ∧ id ≠ nilRef ∧
      Ledger ((id, v) :: es) (w.setRegistry T) := by
  rcases returns_register h.tracks (by rw [List.length_map]; exact hroom) hv with
    ⟨id, T, hrun, htracks, hheld, hsame⟩
  have htable := World.registryTable_setRegistry h.tracks.1 T
  have hbounds := htracks.bounds (List.mem_cons_self ..)
  refine ⟨id, T, hrun, (ne_reserved hbounds.1).2, htracks, ?_⟩
  intro id' v' hmem
  unfold World.registered
  rw [htable]
  cases hmem with
  | head => exact hheld
  | tail _ hmem =>
      rw [hsame id' (List.mem_map_of_mem (f := Prod.fst) hmem)]
      exact h.registered id' v' hmem

/-- Releasing a number that is taken ends its entry and no other, and is told to the log. -/
theorem returns_unref_entry {id : RefId} {v : Value} (h : Ledger ((id, v) :: es) w) :
    exists T log, Returns (registryUnref id) w () ((w.setLog log).setRegistry T) ∧
      Ledger es ((w.setLog log).setRegistry T) := by
  let log := ⟨.trace, "unref " ++ toString id⟩ :: w.log
  have hbounds := h.bounds (List.mem_cons_self ..)
  have htracks : Tracks (w.setLog log) (id :: es.map Prod.fst) := (w.kept_setLog _).tracks h.tracks
  rcases returns_release htracks (List.mem_cons_self ..) with ⟨T, hrun, htracks', hsame⟩
  rw [List.erase_cons_head] at htracks' hsame
  refine ⟨T, log, ?_, htracks', ?_⟩
  · unfold registryUnref
    rw [if_pos]
    · exact Returns.bind (returns_modify _ w) hrun
    · rw [Bool.and_eq_true, bne_iff_ne, bne_iff_ne]
      exact ne_reserved hbounds.1
  · intro id' v' hmem
    unfold World.registered
    rw [World.registryTable_setRegistry htracks.1,
      hsame id' (List.mem_map_of_mem (f := Prod.fst) hmem)]
    exact h.registered id' v' (List.mem_cons_of_mem _ hmem)

theorem returns_unref_nilRef (w : World) : Returns (registryUnref nilRef) w () w := fun _ => rfl

/-- The same for any number that a ledger may have. -/
theorem returns_registryUnref {id : RefId} {v : Value} (h : Ledger (entry id v ++ es) w) :
    exists w', Returns (registryUnref id) w () w' ∧ Ledger es w' ∧ w'.liveness = w.liveness := by
  by_cases hid : id = nilRef
  · subst hid
    rw [entry_nilRef] at h
    exact ⟨w, returns_unref_nilRef w, h, rfl⟩
  · rw [entry_of_ne hid] at h
    rcases returns_unref_entry h with ⟨T, log, hrun, hledger⟩
    exact ⟨_, hrun, hledger, rfl⟩

/-!
# The top value
-/

theorem returns_pop (w : World) (t : ThreadId) :
    Returns (Machine.pop t) w ((w.thread t).slot ((w.thread t).top - 1))
      (w.setThread t ((w.thread t).drop 1)) := by
  refine Returns.bind (returns_thread w t) ?_
  exact Returns.bind (returns_drop w t 1) (Returns.pure _ _)

theorem returns_pop_one (h : (w.thread t).height ≠ 0) :
    Returns (Interface.pop t 1) w () (w.setThread t ((w.thread t).drop 1)) := by
  refine Returns.bind (returns_height w t) ?_
  rw [if_neg (by omega)]
  have hset := returns_modifyThread w t fun th =>
    let new := ((th.top : Int) + (-1 - 1) + 1).toNat
    if new > th.top then { th.fillNil th.top (new - th.top) with top := new } else th.withTop new
  have hnew : (((w.thread t).top : Int) + (-1 - 1) + 1).toNat = (w.thread t).top - 1 := by omega
  dsimp only at hset
  rw [hnew, if_neg (by omega)] at hset
  exact hset

theorem height_of_dead (h : w.liveThread t = false) : (w.thread t).height = 0 := by
  have hthread : w.thread t = default := by
    unfold World.liveThread Store.live at h
    unfold World.thread Store.get
    cases hfind : w.heap.threads.find? t.index with
    | none => rfl
    | some th =>
        rw [hfind] at h
        cases h
  rw [hthread]
  rfl

/-- A value has got a number, and no other entry has changed. -/
structure Numbered (w : World) (es : List (RefId × Value)) (v : Value) (id : RefId) (w' : World) :
    Prop where
  nil_iff : id = nilRef ↔ v = .nil
  ledger : Ledger (entry id v ++ es) w'
  liveness_eq : w'.liveness = w.liveness

/-- The top value of a live thread has been registered under a number. -/
structure Taken (w : World) (t : ThreadId) (es : List (RefId × Value)) (v : Value) (id : RefId)
    (w' : World) : Prop extends Numbered w es v id w' where
  live : w.liveThread t = true
  liveThread_eq : w'.liveThread t = true
  below : (w.thread t).base < (w.thread t).top
  thread_eq : w'.thread t = (w.thread t).drop 1

/-- Registering the top value fails on an empty stack alone, and changes nothing then. -/
theorem ends_registryRef (h : Ledger es w) (hroom : es.length < maxHandles) (t : ThreadId)
    (E : Engine) :
    Ends (registryRef t) E w (Taken w t es ((w.thread t).slot ((w.thread t).top - 1)))
      fun w' => (w.thread t).height = 0 ∧ w' = w := by
  unfold registryRef
  refine Ends.after (returns_height w t) ?_
  by_cases hheight : (w.thread t).height = 0
  · rw [hheight]
    exact ⟨rfl, rfl⟩
  · rw [if_neg (by rw [beq_iff_eq]; exact hheight)]
    -- a thread that has been collected has no values, and so it cannot get here
    have hlive : w.liveThread t = true := by
      by_contra hdead
      exact hheight (height_of_dead (Bool.not_eq_true _ ▸ hdead))
    have hbelow : (w.thread t).base < (w.thread t).top := by
      unfold Thread.height at hheight
      omega
    refine Ends.after (returns_pop w t) ?_
    generalize (w.thread t).slot ((w.thread t).top - 1) = v
    let w₁ := w.setThread t ((w.thread t).drop 1)
    have hlive₁ : w₁.liveThread t = true := (w.liveThread_setThread t t _).trans hlive
    have hthread₁ : w₁.thread t = (w.thread t).drop 1 := World.thread_setThread hlive _
    have hledger₁ : Ledger es w₁ := h.spared (w.kept_setThread t _).toSpared
    -- nil takes the reserved number, and no slot
    by_cases hv : v = .nil
    · subst hv
      refine Ends.after (Returns.pure nilRef w₁) ?_
      refine Ends.after (returns_modify _ w₁) ?_
      refine ⟨⟨Iff.intro (fun _ => rfl) (fun _ => rfl), ?_, rfl⟩, hlive, hlive₁, hbelow, hthread₁⟩
      exact hledger₁.spared (w₁.kept_setLog _).toSpared
    · have hisNil : v.isNil = false := by
        cases v with
        | nil => exact absurd rfl hv
        | _ => rfl
      rcases returns_register_entry hledger₁ hroom hv with
        ⟨id, T, hrun, hid, hledger₂⟩
      rw [hisNil]
      refine Ends.after hrun ?_
      refine Ends.after (returns_modify _ (w₁.setRegistry T)) ?_
      refine ⟨⟨⟨fun h => absurd h hid, fun h => absurd h hv⟩, ?_, rfl⟩, hlive, hlive₁, hbelow,
        hthread₁⟩
      rw [entry_of_ne hid]
      exact hledger₂.spared ((w₁.setRegistry T).kept_setLog _).toSpared

end Interface

end LuaHost
