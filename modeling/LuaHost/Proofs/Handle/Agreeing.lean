import LuaHost.Proofs.Handle.Detaching
import LuaHost.Proofs.Handle.Ownership

/-!
# Copies through handles

A handle that was made for a value on a stack can be copied, handed over to be
released by hand and taken back, any number of times.  Every copy for the host
that is made from one of the handles is the one that is made from the stack, and
once the handles are gone no number is taken for them.  The registry is the
exception: a copy of it shows the handles.
-/

namespace LuaHost

open Interface Machine Session World

/-!
# Handles for one value
-/

def Session.Handle.isSafe : Handle → Bool
  | .ownedValue _ => true
  | _ => false

/-- A detached value for what there was at an index of a thread. -/
inductive Session.Handle.StandsFor (t : ThreadId) (v? : Option Value) : Handle → Prop where
  | manual {d : ManualValue} : d.StandsFor (ManualRef.Via t) v? → StandsFor t v? (.manualValue d)
  | owned {d : OwnedValue} : d.StandsFor (OwnedRef.Via t) v? → StandsFor t v? (.ownedValue d)

theorem Session.Handle.StandsFor.id_ne {t : ThreadId} {v? : Option Value} {x : Handle} {id : RefId}
    (h : x.StandsFor t v?) (hid : x.id? = some id) : id ≠ nilRef := by
  cases h with
  | manual hstands =>
      cases hstands with
      | behind _ hvia =>
          cases hid
          exact hvia.2
      | _ => cases hid
  | owned hstands =>
      cases hstands with
      | behind _ hvia =>
          cases hid
          exact hvia.2.1
      | _ => cases hid

namespace Agreeing

/-- A handle in a registry with entries, and a stack with room for its value. -/
structure Usable (es : List (RefId × Value)) (t : ThreadId) (v? : Option Value) (x : Handle)
    (w : World) : Prop where
  stands : x.StandsFor t v?
  ledger : Ledger es w
  mem : forall v id, v? = some v -> x.id? = some id -> (id, v) ∈ es
  ample : w.Ample t (v?.elim 0 w.heap.roomFor)

namespace Usable

variable {es : List (RefId × Value)} {t : ThreadId} {v? : Option Value} {x : Handle} {w : World}

theorem ample_one (h : Usable es t v? x w) {v : Value} {k : RefKind} (hv : v? = some v)
    (hkind : v.kind = k.kind) : w.Ample t 1 := by
  have hample := h.ample
  rw [hv] at hample
  exact hample.mono ((RefKind.behind hkind).2 w.heap)

theorem returns_copy (h : Usable es t v? x w) (hroom : es.length < maxHandles) :
    exists y w', Returns x.copy w y w' ∧ y.isSafe = x.isSafe ∧ y.StandsFor t v? ∧
      Beside t w [] w' := by
  have hrefl := Beside.refl h.ample
  cases h.stands with
  | @manual d hstands =>
      rcases hstands.returns_mapM (f := ManualRef.copy) hrefl (fun v k r hv hkind hr hvia =>
        ManualRef.returns_copy h.ledger hroom (RefKind.behind hkind).1 (h.ample_one hv hkind) hvia
          (h.mem v r.id hv (congrArg (Option.map ManualRef.id) hr))) with
        ⟨d', w', hrun, hstands', hbeside⟩
      exact ⟨_, w', Returns.bind hrun (Returns.pure _ _), rfl, .manual hstands', hbeside⟩
  | @owned d hstands =>
      rcases hstands.returns_mapM (f := OwnedRef.copy) hrefl (fun v k r hv hkind hr hvia =>
        OwnedRef.returns_copy h.ledger hroom (RefKind.behind hkind).1 (h.ample_one hv hkind) hvia
          (h.mem v r.id hv (congrArg (Option.map OwnedRef.id) hr))) with
        ⟨d', w', hrun, hstands', hbeside⟩
      exact ⟨_, w', Returns.bind hrun (Returns.pure _ _), rfl, .owned hstands', hbeside⟩

theorem returns_fromManual {d : ManualValue} (h : Usable es t v? (.manualValue d) w) :
    exists (d' : OwnedValue) (w' : World), Returns (OwnedValue.fromManual d) w d' w' ∧
      d'.StandsFor (OwnedRef.Via t) v? ∧ Beside t w [] w' := by
  cases h.stands with
  | manual hstands =>
      exact hstands.returns_mapM (Beside.refl h.ample) fun v k r hv hkind _ hvia =>
        OwnedRef.returns_fromManual h.ledger (h.ample_one hv hkind) hvia

theorem returns_intoSafe (h : Usable es t v? x w) :
    exists y w', Returns (Turn.run .intoSafe x) w (some y) w' ∧ y.isSafe = true ∧
      y.StandsFor t v? ∧ Beside t w [] w' := by
  cases x with
  | manualValue d =>
      rcases h.returns_fromManual with ⟨d', w', hrun, hstands, hbeside⟩
      exact ⟨_, w', Returns.bind hrun (Returns.pure _ _), rfl, .owned hstands, hbeside⟩
  | ownedValue d => exact ⟨_, w, Returns.pure _ w, rfl, h.stands, Beside.refl h.ample⟩
  | _ => cases h.stands

theorem returns_intoUnsafe (h : Usable es t v? x w) :
    exists y w', Returns (Turn.run .intoUnsafe x) w (some y) w' ∧ y.isSafe = false ∧
      y.StandsFor t v? ∧ Beside t w [] w' := by
  have hrefl := Beside.refl h.ample
  cases h.stands with
  | manual hstands => exact ⟨_, w, Returns.pure _ w, rfl, .manual hstands, hrefl⟩
  | owned hstands =>
      rcases hstands.returns_mapM (f := OwnedRef.toManual) hrefl (fun v k r _ _ _ hvia =>
        OwnedRef.returns_toManual h.ample hvia) with ⟨d', w', hrun, hstands', hbeside⟩
      exact ⟨_, w', Returns.bind hrun (Returns.pure _ _), rfl, .manual hstands', hbeside⟩

theorem returns_due (h : Usable es t v? x w) {m : Nat}
    (hliveness : w.liveness = Liveness.owned true (m + 1)) :
    exists w', Returns (x.due.run x) w none w' ∧ Beside t w [] w' := by
  have hrefl := Beside.refl h.ample
  have hcons {v : Value} {id : RefId} (hmem : (id, v) ∈ es) :
      Ledger ((id, v) :: es.erase (id, v)) w :=
    h.ledger.perm (List.perm_cons_erase hmem)
  cases h.stands with
  | @manual d hstands =>
      cases hstands with
      | @behind v k r hkind hvia =>
          have hmem := h.mem v r.id rfl rfl
          rcases returns_registryUnref_beside (hcons hmem) h.ample with ⟨w', hrun, hbeside⟩
          exact ⟨w', Returns.bind hrun (Returns.pure _ _), hbeside⟩
      | _ => exact ⟨w, Returns.pure _ w, hrefl⟩
  | @owned d hstands =>
      cases hstands with
      | @behind v k r hkind hvia =>
          have hmem := h.mem v r.id rfl rfl
          rcases OwnedRef.returns_drop (hcons hmem) h.ample hvia hliveness with ⟨w', hrun, hbeside⟩
          exact ⟨w', Returns.bind hrun (Returns.pure _ _), hbeside⟩
      | _ => exact ⟨w, Returns.pure _ w, hrefl⟩

theorem returns_copyToHost {d : OwnedValue} (h : Usable es t v? (.ownedValue d) w) :
    exists w', Returns d.copyToHost w (v?.bind w.heap.formOf?) w' ∧ w.Kept w' ∧
      Beside t w [] w' := by
  cases h.stands with
  | owned hstands =>
      refine OwnedValue.returns_copyToHost h.ledger hstands h.ample fun v r hv hr => ?_
      exact h.mem v r.id hv (congrArg (Option.map OwnedRef.id) hr)

end Usable

/-!
# Using handles
-/

/-- What is done with one of several handles, which is named by its place. -/
inductive Use where
  | copy (n : Nat)
  | intoSafe (n : Nat)
  | intoUnsafe (n : Nat)
  | copyToHost (n : Nat)
  | dispose (n : Nat)

def Use.made : Use → Nat
  | .copy _ => 1
  | _ => 0

/-- Which of some handles are owned, and how many copies were made for the host. -/
structure Outline where
  owned : List Bool
  copies : Nat := 0

/-- What a use comes to; only an owned value can be copied for the host. -/
def Outline.use (o : Outline) : Use → Outline
  | .copy n => { o with owned := o.owned[n]?.toList ++ o.owned }
  | .intoSafe n => { o with owned := o.owned.set n true }
  | .intoUnsafe n => { o with owned := o.owned.set n false }
  | .copyToHost n => if o.owned[n]? = some true then { o with copies := o.copies + 1 } else o
  | .dispose n => { o with owned := o.owned.eraseIdx n }

theorem Outline.length_use_le (o : Outline) (u : Use) :
    (o.use u).owned.length ≤ o.owned.length + u.made := by
  cases u with
  | copy n =>
      show (o.owned[n]?.toList ++ o.owned).length ≤ o.owned.length + 1
      rw [List.length_append]
      have hone : o.owned[n]?.toList.length ≤ 1 := by
        cases o.owned[n]? with
        | none => exact Nat.zero_le 1
        | some _ => exact Nat.le_refl 1
      omega
  | intoSafe n => exact Nat.le_of_eq (List.length_set ..)
  | intoUnsafe n => exact Nat.le_of_eq (List.length_set ..)
  | copyToHost n =>
      unfold Outline.use
      dsimp only
      split <;> exact Nat.le_refl _
  | dispose n => exact List.length_eraseIdx_le o.owned n

/-- The handles that there are, and the copies that were made for the host. -/
structure Bench where
  handles : List Handle
  copies : List (Option Data.Value) := []

namespace Bench

def outline (b : Bench) : Outline where
  owned := b.handles.map Handle.isSafe
  copies := b.copies.length

/-- Uses a handle up; another one takes its place, or none. -/
def turn (b : Bench) (n : Nat) (a : Handle → Turn) : M Bench :=
  match b.handles[n]? with
  | some x => do
    match ← (a x).run x with
    | some y => return { b with handles := b.handles.set n y }
    | none => return { b with handles := b.handles.eraseIdx n }
  | none => return b

def copy (b : Bench) (n : Nat) : M Bench :=
  match b.handles[n]? with
  | some x => do return { b with handles := (← x.copy) :: b.handles }
  | none => return b

def copyToHost (b : Bench) (n : Nat) : M Bench :=
  match b.handles[n]? with
  | some (.ownedValue d) => do return { b with copies := (← d.copyToHost) :: b.copies }
  | _ => return b

/-- Does what is to be done with the handle at a place, where there is one. -/
def use (b : Bench) : Use → M Bench
  | .copy n => b.copy n
  | .intoSafe n => b.turn n fun _ => .intoSafe
  | .intoUnsafe n => b.turn n fun _ => .intoUnsafe
  | .copyToHost n => b.copyToHost n
  | .dispose n => b.turn n Handle.due

def run (b : Bench) : List Use → M Bench
  | [] => return b
  | u :: us => do (← b.use u).run us

/-- Detaches the value at an index, to be released by hand or not. -/
def detach (safe : Bool) (t : ThreadId) (idx : Int) : M Bench := do
  let x ← createHandle t (if safe then .ownedValueIndex idx else .manualValueIndex idx)
  return { handles := [x] }

end Bench

/-!
# What every use keeps
-/

open Ownership

/-- A state in which there are the handles of a bench, all for one value, besides the others. -/
def Bench.state (b : Bench) (s : State) (v : Value) (w : World) : State :=
  { s with world := w, held := b.handles.map (Holding.mk · v) ++ s.held }

theorem length_entries_le_one (x : Holding) : x.entries.length ≤ 1 := by
  unfold Holding.entries Handle.entries
  cases x.handle.id? with
  | none => exact Nat.zero_le 1
  | some id =>
      show (entry id x.origin).length ≤ 1
      unfold entry
      split
      · exact Nat.zero_le 1
      · exact Nat.le_refl 1

theorem length_entriesOf_le (xs : List Holding) : (entriesOf xs).length ≤ xs.length := by
  induction xs with
  | nil => exact Nat.le_refl 0
  | cons x xs ih =>
      have hone := length_entries_le_one x
      have hsplit : entriesOf (x :: xs) = x.entries ++ entriesOf xs := rfl
      rw [hsplit, List.length_append, List.length_cons]
      omega

theorem Bench.length_entries_le (b : Bench) (s : State) (v : Value) (w : World) :
    (b.state s v w).entries.length ≤ b.handles.length + s.entries.length := by
  have hours := length_entriesOf_le (b.handles.map (Holding.mk · v))
  unfold State.entries Bench.state entriesOf at *
  simp only [List.flatMap_append, List.length_append, List.length_map] at hours ⊢
  omega

theorem exists_parts {α : Type} {xs : List α} {n : Nat} {x : α} (h : xs[n]? = some x) :
    exists before after, xs = before ++ x :: after ∧
      (forall y, xs.set n y = before ++ y :: after) ∧ xs.eraseIdx n = before ++ after := by
  rcases List.getElem?_eq_some_iff.mp h with ⟨hn, rfl⟩
  refine ⟨xs.take n, xs.drop (n + 1), ?_, fun y => ?_, List.eraseIdx_eq_take_drop_succ xs n⟩
  · rw [List.getElem_cons_drop, List.take_append_drop]
  · rw [List.set_eq_take_append_cons_drop, if_pos hn]

theorem Bench.exists_held (b : Bench) {n : Nat} {x : Handle} (h : b.handles[n]? = some x)
    (s : State) (v : Value) (w : World) :
    exists before after, (b.state s v w).held = before ++ ⟨x, v⟩ :: after ∧
      (forall y w', ({ b with handles := b.handles.set n y } : Bench).state s v w' =
        { b.state s v w with world := w', held := before ++ ⟨y, v⟩ :: after }) ∧
      forall w', ({ b with handles := b.handles.eraseIdx n } : Bench).state s v w' =
        { b.state s v w with world := w', held := before ++ after } := by
  rcases exists_parts h with ⟨before, after, hparts, hset, herase⟩
  refine ⟨before.map (Holding.mk · v), after.map (Holding.mk · v) ++ s.held, ?_, ?_, ?_⟩
  · simp only [Bench.state, hparts, List.map_append, List.map_cons, List.append_assoc,
      List.cons_append]
  · intro y w'
    simp only [Bench.state, hset, List.map_append, List.map_cons, List.append_assoc,
      List.cons_append]
  · intro w'
    simp only [Bench.state, herase, List.map_append, List.append_assoc]

/-- The handles of a bench are those of a run, the copies are the one that there is, and the stack
is as it was. -/
structure Intact (s : State) (t : ThreadId) (idx : Int) (b : Bench) (w : World) : Prop where
  run : Run s (b.state s (s.world.valueAt t idx) w)
  stands : forall x, x ∈ b.handles -> x.StandsFor t (s.world.value? t idx)
  copies : forall f, f ∈ b.copies -> f = s.world.formAt t idx
  beside : Beside t s.world [] w

/-- A value at an index of a machine that runs, which can be detached and copied. -/
structure Ready (s : State) (t : ThreadId) (idx : Int) : Prop where
  sound : Sound s
  running : s.phase = .running
  valid : validIndex (s.world.thread t).height idx = true
  ample : s.world.Ample t (s.world.roomAt t idx)
  apart : s.world.Apart (s.world.valueAt t idx)

variable {s : State} {t : ThreadId} {idx : Int} {b : Bench} {w w' : World} {x y : Handle} {n : Nat}

theorem Ready.ne_closed (hs : Ready s t idx) : s.phase ≠ .closed := by
  rw [hs.running]
  exact nofun

namespace Intact

theorem sound (h : Intact s t idx b w) (hs : Ready s t idx) :
    Sound (b.state s (s.world.valueAt t idx) w) :=
  sound_run hs.sound h.run

theorem ample (h : Intact s t idx b w) (hs : Ready s t idx) :
    w.Ample t ((s.world.value? t idx).elim 0 w.heap.roomFor) := by
  -- what is pushed on the way depends on the depth of the copy, which is still the same
  rw [h.beside.elim_roomFor_eq fun v hv => valueAt_of_value? hv ▸ hs.apart]
  exact h.beside.ample hs.ample

theorem usable (h : Intact s t idx b w) (hs : Ready s t idx) (hx : x ∈ b.handles) :
    Usable (b.state s (s.world.valueAt t idx) w).entries t (s.world.value? t idx) x w := by
  refine ⟨h.stands x hx, (h.sound hs).ledger hs.ne_closed, fun v id hv hid => ?_, h.ample hs⟩
  have hne := (h.stands x hx).id_ne hid
  have hmem : Holding.mk x v ∈ (b.state s (s.world.valueAt t idx) w).held := by
    rw [valueAt_of_value? hv]
    exact List.mem_append_left _ (List.mem_map_of_mem hx)
  refine List.mem_append_left _ (entries_of_mem hmem ?_)
  rw [entries_of_id hid hne]
  exact List.mem_singleton_self _

theorem liveness_eq (h : Intact s t idx b w) (hs : Ready s t idx) :
    exists m, w.liveness = Liveness.owned true (m + 1) := by
  have hliveness := (h.sound hs).liveness_eq
  have hphase : (b.state s (s.world.valueAt t idx) w).phase = .running := hs.running
  rw [hphase] at hliveness
  exact ⟨_, hliveness⟩

/-!
# One step
-/

theorem copied (h : Intact s t idx b w) (hs : Ready s t idx) (hx : x ∈ b.handles)
    (hroom : b.handles.length + 1 + s.entries.length ≤ maxHandles)
    (hrun : Returns x.copy w y w') (hy : y.StandsFor t (s.world.value? t idx))
    (hbeside : Beside t w [] w') : Intact s t idx { b with handles := y :: b.handles } w' := by
  refine ⟨h.run.tail ?_, ?_, h.copies, h.beside.trans hbeside⟩
  · have hmem : Holding.mk x (s.world.valueAt t idx) ∈
        (b.state s (s.world.valueAt t idx) w).held :=
      List.mem_append_left _ (List.mem_map_of_mem hx)
    have hlength := b.length_entries_le s (s.world.valueAt t idx) w
    exact Step.copy (s := b.state s (s.world.valueAt t idx) w) hs.ne_closed hmem (by omega)
      (hrun idle)
  · intro z hz
    cases hz with
    | head => exact hy
    | tail _ hz => exact h.stands z hz

theorem turned (h : Intact s t idx b w) (hs : Ready s t idx) (hx : b.handles[n]? = some x)
    {a : Turn} (hrun : Returns (a.run x) w (some y) w')
    (hy : y.StandsFor t (s.world.value? t idx)) (hbeside : Beside t w [] w') :
    Intact s t idx { b with handles := b.handles.set n y } w' := by
  let v := s.world.valueAt t idx
  rcases b.exists_held hx s v w with ⟨before, after, hheld, hset, _⟩
  refine ⟨h.run.tail ?_, ?_, h.copies, h.beside.trans hbeside⟩
  · rw [hset y w']
    exact Step.turn (s := b.state s v w) hs.ne_closed hheld (hrun idle)
  · intro z hz
    rcases List.mem_or_eq_of_mem_set hz with hz | rfl
    · exact h.stands z hz
    · exact hy

theorem gone (h : Intact s t idx b w) (hs : Ready s t idx) (hx : b.handles[n]? = some x)
    {a : Turn} (hrun : Returns (a.run x) w none w') (hbeside : Beside t w [] w') :
    Intact s t idx { b with handles := b.handles.eraseIdx n } w' := by
  let v := s.world.valueAt t idx
  rcases b.exists_held hx s v w with ⟨before, after, hheld, _, herase⟩
  refine ⟨h.run.tail ?_, ?_, h.copies, h.beside.trans hbeside⟩
  · have hstep := Step.gone (s := b.state s v w) hs.ne_closed hheld (hrun idle)
    rw [remainder_running (p := (b.state s v w).phase) hs.running] at hstep
    rw [herase w']
    exact hstep
  · exact fun z hz => h.stands z (List.mem_of_mem_eraseIdx hz)

theorem shown (h : Intact s t idx b w) (hs : Ready s t idx) (hkept : w.Kept w')
    (hbeside : Beside t w [] w') :
    Intact s t idx { b with copies := s.world.formAt t idx :: b.copies } w' := by
  refine ⟨h.run.tail (.script hs.ne_closed hkept), h.stands, ?_, h.beside.trans hbeside⟩
  intro f hf
  cases hf with
  | head => rfl
  | tail _ hf => exact h.copies f hf

theorem turn (h : Intact s t idx b w) (hs : Ready s t idx) (n : Nat) (a : Turn) (safe : Bool)
    (hturn : forall x, x ∈ b.handles -> exists y w', Returns (a.run x) w (some y) w' ∧
      y.isSafe = safe ∧ y.StandsFor t (s.world.value? t idx) ∧ Beside t w [] w') :
    exists b' w', Returns (b.turn n fun _ => a) w b' w' ∧ Intact s t idx b' w' ∧
      b'.outline = { b.outline with owned := b.outline.owned.set n safe } := by
  unfold Bench.turn Bench.outline
  cases hx : b.handles[n]? with
  | none =>
      refine ⟨b, w, Returns.pure b w, h, ?_⟩
      rw [List.set_eq_of_length_le]
      rw [List.length_map]
      exact List.getElem?_eq_none_iff.mp hx
  | some x =>
      rcases hturn x (List.mem_of_getElem? hx) with ⟨y, w', hrun, hsafe, hy, hbeside⟩
      refine ⟨_, w', Returns.bind hrun (Returns.pure _ w'), h.turned hs hx hrun hy hbeside, ?_⟩
      rw [List.map_set, hsafe]

theorem copy (h : Intact s t idx b w) (hs : Ready s t idx) (n : Nat)
    (hroom : b.handles.length + 1 + s.entries.length ≤ maxHandles) :
    exists b' w', Returns (b.copy n) w b' w' ∧ Intact s t idx b' w' ∧
      b'.outline = { b.outline with owned := b.outline.owned[n]?.toList ++ b.outline.owned } := by
  unfold Bench.copy Bench.outline
  dsimp only
  rw [List.getElem?_map]
  cases hx : b.handles[n]? with
  | none => exact ⟨b, w, Returns.pure b w, h, rfl⟩
  | some x =>
      have hmem := List.mem_of_getElem? hx
      have hlength := b.length_entries_le s (s.world.valueAt t idx) w
      rcases (h.usable hs hmem).returns_copy (by omega) with ⟨y, w', hrun, hsafe, hy, hbeside⟩
      refine ⟨_, w', Returns.bind hrun (Returns.pure _ w'),
        h.copied hs hmem hroom hrun hy hbeside, ?_⟩
      rw [List.map_cons, hsafe]
      rfl

theorem copyToHost (h : Intact s t idx b w) (hs : Ready s t idx) (n : Nat) :
    exists b' w', Returns (b.copyToHost n) w b' w' ∧ Intact s t idx b' w' ∧
      b'.outline = if b.outline.owned[n]? = some true then
        { b.outline with copies := b.outline.copies + 1 } else b.outline := by
  unfold Bench.copyToHost Bench.outline
  dsimp only
  rw [List.getElem?_map]
  cases hx : b.handles[n]? with
  | none => exact ⟨b, w, Returns.pure b w, h, rfl⟩
  | some x =>
      cases x with
      | ownedValue d =>
          rcases (h.usable hs (List.mem_of_getElem? hx)).returns_copyToHost with
            ⟨w', hrun, hkept, hbeside⟩
          -- of the tables only the registry has changed, which the copy does not take in
          have hform : (s.world.value? t idx).bind w.heap.formOf? = s.world.formAt t idx :=
            Option.bind_congr fun v hv => h.beside.formOf?_eq (valueAt_of_value? hv ▸ hs.apart)
          rw [hform] at hrun
          exact ⟨_, w', Returns.bind hrun (Returns.pure _ w'), h.shown hs hkept hbeside, rfl⟩
      | _ => exact ⟨b, w, Returns.pure b w, h, rfl⟩

theorem dispose (h : Intact s t idx b w) (hs : Ready s t idx) (n : Nat) :
    exists b' w', Returns (b.turn n Handle.due) w b' w' ∧ Intact s t idx b' w' ∧
      b'.outline = { b.outline with owned := b.outline.owned.eraseIdx n } := by
  unfold Bench.turn Bench.outline
  cases hx : b.handles[n]? with
  | none =>
      refine ⟨b, w, Returns.pure b w, h, ?_⟩
      rw [List.eraseIdx_of_length_le]
      rw [List.length_map]
      exact List.getElem?_eq_none_iff.mp hx
  | some x =>
      rcases h.liveness_eq hs with ⟨m, hliveness⟩
      rcases (h.usable hs (List.mem_of_getElem? hx)).returns_due hliveness with
        ⟨w', hrun, hbeside⟩
      refine ⟨_, w', Returns.bind hrun (Returns.pure _ w'), h.gone hs hx hrun hbeside, ?_⟩
      rw [List.eraseIdx_map]

/-- A use keeps what there is, and comes to what the outline says. -/
theorem use (h : Intact s t idx b w) (hs : Ready s t idx) (u : Use)
    (hroom : b.handles.length + u.made + s.entries.length ≤ maxHandles) :
    exists b' w', Returns (b.use u) w b' w' ∧ Intact s t idx b' w' ∧
      b'.outline = b.outline.use u := by
  cases u with
  | copy n => exact h.copy hs n hroom
  | intoSafe n => exact h.turn hs n .intoSafe true fun x hx => (h.usable hs hx).returns_intoSafe
  | intoUnsafe n =>
      exact h.turn hs n .intoUnsafe false fun x hx => (h.usable hs hx).returns_intoUnsafe
  | copyToHost n => exact h.copyToHost hs n
  | dispose n => exact h.dispose hs n

theorem run_uses (hs : Ready s t idx) (us : List Use) : forall {b : Bench} {w : World},
    Intact s t idx b w ->
    b.handles.length + (us.map Use.made).sum + s.entries.length ≤ maxHandles ->
    exists b' w', Returns (b.run us) w b' w' ∧ Intact s t idx b' w' ∧
      b'.outline = us.foldl Outline.use b.outline := by
  induction us with
  | nil => exact fun {b w} h _ => ⟨b, w, Returns.pure b w, h, rfl⟩
  | cons u us ih =>
      intro b w h hroom
      rw [List.map_cons, List.sum_cons] at hroom
      rcases h.use hs u (by omega) with ⟨b₁, w₁, hrun, h₁, houtline⟩
      -- the numbers left for the rest are counted by the handles that the outline shows
      have hlength := b.outline.length_use_le u
      rw [← houtline] at hlength
      unfold Bench.outline at hlength
      dsimp only at hlength
      rw [List.length_map, List.length_map] at hlength
      rcases ih h₁ (by omega) with ⟨b₂, w₂, hruns, h₂, houtlines⟩
      rw [houtline] at houtlines
      exact ⟨b₂, w₂, Returns.bind hrun hruns, h₂, houtlines⟩

end Intact

/-!
# Detaching the value
-/

namespace Ready

theorem created (hs : Ready s t idx) (hroom : s.entries.length < maxHandles) {c : CreateStep}
    (hidx : c.index? = some idx) (hrun : Returns (createHandle t c) s.world x w)
    (hx : x.StandsFor t (s.world.value? t idx)) (hbeside : Beside t s.world [] w) :
    Intact s t idx { handles := [x] } w := by
  refine ⟨.single (.create hs.ne_closed hidx hroom (hrun idle)), ?_, nofun, hbeside⟩
  intro y hy
  cases hy with
  | head => exact hx
  | tail _ hy => cases hy

theorem returns_detach (hs : Ready s t idx) (hroom : s.entries.length < maxHandles) (safe : Bool) :
    exists b w', Returns (Bench.detach safe t idx) s.world b w' ∧ Intact s t idx b w' ∧
      b.outline = { owned := [safe] } := by
  have hledger := hs.sound.ledger hs.ne_closed
  rcases ManualValue.returns_fromIndex hledger hroom hs.ample hs.valid with
    ⟨d, w₁, hdetach, hstands, hbeside⟩
  have hcreate : Returns (createHandle t (.manualValueIndex idx)) s.world (.manualValue d) w₁ :=
    Returns.bind hdetach (Returns.pure _ _)
  have hmanual := hs.created hroom rfl hcreate (.manual hstands) hbeside
  cases safe with
  | false => exact ⟨_, w₁, Returns.bind hcreate (Returns.pure _ _), hmanual, rfl⟩
  | true =>
      have husable := hmanual.usable hs (List.mem_singleton_self _)
      rcases husable.returns_fromManual with ⟨d', w₂, hadopt, hstands', hbeside'⟩
      have howned : Returns (createHandle t (.ownedValueIndex idx)) s.world (.ownedValue d') w₂ :=
        Returns.bind (Returns.bind hdetach hadopt) (Returns.pure _ _)
      exact ⟨_, w₂, Returns.bind howned (Returns.pure _ _),
        hs.created hroom rfl howned (.owned hstands') (hbeside.trans hbeside'), rfl⟩

end Ready

/-- The numbers that are taken are those of the live handles, and the others are free. -/
def Tidy (s : State) : Prop :=
  exists free n, Slots s.world.registryTable free (idsOf s.held) n

theorem tidy_of_sound (h : Sound s) (hrunning : s.phase = .running) : Tidy s := by
  have hopen : s.phase ≠ .closed := by
    rw [hrunning]
    exact nofun
  rcases (h.ledger hopen).tracks.2 with ⟨free, n, _, hslots⟩
  unfold State.entries at hslots
  rw [h.lapsed hrunning, List.append_nil] at hslots
  exact ⟨free, n, hslots⟩

/-- Whatever is done with handles that were made for the value at an index, every copy for the
host is the one that is made from the stack, the stack is as it was, and the numbers that are
taken are those of the handles that are left besides those that were there before. -/
theorem run_agrees {libraries : Bool} {E : Engine} {w : World}
    (hopen : openMachine libraries E freshWorld = .ok () w) (hrun : Run { world := w } s)
    (hrunning : s.phase = .running) (hvalid : validIndex (s.world.thread t).height idx = true)
    (hample : s.world.Ample t (s.world.roomAt t idx))
    (hapart : s.world.Apart (s.world.valueAt t idx)) (safe : Bool) (us : List Use)
    (hnumbers : s.entries.length + (us.map Use.made).sum < maxHandles) :
    exists form k w₁ b w₂,
      Returns (toHost t idx) s.world form w₁ ∧ Beside t s.world [] w₁ ∧
      Returns (do (← Bench.detach safe t idx).run us) s.world b w₂ ∧ Beside t s.world [] w₂ ∧
      b.outline = us.foldl Outline.use { owned := [safe] } ∧
      (forall f, f ∈ b.copies -> f = form) ∧
      Returns (typeOf t idx) s.world k s.world ∧
      (form = none ↔ k ∈ [.none, .function, .userData, .thread]) ∧
      (w₂.thread t).values = (s.world.thread t).values ∧
      Tidy s ∧ Tidy (b.state s (s.world.valueAt t idx) w₂) := by
  have hsound := sound_run (sound_opened hopen) hrun
  have hs : Ready s t idx := ⟨hsound, hrunning, hvalid, hample, hapart⟩
  rcases returns_toHost_at hample hvalid with ⟨w₁, hcopy, _, hbeside⟩
  rcases hs.returns_detach (by omega) safe with ⟨b₀, w₀, hdetach, h₀, houtline₀⟩
  have hone : b₀.handles.length = 1 := by
    have hlength := congrArg (fun o : Outline => o.owned.length) houtline₀
    exact (List.length_map _).symm.trans hlength
  rcases Intact.run_uses hs us h₀ (by omega) with ⟨b, w₂, huses, h, houtline⟩
  rw [houtline₀] at houtline
  exact ⟨_, _, w₁, b, w₂, hcopy, hbeside, Returns.bind hdetach huses, h.beside, houtline, h.copies,
    returns_typeOf_at hvalid, s.world.formAt_eq_none t idx,
    h.beside.raised.below.values_eq h.beside.raised.top_eq, tidy_of_sound hsound hrunning,
    tidy_of_sound (h.sound hs) hrunning⟩

/-- A table that holds itself, and a script that leaves it on the main stack. -/
def looped : Table := ({} : Table).set (.int 1) (.table ⟨2⟩)

def pushLooped : M Unit := do
  pushNew ⟨0⟩ (.table (← newTable looped))

@[irreducible] def loopedWorld : World := after pushLooped openedWorld

theorem answered_looped : answer? pushLooped openedWorld = some () := by
  decide +kernel

theorem run_looped : Run { world := openedWorld } { world := loopedWorld } := by
  have hkeeps : Keeps World.Kept pushLooped :=
    (keeps_newTable looped).bind fun i => keeps_pushNew ⟨0⟩ (.table i)
  have hkept : openedWorld.Kept loopedWorld := by
    unfold loopedWorld
    exact (ends_iff.mp (hkeeps.run idle openedWorld)).1 () _ (ok_after answered_looped)
  exact .single (.script nofun hkept)

theorem loopedWorld_eq :
    validIndex (loopedWorld.thread ⟨0⟩).height 1 = true ∧
      loopedWorld.value? ⟨0⟩ 1 = some (.table ⟨2⟩) ∧ loopedWorld.registry ≠ ⟨2⟩ ∧
      loopedWorld.heap.entriesOf ⟨2⟩ = [(.int 1, .table ⟨2⟩)] ∧
      loopedWorld.liveThread ⟨0⟩ = true ∧
      (loopedWorld.thread ⟨0⟩).base ≤ (loopedWorld.thread ⟨0⟩).top ∧
      (loopedWorld.thread ⟨0⟩).top + loopedWorld.roomAt ⟨0⟩ 1 ≤ (loopedWorld.thread ⟨0⟩).limit := by
  decide +kernel

theorem apart_looped : loopedWorld.Apart (loopedWorld.valueAt ⟨0⟩ 1) := by
  rcases loopedWorld_eq with ⟨_, hvalue, hregistry, hentries, _⟩
  have hself {j : TableId} (h : TakesIn loopedWorld.heap.entriesOf ⟨2⟩ j) : j = ⟨2⟩ := by
    induction h with
    | self => rfl
    | entry _ hstep _ ih =>
        rw [ih, hentries] at hstep
        cases List.mem_singleton.mp hstep
        rfl
  rw [valueAt_of_value? hvalue]
  rintro _ ⟨⟩ hin
  exact hregistry (hself hin)

/-- Handed over and back, and copied for the host from a copy of the first handle. -/
def handing : List Use :=
  [.copy 0, .intoSafe 0, .copyToHost 0, .dispose 1, .intoUnsafe 0, .dispose 0]

theorem run_agrees_looped :
    exists form w₁ b w₂,
      Returns (toHost ⟨0⟩ 1) loopedWorld form w₁ ∧
      Returns (do (← Bench.detach false ⟨0⟩ 1).run handing) loopedWorld b w₂ ∧
      form ≠ none ∧ b.copies = [form] ∧ b.handles = [] ∧
      (w₂.thread ⟨0⟩).values = (loopedWorld.thread ⟨0⟩).values := by
  rcases loopedWorld_eq with ⟨hvalid, hvalue, _, _, hlive, hbased, hfits⟩
  rcases run_agrees ok_openedWorld run_looped rfl hvalid ⟨hlive, hbased, hfits⟩ apart_looped false
    handing (by decide) with
    ⟨form, k, w₁, b, w₂, hcopy, _, huses, _, houtline, hcopies, hkind, hform, hvalues, _⟩
  have houtline : b.outline = { owned := [], copies := 1 } := houtline
  have hhandles : b.handles.map Handle.isSafe = [] := congrArg Outline.owned houtline
  have hlength : b.copies.length = 1 := congrArg Outline.copies houtline
  rcases List.length_eq_one_iff.mp hlength with ⟨f, hf⟩
  have hsame : f = form := hcopies f (hf ▸ List.mem_singleton_self f)
  refine ⟨form, w₁, b, w₂, hcopy, huses, ?_, ?_, List.map_eq_nil_iff.mp hhandles, hvalues⟩
  · have htable := returns_typeOf_at hvalid
    rw [hvalue] at htable
    rcases hkind.unique htable with ⟨rfl, _⟩
    exact fun hnone => absurd (hform.mp hnone) (by decide)
  · rw [hf, hsame]

/-- Whether a copy has the key under which the first released number is kept. -/
def showsFree : Option Data.Value → Bool
  | some (.table T) => (T.get (.integer 3)).isSome
  | _ => false

/-- A copy of the registry that is made from a handle shows the handle. -/
theorem registry_copied :
    Run { world := openedWorld } { world := pushedWorld } ∧
    exists form form',
      answer? (toHost ⟨0⟩ 1) pushedWorld = some form ∧
      answer? (do (← OwnedValue.fromIndex ⟨0⟩ 1).copyToHost) pushedWorld = some form' ∧
      form ≠ form' := by
  have hpush : Step { world := openedWorld } { world := pushedWorld } := by
    unfold pushedWorld
    exact .stack (c := .pushValue registryIndex) (b := {}) nofun
      (.ok (.nothing, {}) ((bind_of_ok (bind_of_ok (ok_after answered_dropped.2.1) _) _).trans rfl))
  have hfree : (answer? (toHost ⟨0⟩ 1) pushedWorld).map showsFree = some false ∧
      (answer? (do (← OwnedValue.fromIndex ⟨0⟩ 1).copyToHost) pushedWorld).map showsFree =
        some true := by
    decide +kernel
  rcases Option.map_eq_some_iff.mp hfree.1 with ⟨form, hform, hhidden⟩
  rcases Option.map_eq_some_iff.mp hfree.2 with ⟨form', hform', hshown⟩
  refine ⟨.single hpush, form, form', hform, hform', ?_⟩
  rintro rfl
  rw [hhidden] at hshown
  cases hshown

end Agreeing

end LuaHost
