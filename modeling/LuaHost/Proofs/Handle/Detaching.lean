import LuaHost.Proofs.Handle.Temporaries

/-!
# Detached values and their copies

A value at an index is copied for the host as it is, or it is detached first and
copied from there.  The copy depends on the tables that it takes in, which do not
change by the way unless the registry is one of them.
-/

namespace LuaHost

open Interface Machine

/-!
# Copies of the same tables
-/

/-- The tables that the copy of a table takes in: those that it leads to under keys
that are copied. -/
inductive TakesIn (entriesOf : TableId → List (Value × Value)) (i : TableId) : TableId → Prop where
  | self : TakesIn entriesOf i i
  | entry {j l : TableId} {k : Value} : TakesIn entriesOf i j →
      (k, .table l) ∈ entriesOf j → k.keyForm?.isSome = true → TakesIn entriesOf i l

theorem TakesIn.inside {entriesOf : TableId → List (Value × Value)} {i j l : TableId} {k : Value}
    (hj : (k, .table j) ∈ entriesOf i) (hk : k.keyForm?.isSome = true)
    (h : TakesIn entriesOf j l) : TakesIn entriesOf i l := by
  induction h with
  | self => exact .entry .self hj hk
  | entry _ hstep hkey ih => exact .entry ih hstep hkey

theorem TableCopy.traverse_congr {entriesOf entriesOf' : TableId → List (Value × Value)}
    (fuel : Nat) : forall (path : List TableId) (i : TableId),
    (forall j, TakesIn entriesOf i j -> entriesOf' j = entriesOf j) ->
    TableCopy.traverse entriesOf' fuel path i = TableCopy.traverse entriesOf fuel path i := by
  -- on the levels that are left; a table inside takes in no more than the one around it
  induction fuel with
  | zero => exact fun _ _ _ => rfl
  | succ fuel ih =>
      intro path i hsame
      unfold TableCopy.traverse
      rw [hsame i .self]
      refine List.foldl_ext _ _ _ fun c e he => ?_
      rcases e with ⟨k, v⟩
      unfold TableCopy.addEntry
      cases hkey : k.keyForm? with
      | none => rfl
      | some key =>
          cases v with
          | table j =>
              have hinner := ih (i :: path) j fun l hl =>
                hsame l (hl.inside he (by rw [hkey]; rfl))
              dsimp only
              rw [hinner]
          | _ => rfl

namespace Heap

/-- The host's copy of a value; functions, userdata and threads have none. -/
def formOf? (h : Heap) : Value → Option Data.Value
  | .table i => some (.table (h.copyTable i).table)
  | v => v.scalarForm?

theorem formOf?_eq_none (h : Heap) (v : Value) :
    h.formOf? v = none ↔ v.kind = .function ∨ v.kind = .userData ∨ v.kind = .thread := by
  cases v <;> simp [formOf?, Value.scalarForm?, Value.kind]

/-- How many values a stack has to hold on the way from a value to its copy. -/
def roomFor (h : Heap) : Value → Nat
  | .table i => 1 + 2 * (h.copyTable i).depth
  | .str _ | .native _ | .closure _ | .userdata _ | .thread _ => 1
  | _ => 0

end Heap

namespace World

variable {t : ThreadId} {w w' : World} {vs : List Value}

/-- The registry is not part of a value's copy. -/
def Apart (w : World) (v : Value) : Prop :=
  forall i, v = .table i -> ¬ TakesIn w.heap.entriesOf i w.registry

theorem Beside.copyTable_eq (h : Beside t w vs w') {i : TableId}
    (hapart : ¬ TakesIn w.heap.entriesOf i w.registry) :
    w'.heap.copyTable i = w.heap.copyTable i := by
  rcases h.tables_eq with ⟨T, htables⟩
  have hsize : w'.heap.tables.items.size = w.heap.tables.items.size := by
    rw [htables]
    exact Store.next_modify _ _ _
  unfold Heap.copyTable
  rw [hsize]
  refine TableCopy.traverse_congr _ _ _ fun j hj => ?_
  have hne : w.registry.index ≠ j.index := by
    intro heq
    have hregistry : j = w.registry := congrArg TableId.mk heq.symm
    exact hapart (hregistry ▸ hj)
  unfold Heap.entriesOf
  rw [htables, Store.get_modify_ne _ hne]

theorem Beside.formOf?_eq (h : Beside t w vs w') {v : Value} (hapart : w.Apart v) :
    w'.heap.formOf? v = w.heap.formOf? v := by
  cases v with
  | table i =>
      exact congrArg (fun c : TableCopy => some (Data.Value.table c.table))
        (h.copyTable_eq (hapart i rfl))
  | _ => rfl

theorem Beside.roomFor_eq (h : Beside t w vs w') {v : Value} (hapart : w.Apart v) :
    w'.heap.roomFor v = w.heap.roomFor v := by
  cases v with
  | table i =>
      exact congrArg (fun c : TableCopy => 1 + 2 * c.depth) (h.copyTable_eq (hapart i rfl))
  | _ => rfl

theorem Beside.elim_roomFor_eq (h : Beside t w vs w') {v? : Option Value}
    (hapart : forall v, v? = some v -> w.Apart v) :
    v?.elim 0 w'.heap.roomFor = v?.elim 0 w.heap.roomFor := by
  cases v? with
  | none => rw [Option.elim_none, Option.elim_none]
  | some v => exact h.roomFor_eq (hapart v rfl)

end World

/-!
# Detached values
-/

/-- A value that is held behind a handle is not `nil`, and takes room. -/
theorem RefKind.behind {v : Value} {k : RefKind} (h : v.kind = k.kind) :
    v ≠ .nil ∧ forall heap : Heap, 1 ≤ heap.roomFor v := by
  cases v with
  | table i => exact ⟨nofun, fun heap => Nat.le_add_right 1 _⟩
  | str _ => exact ⟨nofun, fun _ => Nat.le_refl 1⟩
  | native _ => exact ⟨nofun, fun _ => Nat.le_refl 1⟩
  | closure _ => exact ⟨nofun, fun _ => Nat.le_refl 1⟩
  | userdata _ => exact ⟨nofun, fun _ => Nat.le_refl 1⟩
  | thread _ => exact ⟨nofun, fun _ => Nat.le_refl 1⟩
  | _ => cases k <;> cases h

/-- A detached value that stands for what there is at an index; `P` says which handles
there can be. -/
inductive Detached.StandsFor {ρ : Type} (P : ρ → Prop) : Option Value → Detached ρ → Prop where
  | absent : StandsFor P Option.none .none
  | nil : StandsFor P (some .nil) .nil
  | bool (b : Bool) : StandsFor P (some (.bool b)) (.bool b)
  | int (i : Int64) : StandsFor P (some (.int i)) (.number (.int i))
  | float (x : Double) : StandsFor P (some (.float x)) (.number (.float x))
  | light (p : UInt64) : StandsFor P (some (.light p)) (.light p)
  | behind {v : Value} {k : RefKind} {r : ρ} : v.kind = k.kind → P r →
      StandsFor P (some v) (.ref k r)

theorem Detached.StandsFor.returns_mapM {ρ σ : Type} {P : ρ → Prop} {Q : σ → Prop}
    {R : World → Prop} {f : ρ → M σ} {d : Detached ρ} {v? : Option Value} {w : World}
    (h : d.StandsFor P v?) (hrefl : R w)
    (hf : forall v k r, v? = some v -> v.kind = RefKind.kind k -> d.reference? = some r -> P r ->
      exists r' w', Returns (f r) w r' w' ∧ Q r' ∧ R w') :
    exists d' w', Returns (d.mapM f) w d' w' ∧ d'.StandsFor Q v? ∧ R w' := by
  cases h with
  | absent => exact ⟨_, w, Returns.pure _ w, .absent, hrefl⟩
  | nil => exact ⟨_, w, Returns.pure _ w, .nil, hrefl⟩
  | bool b => exact ⟨_, w, Returns.pure _ w, .bool b, hrefl⟩
  | int i => exact ⟨_, w, Returns.pure _ w, .int i, hrefl⟩
  | float x => exact ⟨_, w, Returns.pure _ w, .float x, hrefl⟩
  | light p => exact ⟨_, w, Returns.pure _ w, .light p, hrefl⟩
  | @behind v k r hkind hP =>
      rcases hf v k r rfl hkind rfl hP with ⟨r', w', hrun, hQ, hR⟩
      exact ⟨.ref k r', w', Returns.bind hrun (Returns.pure _ _), .behind hkind hQ, hR⟩

variable {es : List (RefId × Value)} {w w' : World} {t : ThreadId} {idx : Int} {n : Nat}

def World.roomAt (w : World) (t : ThreadId) (idx : Int) : Nat :=
  (w.value? t idx).elim 0 w.heap.roomFor

def World.formAt (w : World) (t : ThreadId) (idx : Int) : Option Data.Value :=
  (w.value? t idx).bind w.heap.formOf?

theorem World.formAt_eq_none (w : World) (t : ThreadId) (idx : Int) :
    w.formAt t idx = none ↔
      (w.value? t idx).elim .none Value.kind ∈ [.none, .function, .userData, .thread] := by
  unfold World.formAt
  cases w.value? t idx with
  | none => exact ⟨fun _ => List.mem_cons_self .., fun _ => rfl⟩
  | some v =>
      refine (w.heap.formOf?_eq_none v).trans ?_
      cases v <;> simp [Value.kind]

theorem World.valueAt_of_value? {v : Value} (h : w.value? t idx = some v) :
    w.valueAt t idx = v := by
  unfold World.value? at h
  split at h
  · cases h
  · exact Option.some.inj h

open World

theorem returns_typeOf_at (hvalid : validIndex (w.thread t).height idx = true) :
    Returns (typeOf t idx) w ((w.value? t idx).elim .none Value.kind) w := by
  have hread := returns_value?_at w t idx
  refine Returns.bind (returns_checkIndex hvalid) (Returns.bind hread ?_)
  cases w.value? t idx <;> exact Returns.pure _ _

theorem ManualValue.returns_fromIndex_plain {v : Value} (hv : w.value? t idx = some v)
    (hvalid : validIndex (w.thread t).height idx = true)
    (hplain : forall k : RefKind, v.kind ≠ k.kind) :
    exists d : ManualValue, Returns (ManualValue.fromIndex t idx) w d w ∧
      d.StandsFor (ManualRef.Via t) (some v) := by
  have hcheck := returns_checkIndex hvalid
  have hkind := returns_typeOf_at hvalid
  have hvalue := returns_value_at w t idx
  rw [hv] at hkind
  rw [valueAt_of_value? hv] at hvalue
  have hlook {α : Type} (f : Value → α) :
      Returns (do checkIndex t idx; return f (← value t idx) : M α) w (f v) w :=
    Returns.bind hcheck (Returns.bind hvalue (Returns.pure _ _))
  -- the kind of the value is looked up first, and decides which look follows
  cases v with
  | nil => exact ⟨.nil, Returns.bind hkind (Returns.pure _ _), .nil⟩
  | bool b =>
      have hread : Returns (toBoolean t idx) w b w := by
        have hlook := hlook Value.isTrue
        cases b <;> exact hlook
      exact ⟨.bool b, Returns.bind hkind (Returns.bind hread (Returns.pure _ _)), .bool b⟩
  | int i =>
      have hinteger : Returns (isInteger t idx) w true w := Returns.bind hvalue (Returns.pure _ _)
      have hread : Returns (toInteger t idx) w (some i) w := hlook Value.toInt64?
      refine ⟨.number (.int i), Returns.bind hkind (Returns.bind hinteger ?_), .int i⟩
      exact Returns.bind hread (Returns.pure _ _)
  | float x =>
      have hinteger : Returns (isInteger t idx) w false w := Returns.bind hvalue (Returns.pure _ _)
      have hread : Returns (toNumber t idx) w (some x) w := hlook Value.toDouble?
      refine ⟨.number (.float x), Returns.bind hkind (Returns.bind hinteger ?_), .float x⟩
      exact Returns.bind hread (Returns.pure _ _)
  | light p =>
      have hread : Returns (toUserDataAddress t idx) w (if p == 0 then none else some p) w :=
        Returns.bind hcheck (Returns.bind hvalue (Returns.pure _ _))
      have hp : (if p == 0 then none else some p).getD 0 = p := by
        split
        · next hzero => exact (beq_iff_eq.mp hzero).symm
        · rfl
      refine ⟨.light p, Returns.bind hkind (Returns.bind hread ?_), .light p⟩
      rw [hp]
      exact Returns.pure _ _
  | str s => exact absurd rfl (hplain .string)
  | table i => exact absurd rfl (hplain .table)
  | native f => exact absurd rfl (hplain .function)
  | closure c => exact absurd rfl (hplain .function)
  | userdata u => exact absurd rfl (hplain .userData)
  | thread c => exact absurd rfl (hplain .thread)

theorem ManualValue.returns_fromIndex_behind (h : Ledger es w) (hroom : es.length < maxHandles)
    (hample : w.Ample t 1) (hvalid : validIndex (w.thread t).height idx = true)
    {v : Value} (hv : w.value? t idx = some v) {k : RefKind} (hk : v.kind = k.kind) :
    exists (d : ManualValue) (w' : World), Returns (ManualValue.fromIndex t idx) w d w' ∧
      d.StandsFor (ManualRef.Via t) (some v) ∧ Beside t w [] w' := by
  have hkind := returns_typeOf_at hvalid
  rw [hv] at hkind
  have hkind : Returns (typeOf t idx) w k.kind w := hk ▸ hkind
  have hne := (RefKind.behind hk).1
  rw [← valueAt_of_value? hv] at hne
  rcases ManualRef.returns_fromIndex h hroom hne hample hvalid with ⟨r, w', hrun, hvia, hbeside⟩
  refine ⟨.ref k r, w', Returns.bind hkind ?_, .behind hk hvia, hbeside⟩
  have hbehind : Returns (do return .ref k (← ManualRef.fromIndex t idx) : M ManualValue) w
      (.ref k r) w' :=
    Returns.bind hrun (Returns.pure _ _)
  cases k <;> exact hbehind

theorem ManualValue.returns_fromIndex (h : Ledger es w) (hroom : es.length < maxHandles)
    (hample : w.Ample t (w.roomAt t idx)) (hvalid : validIndex (w.thread t).height idx = true) :
    exists (d : ManualValue) (w' : World), Returns (ManualValue.fromIndex t idx) w d w' ∧
      d.StandsFor (ManualRef.Via t) (w.value? t idx) ∧ Beside t w [] w' := by
  cases hv : w.value? t idx with
  | none =>
      have hkind := returns_typeOf_at hvalid
      rw [hv] at hkind
      exact ⟨.none, w, Returns.bind hkind (Returns.pure _ _), .absent, Beside.refl hample⟩
  | some v =>
      by_cases hobject : exists k : RefKind, v.kind = k.kind
      · rcases hobject with ⟨k, hk⟩
        have hone : 1 ≤ w.roomAt t idx := by
          unfold World.roomAt
          rw [hv]
          exact (RefKind.behind hk).2 w.heap
        exact ManualValue.returns_fromIndex_behind h hroom (hample.mono hone) hvalid hv hk
      · have hplain (k : RefKind) : v.kind ≠ k.kind := fun hk => hobject ⟨k, hk⟩
        rcases ManualValue.returns_fromIndex_plain hv hvalid hplain with ⟨d, hrun, hstands⟩
        exact ⟨d, w, hrun, hstands, Beside.refl hample⟩

/-!
# Copies
-/

theorem returns_toHost_at (hample : w.Ample t (w.roomAt t idx))
    (hvalid : validIndex (w.thread t).height idx = true) :
    exists w', Returns (toHost t idx) w (w.formAt t idx) w' ∧ w.Kept w' ∧ Beside t w [] w' := by
  have hread := returns_value?_at w t idx
  have hbeside := Beside.refl hample
  unfold World.roomAt at hample
  unfold World.formAt
  have hafter {form : Option Data.Value} {w' : World}
      (hcopy : Returns (copyValueOut t (w.value? t idx)) w form w') :
      Returns (toHost t idx) w form w' :=
    Returns.bind (returns_checkIndex hvalid) (Returns.bind hread hcopy)
  cases hv : w.value? t idx with
  | none =>
      rw [hv] at hafter
      exact ⟨w, hafter (Returns.pure _ _), Kept.refl w, hbeside⟩
  | some v =>
      rw [hv] at hafter hample
      cases v with
      | table i =>
          have hfits := hample.fits
          have hdeep : (w.thread t).top + 2 * (w.heap.copyTable i).depth ≤ (w.thread t).limit := by
            have hroom : (w.thread t).top + (1 + 2 * (w.heap.copyTable i).depth) ≤
              (w.thread t).limit := hfits
            omega
          rcases (Disassembling.needs_copyTableOut hample.live i).returns hdeep with
            ⟨_, w', hcopy, rfl, hduring⟩
          refine ⟨w', hafter (Returns.bind hcopy (Returns.pure _ _)), ?_, ?_⟩
          · exact Loaded.kept _ hduring
          · exact Beside.ofLoaded _ hduring
      | _ => exact ⟨w, hafter (Returns.pure _ _), Kept.refl w, hbeside⟩

theorem OwnedValue.returns_copyToHost {d : OwnedValue} {v? : Option Value} (h : Ledger es w)
    (hstands : d.StandsFor (OwnedRef.Via t) v?) (hample : w.Ample t (v?.elim 0 w.heap.roomFor))
    (hmem : forall v r, v? = some v -> d.reference? = some r -> (r.id, v) ∈ es) :
    exists w', Returns d.copyToHost w (v?.bind w.heap.formOf?) w' ∧ w.Kept w' ∧
      Beside t w [] w' := by
  have hbeside := Beside.refl hample
  cases hstands with
  | @behind v k r hkind hvia =>
      have hentry := hmem v r rfl rfl
      have hnone (hform : v.kind = .function ∨ v.kind = .userData ∨ v.kind = .thread) :
          exists w', Returns (pure none) w (w.heap.formOf? v) w' ∧ w.Kept w' ∧
            Beside t w [] w' := by
        rw [(w.heap.formOf?_eq_none v).mpr hform]
        exact ⟨w, Returns.pure _ w, Kept.refl w, hbeside⟩
      cases k with
      | string =>
          cases v with
          | str s =>
              rcases StringRef.returns_toText h hample hvia hentry with ⟨w', hrun, hrest⟩
              exact ⟨w', Returns.bind hrun (Returns.pure _ _), hrest⟩
          | _ => cases hkind
      | table =>
          cases v with
          | table i =>
              rcases TableRef.returns_copyToHost h hample hvia hentry with ⟨w', hrun, hrest⟩
              exact ⟨w', Returns.bind hrun (Returns.pure _ _), hrest⟩
          | _ => cases hkind
      | function => exact hnone (.inl hkind)
      | userData => exact hnone (.inr (.inl hkind))
      | thread => exact hnone (.inr (.inr hkind))
  | _ => exact ⟨w, Returns.pure _ _, Kept.refl w, hbeside⟩

end LuaHost
