import LuaHost.Machine.Stack

/-!
# Running computations

Computations that return, step by step.  A computation that runs no script
does the same under every engine, so the engine is quantified away.  Stores
hold objects by number: a change of one object leaves the others alone.
-/

namespace LuaHost

/-!
# Numbers
-/

theorem UserDataId.index_ne {u v : UserDataId} (h : u ≠ v) : u.index ≠ v.index := by
  intro heq
  cases u
  cases v
  exact h (congrArg UserDataId.mk heq)

/-!
# Stores
-/

namespace Store

variable {α : Type}

theorem find?_modify (s : Store α) (i j : Nat) (f : α → α) :
    (s.modify i f).find? j = if i = j then (s.find? j).map f else s.find? j := by
  unfold modify find?
  rw [Array.getElem?_modify]
  by_cases h : i = j
  · rw [if_pos h, if_pos h]
    cases s.items[j]? with
    | none => rfl
    | some o => cases o <;> rfl
  · rw [if_neg h, if_neg h]

theorem live_modify (s : Store α) (i j : Nat) (f : α → α) :
    (s.modify i f).live j = s.live j := by
  unfold live
  rw [find?_modify]
  by_cases h : i = j
  · rw [if_pos h, Option.isSome_map]
  · rw [if_neg h]

theorem next_modify (s : Store α) (i : Nat) (f : α → α) : (s.modify i f).next = s.next :=
  Array.size_modify

theorem write_write (s : Store α) (i : Nat) (x y : α) :
    (s.modify i fun _ => x).modify i (fun _ => y) = s.modify i fun _ => y := by
  unfold modify
  congr 1
  apply Array.ext_getElem?
  intro j
  rw [Array.getElem?_modify, Array.getElem?_modify, Array.getElem?_modify]
  by_cases h : i = j
  · rw [if_pos h, if_pos h, if_pos h]
    cases s.items[j]? with
    | none => rfl
    | some o => cases o <;> rfl
  · rw [if_neg h, if_neg h, if_neg h]

theorem modify_comm (s : Store α) {i j : Nat} (hij : i ≠ j) (f g : α → α) :
    (s.modify i f).modify j g = (s.modify j g).modify i f := by
  unfold modify
  congr 1
  apply Array.ext_getElem?
  intro k
  rw [Array.getElem?_modify, Array.getElem?_modify, Array.getElem?_modify, Array.getElem?_modify]
  by_cases hi : i = k
  · have hj : j ≠ k := fun hj => hij (hi.trans hj.symm)
    rw [if_pos hi, if_pos hi, if_neg hj, if_neg hj]
  · rw [if_neg hi, if_neg hi]

theorem find?_push (s : Store α) (x : α) (j : Nat) :
    (s.push x).find? j = if j = s.next then some x else s.find? j := by
  unfold push find? next
  rw [Array.getElem?_push]
  by_cases h : j = s.items.size
  · rw [if_pos h, if_pos h]
    rfl
  · rw [if_neg h, if_neg h]

theorem modify_push (s : Store α) (x : α) (f : α → α) :
    (s.push x).modify s.next f = s.push (f x) := by
  unfold modify push next
  congr 1
  apply Array.ext_getElem?
  intro j
  rw [Array.getElem?_modify, Array.getElem?_push, Array.getElem?_push]
  by_cases h : s.items.size = j
  · rw [if_pos h, if_pos h.symm, if_pos h.symm]
    rfl
  · rw [if_neg h, if_neg (Ne.symm h), if_neg (Ne.symm h)]

theorem lt_next_of_live {s : Store α} {i : Nat} (h : s.live i = true) : i < s.next := by
  unfold live find? at h
  by_cases hi : i < s.items.size
  · exact hi
  · rw [Array.getElem?_eq_none (Nat.le_of_not_lt hi)] at h
    cases h

theorem modify_of_not_live {s : Store α} {i : Nat} (h : s.live i = false) (f : α → α) :
    s.modify i f = s := by
  unfold live find? at h
  unfold modify
  congr 1
  apply Array.ext_getElem?
  intro j
  rw [Array.getElem?_modify]
  by_cases hij : i = j
  · subst hij
    rw [if_pos rfl]
    cases hx : s.items[i]? with
    | none => rfl
    | some o =>
        cases o with
        | none => rfl
        | some x =>
            rw [hx] at h
            cases h
  · rw [if_neg hij]

theorem modify_id (s : Store α) (i : Nat) : s.modify i (fun x => x) = s := by
  unfold modify
  congr 1
  apply Array.ext_getElem?
  intro j
  rw [Array.getElem?_modify]
  by_cases h : i = j
  · rw [if_pos h]
    cases s.items[j]? with
    | none => rfl
    | some o => cases o <;> rfl
  · rw [if_neg h]

variable [Inhabited α]

theorem get_of_find? {s : Store α} {i : Nat} {x : α} (h : s.find? i = some x) : s.get i = x := by
  unfold get
  rw [h]
  rfl

theorem find?_of_live {s : Store α} {i : Nat} (h : s.live i = true) : s.find? i = some (s.get i) := by
  unfold live at h
  unfold get
  cases hx : s.find? i with
  | none =>
      rw [hx] at h
      cases h
  | some x => rfl

theorem get_push_next (s : Store α) (x : α) : (s.push x).get s.next = x :=
  get_of_find? ((find?_push s x s.next).trans (if_pos rfl))

theorem get_push_of_live {s : Store α} {i : Nat} (h : s.live i = true) (x : α) :
    (s.push x).get i = s.get i := by
  refine get_of_find? ?_
  rw [find?_push, if_neg (Nat.ne_of_lt (lt_next_of_live h))]
  exact find?_of_live h

omit [Inhabited α] in
theorem live_of_find? {s : Store α} {i : Nat} {x : α} (h : s.find? i = some x) :
    s.live i = true := by
  unfold live
  rw [h]
  rfl

omit [Inhabited α] in
theorem live_push_next (s : Store α) (x : α) : (s.push x).live s.next = true :=
  live_of_find? ((find?_push s x s.next).trans (if_pos rfl))

omit [Inhabited α] in
theorem live_push {s : Store α} {i : Nat} (h : s.live i = true) (x : α) : (s.push x).live i = true := by
  unfold live
  rw [find?_push, if_neg (Nat.ne_of_lt (lt_next_of_live h))]
  exact h

theorem get_modify_self {s : Store α} {i : Nat} (h : s.live i = true) (f : α → α) :
    (s.modify i f).get i = f (s.get i) := by
  apply get_of_find?
  rw [find?_modify, if_pos rfl, find?_of_live h]
  rfl

theorem get_modify_ne (s : Store α) {i j : Nat} (h : i ≠ j) (f : α → α) :
    (s.modify i f).get j = s.get j := by
  unfold get
  rw [find?_modify, if_neg h]

/-- A change is the writing of the changed object. -/
theorem modify_eq_write (s : Store α) (i : Nat) (f : α → α) :
    s.modify i f = s.modify i fun _ => f (s.get i) := by
  unfold modify
  congr 1
  apply Array.ext_getElem?
  intro j
  rw [Array.getElem?_modify, Array.getElem?_modify]
  by_cases h : i = j
  · subst h
    rw [if_pos rfl, if_pos rfl]
    cases hx : s.items[i]? with
    | none => rfl
    | some o =>
        cases o with
        | none => rfl
        | some x =>
            have hget : s.get i = x := by
              apply get_of_find?
              unfold find?
              rw [hx]
              rfl
            rw [Option.map_some, Option.map_some, hget]
  · rw [if_neg h, if_neg h]

end Store

namespace World

/-- The world with other tables, and another count of allocations. -/
def withTables (w : World) (s : Store Table) (allocated : Nat) : World :=
  { w with
    heap := { w.heap with tables := s }
    collector := { w.collector with allocated } }

end World

namespace Machine

/-!
# Computations that return
-/

/-- On the world `w` the computation returns `a` and leaves `w'`, whatever the
engine: no script runs. -/
def Returns {α : Type} (x : M α) (w : World) (a : α) (w' : World) : Prop :=
  forall E : Engine, x E w = .ok a w'

variable {α β : Type} {w w' w'' : World}

theorem Returns.pure (a : α) (w : World) : Returns (pure a) w a w := fun _ => rfl

theorem Returns.bind {x : M α} {f : α → M β} {a : α} {b : β} (hx : Returns x w a w')
    (hf : Returns (f a) w' b w'') : Returns (x >>= f) w b w'' := by
  intro E
  show EStateM.bind (x E) (fun a => f a E) w = _
  unfold EStateM.bind
  rw [hx E]
  exact hf E

/-- The engine that runs no script. -/
def idle : Engine :=
  { call := fun _ _ _ _ => throw .exhausted, resume := fun _ _ _ => throw .exhausted }

theorem Returns.unique {x : M α} {a b : α} (h : Returns x w a w') (h' : Returns x w b w'') :
    a = b ∧ w' = w'' := by
  have heq := (h idle).symm.trans (h' idle)
  injection heq with ha hw
  exact ⟨ha, hw⟩

theorem Returns.ok_eq {x : M α} {a b : α} {E : Engine} (h : Returns x w a w')
    (h' : x E w = .ok b w'') : a = b ∧ w' = w'' := by
  have heq := (h E).symm.trans h'
  injection heq with ha hw
  exact ⟨ha, hw⟩

theorem ok_bind {x : M α} {f : α → M β} {E : Engine} {b : β}
    (h : (x >>= f) E w = .ok b w'') :
    exists a w', x E w = .ok a w' ∧ f a E w' = .ok b w'' := by
  have hbind : EStateM.bind (x E) (fun a => f a E) w = .ok b w'' := h
  unfold EStateM.bind at hbind
  cases hx : x E w with
  | ok a w' =>
      rw [hx] at hbind
      exact ⟨a, w', rfl, hbind⟩
  | error r w' =>
      rw [hx] at hbind
      cases hbind

theorem Returns.ok_bind {x : M α} {f : α → M β} {E : Engine} {a : α} {b : β}
    (hx : Returns x w a w') (h : (x >>= f) E w = .ok b w'') : f a E w' = .ok b w'' := by
  rcases Machine.ok_bind h with ⟨a', w₁, ha, hf⟩
  rcases hx.ok_eq ha with ⟨rfl, rfl⟩
  exact hf

theorem returns_get (w : World) : Returns get w w w := fun _ => rfl

theorem returns_modify (f : World → World) (w : World) : Returns (modify f) w () (f w) :=
  fun _ => rfl

theorem returns_newTable (w : World) (T : Table) :
    Returns (newTable T) w ⟨w.heap.tables.next⟩
      (w.withTables (w.heap.tables.push T) (w.collector.allocated + 1)) :=
  fun _ => rfl

theorem returns_modifyTable (w : World) (i : TableId) (f : Table → Table) :
    Returns (modifyTable i f) w ()
      (w.withTables (w.heap.tables.modify i.index f) w.collector.allocated) :=
  fun _ => rfl

theorem bind_of_ok {x : M α} {E : Engine} {a : α} (h : x E w = .ok a w') (f : α → M β) :
    (x >>= f) E w = f a E w' := by
  show EStateM.bind (x E) (fun a => f a E) w = _
  unfold EStateM.bind
  rw [h]

theorem bind_of_error {x : M α} {E : Engine} {r : Raise} (h : x E w = .error r w')
    (f : α → M β) : (x >>= f) E w = .error r w' := by
  show EStateM.bind (x E) (fun a => f a E) w = _
  unfold EStateM.bind
  rw [h]

theorem bind_congr_of_eq {x y : M α} {E : Engine} (h : x E w = y E w') (f : α → M β) :
    (x >>= f) E w = (y >>= f) E w' := by
  show EStateM.bind (x E) (fun a => f a E) w = EStateM.bind (y E) (fun a => f a E) w'
  unfold EStateM.bind
  rw [h]

/-!
# Computations that run no script
-/

/-- The world in which a computation ends. -/
def after {α : Type} (x : M α) (w : World) : World :=
  match x idle w with
  | .ok _ w' => w'
  | .error _ w' => w'

def answer? {α : Type} (x : M α) (w : World) : Option α :=
  match x idle w with
  | .ok a _ => some a
  | .error _ _ => none

theorem ok_after {α : Type} {x : M α} {w : World} {a : α} (h : answer? x w = some a) :
    x idle w = .ok a (after x w) := by
  unfold answer? at h
  unfold after
  cases hx : x idle w with
  | ok b w' =>
      rw [hx] at h
      cases h
      rfl
  | error r w' =>
      rw [hx] at h
      cases h

/-!
# What a computation comes to
-/

abbrev Outcome (α : Type) := EStateM.Result Raise World α

def Outcome.raise? {α : Type} : Outcome α → Option Raise
  | .ok _ _ => none
  | .error r _ => some r

def Outcome.answer? {α : Type} : Outcome α → Option α
  | .ok a _ => some a
  | .error _ _ => none

def Outcome.world {α : Type} : Outcome α → World
  | .ok _ w => w
  | .error _ w => w

theorem error_of_raise? {α : Type} {o : Outcome α} {r : Raise} (h : o.raise? = some r) :
    o = .error r o.world := by
  cases o with
  | ok => cases h
  | error r' w =>
      cases h
      rfl

theorem ok_of_answer? {α : Type} {o : Outcome α} {a : α} (h : o.answer? = some a) :
    o = .ok a o.world := by
  cases o with
  | ok a' w =>
      cases h
      rfl
  | error => cases h

section Outcome

variable {E : Engine} {f : α → M β} {out : EStateM.Result Raise World β}

theorem run_congr {x y : M β} (h : x = y) : x E w = y E w := by
  rw [h]

theorem ok_andThen {x : M α} {a : α} (h : x E w = .ok a w') (hf : f a E w' = out) :
    (x >>= f) E w = out :=
  (bind_of_ok h f).trans hf

theorem Returns.andThen {x : M α} {a : α} (h : Returns x w a w') (hf : f a E w' = out) :
    (x >>= f) E w = out :=
  ok_andThen (h E) hf

theorem catch_of_ok {x : M β} {b : β} {g : Raise → M β} (h : x E w = .ok b w') :
    (tryCatch x g) E w = .ok b w' := by
  show EStateM.tryCatch (x E) (fun r => g r E) w = _
  unfold EStateM.tryCatch
  rw [h]

theorem catch_of_error {x : M β} {r : Raise} {g : Raise → M β} (h : x E w = .error r w')
    (hg : g r E w' = out) : (tryCatch x g) E w = out := by
  show EStateM.tryCatch (x E) (fun r => g r E) w = _
  unfold EStateM.tryCatch
  rw [h]
  exact hg

theorem catch_congr {x y : M β} (h : x E w = y E w') (g : Raise → M β) :
    (tryCatch x g) E w = (tryCatch y g) E w' := by
  show EStateM.tryCatch (x E) (fun r => g r E) w = EStateM.tryCatch (y E) (fun r => g r E) w'
  unfold EStateM.tryCatch
  rw [h]

end Outcome

/-!
# Computations that may leave the normal course
-/

/-- However the computation ends: `Q` if it returns, `R` if it does not. -/
def Ends {α : Type} (x : M α) (E : Engine) (w : World) (Q : α → World → Prop)
    (R : World → Prop) : Prop :=
  match x E w with
  | .ok a w' => Q a w'
  | .error _ w' => R w'

theorem ends_iff {x : M α} {E : Engine} {Q : α → World → Prop} {R : World → Prop} :
    Ends x E w Q R ↔ (forall a w', x E w = .ok a w' -> Q a w') ∧
      (forall r w', x E w = .error r w' -> R w') := by
  unfold Ends
  cases x E w with
  | ok a w' =>
      constructor
      · intro h
        constructor
        · intro a' w'' heq
          injection heq with ha hw
          rw [← ha, ← hw]
          exact h
        · intro r' w'' heq
          cases heq
      · intro h
        exact h.1 a w' rfl
  | error r w' =>
      constructor
      · intro h
        constructor
        · intro a' w'' heq
          cases heq
        · intro r' w'' heq
          injection heq with hr hw
          rw [← hw]
          exact h
      · intro h
        exact h.2 r w' rfl

theorem Ends.bind {x : M α} {f : α → M β} {E : Engine} {P : α → World → Prop}
    {Q : β → World → Prop} {R : World → Prop} (hx : Ends x E w P R)
    (hf : forall a w', P a w' -> Ends (f a) E w' Q R) : Ends (x >>= f) E w Q R := by
  unfold Ends at hx
  show match EStateM.bind (x E) (fun a => f a E) w with
    | .ok a w' => Q a w'
    | .error _ w' => R w'
  unfold EStateM.bind
  cases hrun : x E w with
  | ok a w' =>
      rw [hrun] at hx
      exact hf a w' hx
  | error r w' =>
      rw [hrun] at hx
      exact hx

theorem Ends.imp {x : M α} {E : Engine} {Q Q' : α → World → Prop} {R R' : World → Prop}
    (h : Ends x E w Q R) (hQ : forall a w', Q a w' -> Q' a w') (hR : forall w', R w' -> R' w') :
    Ends x E w Q' R' := by
  unfold Ends at h ⊢
  cases hrun : x E w with
  | ok a w' =>
      rw [hrun] at h
      exact hQ a w' h
  | error r w' =>
      rw [hrun] at h
      exact hR w' h

theorem Returns.ends {x : M α} {a : α} (h : Returns x w a w') {E : Engine}
    {Q : α → World → Prop} {R : World → Prop} (hQ : Q a w') : Ends x E w Q R := by
  unfold Ends
  rw [h E]
  exact hQ

theorem Ends.after {x : M α} {f : α → M β} {E : Engine} {a : α} {Q : β → World → Prop}
    {R : World → Prop} (hx : Returns x w a w') (hf : Ends (f a) E w' Q R) :
    Ends (x >>= f) E w Q R := by
  unfold Ends
  show match EStateM.bind (x E) (fun a => f a E) w with
    | .ok a w' => Q a w'
    | .error _ w' => R w'
  unfold EStateM.bind
  rw [hx E]
  exact hf

/-!
# Computations that only read
-/

/-- The computation returns and leaves the world as it is. -/
def Reads {α : Type} (x : M α) (w : World) : Prop := exists a, Returns x w a w

theorem Reads.pure (a : α) (w : World) : Reads (pure a) w := ⟨a, Returns.pure a w⟩

theorem Reads.bind {x : M α} {f : α → M β} (hx : Reads x w) (hf : forall a, Reads (f a) w) :
    Reads (x >>= f) w := by
  rcases hx with ⟨a, hx⟩
  rcases hf a with ⟨b, hf⟩
  exact ⟨b, Returns.bind hx hf⟩

theorem reads_thread (t : ThreadId) (w : World) : Reads (thread t) w := ⟨_, fun _ => rfl⟩

theorem reads_closure (c : ClosureId) (w : World) : Reads (closure c) w := ⟨_, fun _ => rfl⟩

theorem reads_place (t : ThreadId) (idx : Int) (w : World) : Reads (place t idx) w := by
  unfold place
  refine Reads.bind (reads_thread t w) fun th => ?_
  split
  · exact Reads.pure _ w
  · split
    · exact Reads.pure _ w
    · split
      · exact Reads.pure _ w
      · split
        · refine Reads.bind (reads_closure _ w) fun c => ?_
          split <;> exact Reads.pure _ w
        · exact Reads.pure _ w

theorem reads_valueAt (t : ThreadId) (p : Place) (w : World) : Reads (valueAt t p) w := by
  cases p with
  | slot i => exact Reads.bind (reads_thread t w) fun th => Reads.pure _ w
  | registry => exact ⟨_, Returns.bind (returns_get w) (Returns.pure _ w)⟩
  | upvalue c i =>
      refine Reads.bind (reads_closure c w) fun c => ?_
      split <;> exact Reads.pure _ w
  | nowhere => exact Reads.pure _ w

/-- Where there is a value at an index, both ways of reading it agree. -/
theorem returns_value {t : ThreadId} {idx : Int} {v : Value}
    (h : Returns (value? t idx) w (some v) w) : Returns (value t idx) w v w := by
  rcases reads_place t idx w with ⟨p, hp⟩
  rcases reads_valueAt t p w with ⟨u, hu⟩
  have hread : Returns (value? t idx) w (if p = .nowhere then none else some u) w := by
    refine Returns.bind hp ?_
    cases p with
    | nowhere => exact Returns.pure _ w
    | _ => exact Returns.bind hu (Returns.pure _ w)
  have heq := (Returns.unique h hread).1
  by_cases hnowhere : p = .nowhere
  · rw [if_pos hnowhere] at heq
    cases heq
  · rw [if_neg hnowhere] at heq
    cases heq
    exact Returns.bind hp hu

end Machine

end LuaHost
