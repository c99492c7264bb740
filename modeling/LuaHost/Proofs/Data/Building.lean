import LuaHost.Proofs.Data.Writing

/-!
# Tables that hosts build

Hosts start from an empty table and write.  Every table that is built this
way, and every table inside one, has the layout.
-/

namespace LuaHost

namespace Data

namespace Table

/-!
# Elements and lookup
-/

theorem lookup_of_mem_map {t : Table} (ht : WellFormed t) {k : TableKey} {v : Value}
    (h : (k, v) ∈ t.map) : t.lookup k = some v := by
  have hfind := Entries.find?_of_mem ht.sorted h
  cases ho : offset? t.narr k with
  | none => rw [lookup_of_no_offset ho, hfind]
  | some i =>
      have hi := offset?_some ho
      have hsize := ht.size_lt
      rw [hi.2, find?_position_none ht (by omega) (by omega)] at hfind
      cases hfind

theorem lookup_of_mem_array {t : Table} (ht : WellFormed t) {v : Value} (h : v ∈ t.array) :
    exists k, t.lookup k = some v := by
  rcases Array.mem_iff_getElem?.mp h with ⟨i, hi⟩
  have hlt : i < t.narr := (Array.getElem?_eq_some_iff.mp hi).1
  have hsize := ht.size_lt
  refine ⟨positionKey (i + 1), ?_⟩
  rw [lookup_of_offset (i := i) (by rw [offset?_positionKey (by omega), if_pos hlt]), hi]

theorem mem_of_lookup {t : Table} {k : TableKey} {v : Value} (h : t.lookup k = some v) :
    v ∈ t.array ∨ (k, v) ∈ t.map := by
  cases ho : offset? t.narr k with
  | none =>
      rw [lookup_of_no_offset ho] at h
      exact Or.inr (Entries.mem_of_find? h)
  | some i =>
      rw [lookup_of_offset ho] at h
      exact Or.inl (Array.mem_of_getElem? h)

/-!
# Properties of all tables inside a table
-/

/-- A property that a table has, and every table inside it. -/
inductive Every (P : Table → Prop) : Table → Prop where
  | intro {t : Table} : P t →
      (forall s, .table s ∈ t.array -> Every P s) →
      (forall k s, (k, .table s) ∈ t.map -> Every P s) → Every P t

theorem Every.self {P : Table → Prop} {t : Table} (h : Every P t) : P t := by
  cases h with
  | intro ht _ _ => exact ht

theorem Every.inside {P : Table → Prop} {t s : Table} (h : Every P t) {k : TableKey}
    (hk : t.lookup k = some (.table s)) : Every P s := by
  cases h with
  | intro _ harray hmap =>
      rcases mem_of_lookup hk with hmem | hmem
      · exact harray s hmem
      · exact hmap k s hmem

theorem Every.of_lookup {P : Table → Prop} {t : Table} (ht : WellFormed t) (hP : P t)
    (h : forall k s, t.lookup k = some (.table s) -> Every P s) : Every P t := by
  refine Every.intro hP ?_ ?_
  · intro s hs
    rcases lookup_of_mem_array ht hs with ⟨k, hk⟩
    exact h k s hk
  · intro k s hs
    exact h k s (lookup_of_mem_map ht hs)

theorem Every.imp {P Q : Table → Prop} {t : Table} (h : Every P t) (himp : forall s, P s -> Q s) :
    Every Q t := by
  induction h with
  | intro hself _ _ iharray ihmap => exact Every.intro (himp _ hself) iharray ihmap

theorem Every.and {P Q : Table → Prop} {t : Table} (hP : Every P t) (hQ : Every Q t) :
    Every (fun s => P s ∧ Q s) t := by
  induction hP with
  | intro hself _ _ iharray ihmap =>
      cases hQ with
      | intro hself' harray' hmap' =>
          exact Every.intro ⟨hself, hself'⟩ (fun s hs => iharray s hs (harray' s hs))
            fun k s hs => ihmap k s hs (hmap' k s hs)

/-!
# Building
-/

/-- The tables that writes build from the empty one, out of values that are
built themselves. -/
inductive Built : Table → Prop where
  | empty : Built .empty
  | set {t : Table} {v : Value} (k : Key) :
      Built t → (forall s, v = .table s -> Built s) → Built (t.set k v)

theorem built_push {t : Table} {v : Value} (ht : Built t) (hv : forall s, v = .table s -> Built s) :
    Built (t.push v) :=
  Built.set _ ht hv

theorem built_ofEntries {es : List (Key × Value)}
    (hes : forall k s, (k, .table s) ∈ es -> Built s) : Built (ofEntries es) := by
  have hfold : forall t : Table, Built t -> Built (es.foldl (fun t e => t.set e.1 e.2) t) := by
    induction es with
    | nil => exact fun t ht => ht
    | cons e es ih =>
        intro t ht
        refine ih (fun k s hs => hes k s (List.mem_cons_of_mem e hs)) _ (Built.set e.1 ht ?_)
        intro s hs
        exact hes e.1 s (hs ▸ List.mem_cons_self)
  exact hfold .empty Built.empty

theorem built_ofValues {vs : List Value} (hvs : forall s, .table s ∈ vs -> Built s) :
    Built (ofValues vs) := by
  have hfold : forall t : Table, Built t -> Built (vs.foldl push t) := by
    induction vs with
    | nil => exact fun t ht => ht
    | cons v vs ih =>
        intro t ht
        refine ih (fun s hs => hvs s (List.mem_cons_of_mem v hs)) _ (built_push ht ?_)
        intro s hs
        exact hvs s (hs ▸ List.mem_cons_self)
  exact hfold .empty Built.empty

theorem built_wellFormed {t : Table} (h : Built t) : Every WellFormed t := by
  induction h with
  | empty =>
      refine Every.of_lookup wellFormed_empty wellFormed_empty ?_
      intro k s hs
      rcases mem_of_lookup hs with hmem | hmem
      · exact absurd hmem (Array.not_mem_empty _)
      · cases hmem
  | @set t v k _ _ iht ihv =>
      have ht := iht.self
      have hset := wellFormed_set ht k v
      refine Every.of_lookup hset hset ?_
      intro k' s hs
      cases hk : k.stored? with
      | none =>
          rw [set_of_not_stored ht hk] at hs
          exact iht.inside hs
      | some k₁ =>
          rw [lookup_set ht hk] at hs
          by_cases hk' : k₁ = k'
          · rw [if_pos hk'] at hs
            cases v with
            | table s' =>
                cases hs
                exact ihv s rfl
            | _ => cases hs
          · rw [if_neg hk'] at hs
            exact iht.inside hs

end Table

end Data

end LuaHost
