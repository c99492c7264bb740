import LuaHost.Proofs.Data.FiniteMap

/-!
# Writes to different keys

A table is determined by its lookups, and a write changes the lookup of its key
only.  So writes to different keys leave the same two parts in whatever order
they are made, although each of them may cut the array, let it grow, or pull in
keys that another one has moved out.
-/

namespace LuaHost

theorem Key.Same.symm {k k' : Key} (h : k.Same k') : k'.Same k := by
  rcases Key.same_iff.mp h with ⟨s, hk, hk'⟩
  exact Key.same_iff.mpr ⟨s, hk', hk⟩

namespace Data.Table

/-!
# Two writes
-/

theorem set_set {t : Table} (ht : WellFormed t) (k : Key) (u v : Value) :
    (t.set k u).set k v = t.set k v := by
  have hu := wellFormed_set ht k u
  cases hk : k.stored? with
  | none => rw [set_of_not_stored ht hk u]
  | some s =>
      apply ext_lookup (wellFormed_set hu k v) (wellFormed_set ht k v)
      intro s'
      rw [lookup_set hu hk, lookup_set ht hk, lookup_set ht hk]
      by_cases hs : s = s'
      · rw [if_pos hs, if_pos hs]
      · rw [if_neg hs, if_neg hs, if_neg hs]

theorem set_get {t : Table} (ht : WellFormed t) {k : Key} {v : Value} (hv : t.get k = some v) :
    t.set k v = t := by
  rw [get_eq_lookup ht] at hv
  rcases Option.bind_eq_some_iff.mp hv with ⟨s, hk, hlookup⟩
  apply ext_lookup (wellFormed_set ht k v) ht
  intro s'
  rw [lookup_set ht hk]
  by_cases hs : s = s'
  · rw [if_pos hs, ← hs, hlookup, Value.present?_of_ne (lookup_ne_nil ht hlookup)]
  · rw [if_neg hs]

theorem set_comm {t : Table} (ht : WellFormed t) {k k' : Key} (hne : ¬ k.Same k')
    (v v' : Value) : (t.set k v).set k' v' = (t.set k' v').set k v := by
  have hv := wellFormed_set ht k v
  have hv' := wellFormed_set ht k' v'
  cases hk : k.stored? with
  | none => rw [set_of_not_stored ht hk, set_of_not_stored hv' hk]
  | some s =>
      cases hk' : k'.stored? with
      | none => rw [set_of_not_stored hv hk', set_of_not_stored ht hk']
      | some s' =>
          have hss : s ≠ s' := fun heq => hne (Key.same_iff.mpr ⟨s, hk, heq ▸ hk'⟩)
          -- what each write does to the two parts depends on the other one, its lookups do not
          apply ext_lookup (wellFormed_set hv k' v') (wellFormed_set hv' k v)
          intro s₁
          rw [lookup_set hv hk', lookup_set ht hk, lookup_set hv' hk, lookup_set ht hk']
          by_cases hs : s = s₁
          · have hs' : s' ≠ s₁ := fun heq => hss (hs.trans heq.symm)
            rw [if_pos hs, if_neg hs', if_pos hs]
          · rw [if_neg hs, if_neg hs]

/-!
# Many writes
-/

/-- Entries with different keys can be written in any order. -/
theorem foldl_set_perm {es es' : List (Key × Value)} (hperm : es.Perm es')
    (hdifferent : es.Pairwise fun e f => ¬ e.1.Same f.1) {t : Table} (ht : WellFormed t) :
    es.foldl (fun t e => t.set e.1 e.2) t = es'.foldl (fun t e => t.set e.1 e.2) t := by
  induction hperm generalizing t with
  | nil => rfl
  | cons e _ ih => exact ih (List.pairwise_cons.mp hdifferent).2 (wellFormed_set ht e.1 e.2)
  | swap e f es =>
      have hne := (List.pairwise_cons.mp hdifferent).1 e List.mem_cons_self
      simp only [List.foldl_cons]
      rw [set_comm ht hne]
  | trans hfirst _ ih ih' =>
      -- the order between has different keys too
      have hmiddle := (hfirst.pairwise_iff fun hne hsame => hne hsame.symm).mp hdifferent
      exact (ih hdifferent ht).trans (ih' hmiddle ht)

/-- Writes to different keys of a host's table leave the same array and the same
map in either order; a table made from entries with different keys does not
depend on their order; and a hole that is filled again leaves no trace. -/
theorem reached_commuting {t : Table} (h : Reached t) :
    (forall k k' v v', ¬ k.Same k' ->
      (t.set k v).set k' v' = (t.set k' v').set k v) ∧
    (forall es es' : List (Key × Value), es.Pairwise (fun e f => ¬ e.1.Same f.1) ->
      es.Perm es' -> ofEntries es = ofEntries es') ∧
    (forall k v, t.get k = some v -> (t.set k .nil).set k v = t) := by
  have ht := h.wellFormed
  refine ⟨fun k k' v v' hne => set_comm ht hne v v', ?_, ?_⟩
  · intro es es' hdifferent hperm
    exact foldl_set_perm hperm hdifferent wellFormed_empty
  · intro k v hv
    rw [set_set ht, set_get ht hv]

/-- One write closes the gap, and the values behind it move into the array; the
other opens a new gap, or takes a value out of the map. -/
theorem reached_commuting_gapped :
    Reached gapped ∧
      (gapped.set (.integer 2) (.string "x")).set (.integer 4) .nil =
        (gapped.set (.integer 4) .nil).set (.integer 2) (.string "x") ∧
      (gapped.set (.integer 4) .nil).set (.integer 2) (.string "x") =
        .mk #[.bool true, .string "x", .bool false] [(.integer 5, .string "e")] ∧
      ofEntries [(.integer 2, .bool true), (.float .nan, .bool false), (.integer 1, .string "a")] =
        ofEntries [(.integer 1, .string "a"), (.integer 2, .bool true), (.float .nan, .bool false)] ∧
      (gapped.set (.integer 4) .nil).set (.integer 4) (.string "d") = gapped := by
  rcases reached_commuting reached_gapped with ⟨hcomm, hperm, hrefill⟩
  refine ⟨reached_gapped, hcomm _ _ _ _ (by decide), rfl, hperm _ _ (by decide) ?_,
    hrefill _ _ rfl⟩
  exact ((List.Perm.swap _ _ _).cons _).trans (List.Perm.swap _ _ _)

end Data.Table

end LuaHost
