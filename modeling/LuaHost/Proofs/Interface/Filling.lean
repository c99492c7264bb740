import LuaHost.Proofs.Interface.Keys
import LuaHost.Proofs.Machine.Running

/-!
# Host tables in the machine

A host table becomes a new table of the machine, and so do the tables inside
it.  The new tables lead to new tables only, and the copy of each of them is
the host table that it was made from.  This is kept while a table is filled,
entry by entry, in whatever order the host's map lists them.
-/

namespace LuaHost

/-!
# Unfoldings in a part of the store
-/

theorem Unfolds.congr {e e' : TableId → List (Value × Value)} {path : List TableId} {i : TableId}
    {t : Data.Table} (h : Unfolds e path i t) (heq : forall j, Within e i j -> e' j = e j) :
    Unfolds e' path i t := by
  induction h with
  | @intro path i t inner ht hentries _ ih =>
      have hself := heq i Within.self
      refine Unfolds.intro inner ht ?_ ?_
      · intro s x
        rw [hself]
        exact hentries s x
      · intro k j hmem hj
        rw [hself] at hmem
        apply ih k j hmem hj
        intro l hl
        exact heq l (hl.inside hmem)

/-- The entries of the tables of a store. -/
def Store.entriesOf (s : Store Table) (i : TableId) : List (Value × Value) :=
  (s.get i.index).entries

/-- A store that has the tables of an older one and newer ones behind them. -/
structure Store.Extends (s s' : Store Table) : Prop where
  next_le : s.next ≤ s'.next
  find?_eq : forall j, j < s.next -> s'.find? j = s.find? j

theorem Store.Extends.refl (s : Store Table) : Extends s s := ⟨Nat.le_refl _, fun _ _ => rfl⟩

theorem Store.Extends.trans {s s' s'' : Store Table} (h : Extends s s') (h' : Extends s' s'') :
    Extends s s'' :=
  ⟨Nat.le_trans h.next_le h'.next_le, fun j hj =>
    (h'.find?_eq j (Nat.lt_of_lt_of_le hj h.next_le)).trans (h.find?_eq j hj)⟩

/-- The tables with these numbers lead to newer ones among them only, and their
keys and strings came from the host. -/
structure Enclosed (s : Store Table) (lo hi : Nat) : Prop where
  leads : forall j k l, lo ≤ j.index -> j.index < hi -> (k, .table l) ∈ s.entriesOf j ->
    j.index < l.index ∧ l.index < hi
  keys : forall j e, lo ≤ j.index -> j.index < hi -> e ∈ s.entriesOf j ->
    exists k : TableKey, Data.Table.Faithful k ∧ e.1 = k.machineKey
  values : forall j e, lo ≤ j.index -> j.index < hi -> e ∈ s.entriesOf j -> e.2.Held

theorem enclosed_empty (s : Store Table) (n : Nat) : Enclosed s n n := by
  constructor
  · intro j k l hlo hhi
    exact absurd hlo (Nat.not_le_of_lt hhi)
  · intro j e hlo hhi
    exact absurd hlo (Nat.not_le_of_lt hhi)
  · intro j e hlo hhi
    exact absurd hlo (Nat.not_le_of_lt hhi)

theorem Enclosed.within {s : Store Table} {lo hi : Nat} (h : Enclosed s lo hi) {i j : TableId}
    (hlo : lo ≤ i.index) (hhi : i.index < hi) (hj : Within s.entriesOf i j) :
    lo ≤ j.index ∧ j.index < hi := by
  induction hj with
  | self => exact ⟨hlo, hhi⟩
  | entry _ hstep ih =>
      have hnewer := h.leads _ _ _ ih.1 ih.2 hstep
      exact ⟨Nat.le_trans ih.1 (Nat.le_of_lt hnewer.1), hnewer.2⟩

theorem entriesOf_congr {s s' : Store Table} {i : TableId}
    (h : s'.find? i.index = s.find? i.index) : s'.entriesOf i = s.entriesOf i := by
  unfold Store.entriesOf Store.get
  rw [h]

/-- `x` stands for the host value `v`: a scalar with this form, or one of the
tables numbered from `lo` up to `hi`, below any path of older tables. -/
inductive Image (s : Store Table) (lo hi : Nat) : Data.Value → Value → Prop where
  | scalar {v : Data.Value} {x : Value} : x.scalarForm? = some v → x.Held → Image s lo hi v x
  | table {t : Data.Table} {i : TableId} : lo ≤ i.index → i.index < hi →
      (forall path, (forall j, j ∈ path -> j.index < lo) -> Unfolds s.entriesOf path i t) →
      Image s lo hi (.table t) (.table i)

theorem Image.widen {s : Store Table} {lo lo' hi hi' : Nat} {v : Data.Value} {x : Value}
    (h : Image s lo hi v x) (hlo : lo' ≤ lo) (hhi : hi ≤ hi') : Image s lo' hi' v x := by
  cases h with
  | scalar hform hheld => exact Image.scalar hform hheld
  | table hi₁ hi₂ hunfolds =>
      refine Image.table (by omega) (by omega) ?_
      intro path hpath
      exact hunfolds path fun j hj => Nat.lt_of_lt_of_le (hpath j hj) hlo

theorem Image.stable {s s' : Store Table} {lo hi : Nat} {v : Data.Value} {x : Value}
    (h : Image s lo hi v x) (henclosed : Enclosed s lo hi)
    (hsame : forall j, lo ≤ j -> j < hi -> s'.find? j = s.find? j) : Image s' lo hi v x := by
  cases h with
  | scalar hform hheld => exact Image.scalar hform hheld
  | table hi₁ hi₂ hunfolds =>
      refine Image.table hi₁ hi₂ ?_
      intro path hpath
      apply (hunfolds path hpath).congr
      intro j hj
      have hrange := henclosed.within hi₁ hi₂ hj
      exact entriesOf_congr (hsame j.index hrange.1 hrange.2)

theorem Enclosed.stable {s s' : Store Table} {lo hi : Nat} (h : Enclosed s lo hi)
    (hsame : forall j, lo ≤ j -> j < hi -> s'.find? j = s.find? j) : Enclosed s' lo hi := by
  constructor
  · intro j k l hlo hhi hmem
    rw [entriesOf_congr (hsame j.index hlo hhi)] at hmem
    exact h.leads j k l hlo hhi hmem
  · intro j e hlo hhi hmem
    rw [entriesOf_congr (hsame j.index hlo hhi)] at hmem
    exact h.keys j e hlo hhi hmem
  · intro j e hlo hhi hmem
    rw [entriesOf_congr (hsame j.index hlo hhi)] at hmem
    exact h.values j e hlo hhi hmem

theorem Enclosed.append {s : Store Table} {lo mid hi : Nat} (h : Enclosed s lo mid)
    (h' : Enclosed s mid hi) (hhi : mid ≤ hi) : Enclosed s lo hi := by
  constructor
  · intro j k l hj hj' hmem
    by_cases hmid : j.index < mid
    · have hnewer := h.leads j k l hj hmid hmem
      exact ⟨hnewer.1, Nat.lt_of_lt_of_le hnewer.2 hhi⟩
    · exact h'.leads j k l (Nat.le_of_not_lt hmid) hj' hmem
  · intro j e hj hj' hmem
    by_cases hmid : j.index < mid
    · exact h.keys j e hj hmid hmem
    · exact h'.keys j e (Nat.le_of_not_lt hmid) hj' hmem
  · intro j e hj hj' hmem
    by_cases hmid : j.index < mid
    · exact h.values j e hj hmid hmem
    · exact h'.values j e (Nat.le_of_not_lt hmid) hj' hmem

/-- Keys that came from the host do not meet when they go back. -/
theorem Enclosed.keysApart {s : Store Table} {lo hi : Nat} (h : Enclosed s lo hi) {j : TableId}
    (hlo : lo ≤ j.index) (hhi : j.index < hi) : KeysApart (s.entriesOf j) := by
  intro e f k he hf hek hfk
  rcases h.keys j e hlo hhi he with ⟨k₁, hk₁, heq₁⟩
  rcases h.keys j f hlo hhi hf with ⟨k₂, hk₂, heq₂⟩
  rw [heq₁, hk₁.hostKey?_machineKey] at hek
  rw [heq₂, hk₂.hostKey?_machineKey] at hfk
  cases hek
  cases hfk
  exact Table.entries_key_inj he hf (heq₁.trans heq₂.symm)

/-- The value that stands for an entry's value is copied as that value. -/
theorem Image.hostForm?_eq {s : Store Table} {lo hi : Nat} {v : Data.Value} {x : Value}
    (h : Image s lo hi v x) (hx : x ≠ .nil) {path : List TableId}
    (hpath : forall j, j ∈ path -> j.index < lo) {inner : TableId → Data.Table}
    (hinner : forall i t, x = .table i -> Unfolds s.entriesOf path i t -> inner i = t) :
    x.hostForm? path inner = some v := by
  cases h with
  | scalar hform =>
      cases x with
      | nil => exact absurd rfl hx
      | table i => cases hform
      | _ => exact hform
  | @table t i hi₁ _ hunfolds =>
      have hnot : ¬ i ∈ path := by
        intro hmem
        have hlt := hpath i hmem
        omega
      rw [Value.hostForm?_table hnot, hinner i t rfl (hunfolds path hpath)]

theorem Image.held {s : Store Table} {lo hi : Nat} {v : Data.Value} {x : Value}
    (h : Image s lo hi v x) : x.Held := by
  cases h with
  | scalar _ hheld => exact hheld
  | table _ _ _ => exact Value.Held.table _

theorem Image.ne_nil {s : Store Table} {lo hi : Nat} {v : Data.Value} {x : Value}
    (h : Image s lo hi v x) (hv : v ≠ .nil) : x ≠ .nil := by
  cases h with
  | scalar hform =>
      intro hx
      rw [hx] at hform
      cases hform
      exact hv rfl
  | table _ _ _ => exact nofun

/-!
# A table that is being filled
-/

/-- The new table `i` holds the entries of the host table `t` at the keys in
`done`, and nothing else; the tables behind it were made for its values. -/
structure Filling (t : Data.Table) (i : TableId) (done : TableKey → Prop) (s : Store Table) :
    Prop where
  live : s.live i.index = true
  behind : i.index + 1 ≤ s.next
  enclosed : Enclosed s (i.index + 1) s.next
  holds : forall k v, done k -> t.lookup k = some v ->
    Image s (i.index + 1) s.next v ((s.get i.index).find k.machineKey)
  only : forall x, (s.get i.index).find x ≠ .nil ->
    exists k, done k ∧ (exists v, t.lookup k = some v) ∧ x = k.machineKey

theorem Filling.congr {t : Data.Table} {i : TableId} {done done' : TableKey → Prop}
    {s : Store Table} (h : Filling t i done s) (heq : forall k, done k ↔ done' k) :
    Filling t i done' s := by
  have hsame : done = done' := funext fun k => propext (heq k)
  rwa [← hsame]

theorem Filling.encloses {t : Data.Table} (ht : t.WellFormed) (hkeys : t.NoPositiveIntegralKey)
    {i : TableId} {done : TableKey → Prop} {s : Store Table} (h : Filling t i done s) :
    Enclosed s i.index s.next := by
  have hself : forall j e, j.index = i.index -> e ∈ s.entriesOf j ->
      (s.get i.index).find e.1 = e.2 ∧ e.2 ≠ .nil := by
    intro j e hj hmem
    rw [← hj]
    exact Table.mem_entries.mp hmem
  constructor
  · intro j k l hlo hhi hmem
    by_cases hj : j.index = i.index
    · have hfind := (hself j _ hj hmem).1
      rcases h.only k (by rw [hfind]; exact nofun) with ⟨k', hdone, ⟨v, hv⟩, hk⟩
      have himage := h.holds k' v hdone hv
      rw [← hk, hfind] at himage
      cases himage with
      | scalar hform => cases hform
      | table hl hl' _ => exact ⟨by omega, hl'⟩
    · exact h.enclosed.leads j k l (by omega) hhi hmem
  · intro j e hlo hhi hmem
    by_cases hj : j.index = i.index
    · have hfind := hself j e hj hmem
      rcases h.only e.1 (by rw [hfind.1]; exact hfind.2) with ⟨k, _, ⟨v, hv⟩, hk⟩
      exact ⟨k, Data.Table.faithful_of_lookup ht hkeys hv, hk⟩
    · exact h.enclosed.keys j e (by omega) hhi hmem
  · intro j e hlo hhi hmem
    by_cases hj : j.index = i.index
    · have hfind := hself j e hj hmem
      rcases h.only e.1 (by rw [hfind.1]; exact hfind.2) with ⟨k, hdone, ⟨v, hv⟩, hk⟩
      have himage := h.holds k v hdone hv
      rw [← hk, hfind.1] at himage
      exact himage.held
    · exact h.enclosed.values j e (by omega) hhi hmem

/-- A filled table unfolds to the host table it was filled from. -/
theorem Filling.unfolds {t : Data.Table} (ht : t.WellFormed)
    (hkeys : t.NoPositiveIntegralKey) {i : TableId} {done : TableKey → Prop} {s : Store Table}
    (h : Filling t i done s) (hdone : forall k v, t.lookup k = some v -> done k)
    {path : List TableId} (hpath : forall j, j ∈ path -> j.index < i.index) :
    Unfolds s.entriesOf path i t := by
  have hpath' : forall j, j ∈ i :: path -> j.index < i.index + 1 := by
    intro j hj
    rcases List.mem_cons.mp hj with heq | hold
    · rw [heq]
      exact Nat.lt_succ_self _
    · exact Nat.lt_succ_of_lt (hpath j hold)
  -- what a table inside unfolds to is determined, so that one function gives it for all of them
  have hchosen : exists inner : TableId → Data.Table, forall j u,
      Unfolds s.entriesOf (i :: path) j u -> inner j = u := by
    refine ⟨fun j => Classical.epsilon fun u => Unfolds s.entriesOf (i :: path) j u, ?_⟩
    intro j u hu
    exact (Classical.epsilon_spec (p := fun u => Unfolds s.entriesOf (i :: path) j u) ⟨u, hu⟩).unique
      hu
  rcases hchosen with ⟨inner, hinner⟩
  have hform : forall k v, t.lookup k = some v ->
      ((s.get i.index).find k.machineKey) ≠ .nil ∧
      ((s.get i.index).find k.machineKey).hostForm? (i :: path) inner = some v := by
    intro k v hk
    have himage := h.holds k v (hdone k v hk) hk
    have hne := himage.ne_nil (Data.Table.lookup_ne_nil ht hk)
    exact ⟨hne, himage.hostForm?_eq hne hpath' fun j u _ hu => hinner j u hu⟩
  -- each entry of the host table was written, and nothing else is in the table of the machine
  refine Unfolds.intro inner ht ?_ ?_
  · intro k v
    constructor
    · intro hk
      have hfound := hform k v hk
      have hfaithful := Data.Table.faithful_of_lookup ht hkeys hk
      exact ⟨k.machineKey, _, Table.mem_entries.mpr ⟨rfl, hfound.1⟩,
        hfaithful.hostKey?_machineKey, hfound.2⟩
    · rintro ⟨x, y, hmem, hkey, hy⟩
      have hfind := Table.mem_entries.mp hmem
      rcases h.only x (by rw [hfind.1]; exact hfind.2) with ⟨k', _, ⟨v', hk'⟩, hx⟩
      have hfaithful := Data.Table.faithful_of_lookup ht hkeys hk'
      rw [hx, hfaithful.hostKey?_machineKey] at hkey
      cases hkey
      have hfound := (hform k v' hk').2
      rw [← hx, hfind.1, hy] at hfound
      cases hfound
      exact hk'
  · intro x j hmem hj
    have hfind := Table.mem_entries.mp hmem
    rcases h.only x (by rw [hfind.1]; exact hfind.2) with ⟨k, hk, ⟨v, hv⟩, hx⟩
    have himage := h.holds k v hk hv
    rw [← hx, hfind.1] at himage
    cases himage with
    | scalar hscalar => cases hscalar
    | @table u _ _ _ hunfolds =>
        have hu := hunfolds (i :: path) hpath'
        rw [hinner j u hu]
        exact hu

/-- One more entry: its value was made behind the tables there were, and is
written under the key's form. -/
theorem Filling.step {t : Data.Table} (ht : t.WellFormed) (hkeys : t.NoPositiveIntegralKey)
    {i : TableId} {done : TableKey → Prop} {s s' : Store Table} (h : Filling t i done s)
    {k : TableKey} {v : Data.Value} {x : Value} (hk : t.lookup k = some v) (hnew : ¬ done k)
    (hextends : s.Extends s') (henclosed : Enclosed s' s.next s'.next)
    (hx : Image s' s.next s'.next v x) :
    Filling t i (fun k' => done k' ∨ k' = k) (s'.modify i.index (·.put k.machineKey x)) := by
  have hbehind := h.behind
  have hnext := hextends.next_le
  have hold : s'.find? i.index = s.find? i.index := hextends.find?_eq i.index (by omega)
  have hlive : s'.live i.index = true := by
    unfold Store.live
    rw [hold]
    exact h.live
  have hget : s'.get i.index = s.get i.index := by
    unfold Store.get
    rw [hold]
  -- tables are told apart by their numbers: the filled one is before all that its values brought
  have hgrown : forall j, i.index + 1 ≤ j -> j < s.next ->
      (s'.modify i.index (·.put k.machineKey x)).find? j = s.find? j := by
    intro j hj hj'
    rw [Store.find?_modify, if_neg (by omega)]
    exact hextends.find?_eq j hj'
  have hwritten : forall j, i.index + 1 ≤ j -> j < s'.next ->
      (s'.modify i.index (·.put k.machineKey x)).find? j = s'.find? j := by
    intro j hj _
    rw [Store.find?_modify, if_neg (by omega)]
  have hfind : forall y, ((s'.modify i.index (·.put k.machineKey x)).get i.index).find y =
      if k.machineKey = y then x else (s.get i.index).find y := by
    intro y
    rw [Store.get_modify_self hlive, Table.find_put, hget]
  have hfaithful := Data.Table.faithful_of_lookup ht hkeys hk
  constructor
  case live =>
    rw [Store.live_modify]
    exact hlive
  case behind =>
    rw [Store.next_modify]
    omega
  case enclosed =>
    rw [Store.next_modify]
    apply Enclosed.append (h.enclosed.stable hgrown) _ hnext
    exact henclosed.stable fun j hj hj' => hwritten j (by omega) hj'
  case holds =>
    intro k' v' hdone hk'
    rw [Store.next_modify, hfind]
    -- forms of different keys differ, so that the write touches no entry that was there
    by_cases hsame : k' = k
    · subst hsame
      rw [hk] at hk'
      cases hk'
      rw [if_pos rfl]
      exact (hx.stable henclosed fun j hj hj' => hwritten j (by omega) hj').widen (by omega)
        (Nat.le_refl _)
    · have hfaithful' := Data.Table.faithful_of_lookup ht hkeys hk'
      have hne : k.machineKey ≠ k'.machineKey :=
        fun heq => hsame (hfaithful.machineKey_inj hfaithful' heq).symm
      rw [if_neg hne]
      rcases hdone with hdone | hdone
      · exact ((h.holds k' v' hdone hk').stable h.enclosed hgrown).widen (Nat.le_refl _) hnext
      · exact absurd hdone hsame
  case only =>
    intro y hy
    rw [hfind] at hy
    by_cases hkey : k.machineKey = y
    · exact ⟨k, Or.inr rfl, ⟨v, hk⟩, hkey.symm⟩
    · rw [if_neg hkey] at hy
      rcases h.only y hy with ⟨k', hdone, hk', heq⟩
      exact ⟨k', Or.inl hdone, hk', heq⟩

end LuaHost
