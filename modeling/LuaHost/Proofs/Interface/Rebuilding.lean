import LuaHost.Proofs.Interface.RoundTrip

/-!
# From the machine and back

A machine table that unfolds to a finite tree is copied out and built again.
The new table holds the same entries, at every level, but for the integers that
no double is equal to: the host keeps an integer key that is not positive as a
double, so such a key comes back as the integer nearest to it among the
doubles.
-/

namespace LuaHost

/-!
# Trees of tables
-/

/-- A table whose contents unfold to a finite tree that the host can hold, and
in which no two keys of one table are rounded to the same. -/
inductive Portable (entriesOf : TableId → List (Value × Value)) : TableId → Prop where
  | intro {i : TableId} :
      (forall e, e ∈ entriesOf i → e.1.HeldKey ∧ e.2.Held) →
      (forall e f, e ∈ entriesOf i → f ∈ entriesOf i → e.1.rounded = f.1.rounded → e = f) →
      (forall k j, (k, .table j) ∈ entriesOf i → Portable entriesOf j) →
      Portable entriesOf i

/-- Two values with the same contents: equal scalars, or tables whose keys are
the same, once those of the first are rounded, and stand for values with the
same contents. -/
inductive SameContents (e e' : TableId → List (Value × Value)) : Value → Value → Prop where
  | scalar {v : Value} : (forall i, v ≠ .table i) → SameContents e e' v v
  | table {i i' : TableId} :
      (forall k', (exists v', (k', v') ∈ e' i') ↔ exists k v, (k, v) ∈ e i ∧ k.rounded = k') →
      (forall k v v', (k, v) ∈ e i → (k.rounded, v') ∈ e' i' → SameContents e e' v v') →
      SameContents e e' (.table i) (.table i')

section Within

variable {e : TableId → List (Value × Value)}

theorem Within.first {i l : TableId} (h : Within e i l) :
    l = i ∨ exists k j, (k, .table j) ∈ e i ∧ Within e j l := by
  induction h with
  | self => exact Or.inl rfl
  | @entry j l k _ hstep ih =>
      refine Or.inr ?_
      rcases ih with heq | ⟨k', j', hj', hwithin⟩
      · exact ⟨k, l, heq ▸ hstep, Within.self⟩
      · exact ⟨k', j', hj', Within.entry hwithin hstep⟩

theorem Portable.within {i j : TableId} (h : Portable e i) (hj : Within e i j) : Portable e j := by
  induction hj with
  | self => exact h
  | entry _ hstep ih =>
      cases ih with
      | intro _ _ hinner => exact hinner _ _ hstep

theorem Portable.acyclic {i : TableId} (h : Portable e i) {k : Value} {j : TableId}
    (hj : (k, .table j) ∈ e i) : ¬ Within e j i := by
  induction h generalizing k j with
  | intro _ _ _ ih =>
      intro hback
      rcases hback.first with heq | ⟨k', l, hl, hwithin⟩
      · subst heq
        exact ih k _ hj hj Within.self
      · exact ih k j hj hl (Within.entry hwithin hj)

theorem Portable.keysApart {i : TableId} (h : Portable e i) : KeysApart (e i) := by
  cases h with
  | intro hheld hapart _ =>
      intro f g s hf hg hfs hgs
      apply hapart f g hf hg
      rcases (hheld f hf).1.hostKey? with ⟨sf, hsf, hfkey⟩
      rcases (hheld g hg).1.hostKey? with ⟨sg, hsg, hgkey⟩
      rw [hfs] at hsf
      rw [hgs] at hsg
      cases hsf
      cases hsg
      exact hfkey.symm.trans hgkey

end Within

/-!
# Forms of values that the host can hold
-/

/-- The value of the machine that stands for a host value which is no table. -/
def machineScalar : Data.Value → Value
  | .nil => .nil
  | .bool b => .bool b
  | .number (.int i) => .int i
  | .number (.float x) => .float x
  | .string s => .ofText s
  | .light p => .light p
  | .table _ => .nil

theorem Value.Held.machineScalar_eq {v : Value} (h : v.Held) {x : Data.Value}
    (hx : v.scalarForm? = some x) : machineScalar x = v := by
  cases h with
  | table i => cases hx
  | text s =>
      cases hx
      show Value.ofText (Bytes.toText s.toUTF8) = _
      rw [Bytes.toText_toUTF8]
      rfl
  | _ =>
      cases hx
      rfl

theorem Value.Held.hostForm? {v : Value} (h : v.Held) (hne : v ≠ .nil) {path : List TableId}
    (hpath : forall j, v = .table j -> ¬ j ∈ path) (inner : TableId → Data.Table) :
    exists x, v.hostForm? path inner = some x := by
  cases h with
  | nil => exact absurd rfl hne
  | table j => exact ⟨_, hostForm?_table (hpath j rfl)⟩
  | _ => exact ⟨_, rfl⟩

/-- Two values with one form are equal, or both are tables. -/
theorem Value.Held.of_hostForm? {v v' : Value} (h : v.Held) (h' : v'.Held)
    {path path' : List TableId} {inner inner' : TableId → Data.Table} {x : Data.Value}
    (hx : v.hostForm? path inner = some x) (hx' : v'.hostForm? path' inner' = some x) :
    (v = v' ∧ forall i, v ≠ .table i) ∨
      exists i i', v = .table i ∧ v' = .table i' ∧ ¬ i ∈ path ∧ ¬ i' ∈ path' ∧
        inner i = inner' i' := by
  -- the form tells a table from anything else
  have hscalar : forall {u : Value} {p : List TableId} {f : TableId → Data.Table},
      (forall i, u ≠ .table i) -> u.hostForm? p f = some x -> u.scalarForm? = some x := by
    intro u p f hu hform
    cases u with
    | nil => cases hform
    | table i => exact absurd rfl (hu i)
    | _ => exact hform
  have htable : forall {i : TableId} {p : List TableId} {f : TableId → Data.Table},
      (Value.table i).hostForm? p f = some x -> ¬ i ∈ p ∧ x = .table (f i) := by
    intro i p f hform
    by_cases hi : i ∈ p
    · have hnone : (Value.table i).hostForm? p f = none := if_pos hi
      rw [hnone] at hform
      cases hform
    · rw [hostForm?_table hi] at hform
      exact ⟨hi, (Option.some.inj hform).symm⟩
  have hneither : forall {u : Value} {t : Data.Table}, u.scalarForm? ≠ some (.table t) := by
    intro u t hform
    cases u <;> cases hform
  by_cases hv : exists i, v = .table i
  · rcases hv with ⟨i, rfl⟩
    rcases htable hx with ⟨hi, rfl⟩
    by_cases hv' : exists i', v' = .table i'
    · rcases hv' with ⟨i', rfl⟩
      rcases htable hx' with ⟨hi', heq⟩
      exact Or.inr ⟨i, i', rfl, rfl, hi, hi', Data.Value.table.inj heq⟩
    · exact absurd (hscalar (fun i' heq => hv' ⟨i', heq⟩) hx') hneither
  · have hv : forall i, v ≠ .table i := fun i heq => hv ⟨i, heq⟩
    by_cases hv' : exists i', v' = .table i'
    · rcases hv' with ⟨i', rfl⟩
      rcases htable hx' with ⟨_, rfl⟩
      exact absurd (hscalar hv hx) hneither
    · have hform' := hscalar (fun i' heq => hv' ⟨i', heq⟩) hx'
      refine Or.inl ⟨?_, hv⟩
      rw [← h.machineScalar_eq (hscalar hv hx), h'.machineScalar_eq hform']

/-!
# What the copy says about the table
-/

section Unfolding

variable {e : TableId → List (Value × Value)} {path : List TableId} {i : TableId}
  {t : Data.Table}

theorem Portable.lookup (h : Portable e i) (hpath : forall j, j ∈ path -> ¬ Within e i j)
    (hnil : forall f, f ∈ e i -> f.2 ≠ .nil) {inner : TableId → Data.Table}
    (hentries : forall s x, t.lookup s = some x ↔
      exists k v, (k, v) ∈ e i ∧ k.hostKey? = some s ∧ v.hostForm? (i :: path) inner = some x)
    {k v : Value} (hmem : (k, v) ∈ e i) :
    exists s x, t.lookup s = some x ∧ s.machineKey = k.rounded ∧
      v.hostForm? (i :: path) inner = some x := by
  have hacyclic := fun k j => h.acyclic (k := k) (j := j)
  cases h with
  | intro hheld _ _ =>
      rcases hheld _ hmem with ⟨hk, hv⟩
      rcases hk.hostKey? with ⟨s, hs, hrounded⟩
      have hoff : forall j, v = .table j -> ¬ j ∈ i :: path := by
        intro j hj hon
        subst hj
        rcases List.mem_cons.mp hon with heq | hold
        · exact hacyclic k j hmem (heq ▸ Within.self)
        · exact hpath j hold (Within.entry Within.self hmem)
      rcases hv.hostForm? (hnil _ hmem) hoff inner with ⟨x, hx⟩
      exact ⟨s, x, (hentries s x).mpr ⟨k, v, hmem, hs, hx⟩, hrounded, hx⟩

theorem Portable.every (h : Portable e i) (ht : Unfolds e path i t) :
    t.Every fun s => s.WellFormed ∧ s.NoPositiveIntegralKey := by
  induction h generalizing path t with
  | intro hheld _ _ ih =>
      cases ht with
      | intro inner hwell hentries hinner =>
          refine Data.Table.Every.of_lookup hwell ⟨hwell, ?_⟩ ?_
          · intro x v n hmem hn
            have hlookup := Data.Table.lookup_of_mem_map hwell hmem
            rcases (hentries _ _).mp hlookup with ⟨k, _, hk, hkey, _⟩
            exact (hheld _ hk).1.toInt_le hkey hn
          · intro s u hlookup
            rcases (hentries _ _).mp hlookup with ⟨k, v, hmem, _, hform⟩
            have hother : (Value.table i).hostForm? [] (fun _ => u) = some (.table u) :=
              Value.hostForm?_table List.not_mem_nil
            rcases (hheld _ hmem).2.of_hostForm? (Value.Held.table i) hform hother with
              ⟨heq, htable⟩ | ⟨j, _, rfl, _, hj, _, heq⟩
            · exact absurd heq (htable i)
            · exact heq ▸ ih k j hmem (hinner k j hmem hj)

end Unfolding

/-- A tree and the new table made from its copy have the same contents. -/
theorem sameContents_of_unfolds {e : TableId → List (Value × Value)} {i : TableId}
    (h : Portable e i) (hnil : forall j f, f ∈ e j -> f.2 ≠ .nil) {s : Store Table} {lo hi : Nat}
    (henclosed : Enclosed s lo hi) {path path' : List TableId} {i' : TableId} {t : Data.Table}
    (ht : Unfolds e path i t) (ht' : Unfolds s.entriesOf path' i' t)
    (hpath : forall j, j ∈ path -> ¬ Within e i j) (hlo : lo ≤ i'.index) (hhi : i'.index < hi)
    (hpath' : forall j, j ∈ path' -> j.index < i'.index) :
    SameContents e s.entriesOf (.table i) (.table i') := by
  induction h generalizing path path' i' t with
  | @intro i hheld hapart hportable ih =>
      have hi : Portable e i := Portable.intro hheld hapart hportable
      cases ht with
      | intro inner _ hentries hinner =>
          cases ht' with
          | intro inner' _ hentries' hinner' =>
              -- what stands for one entry of the tree
              have hforward : forall k v, (k, v) ∈ e i -> exists v' x,
                  (k.rounded, v') ∈ s.entriesOf i' ∧ v.hostForm? (i :: path) inner = some x ∧
                    v'.hostForm? (i' :: path') inner' = some x := by
                intro k v hmem
                rcases hi.lookup hpath (hnil i) hentries hmem with ⟨sk, x, hlookup, hrounded, hx⟩
                rcases (hentries' _ _).mp hlookup with ⟨k', v', hmem', hkey', hx'⟩
                rcases henclosed.keys i' _ hlo hhi hmem' with ⟨sk', hfaithful, heq⟩
                have heq : k' = sk'.machineKey := heq
                rw [heq, hfaithful.hostKey?_machineKey] at hkey'
                cases hkey'
                rw [heq, hrounded] at hmem'
                exact ⟨v', x, hmem', hx, hx'⟩
              refine SameContents.table ?_ ?_
              · intro k'
                constructor
                · rintro ⟨v', hmem'⟩
                  rcases henclosed.keys i' _ hlo hhi hmem' with ⟨sk, hfaithful, heq⟩
                  have heq : k' = sk.machineKey := heq
                  -- a table leads to newer ones only, which are not on the path to it
                  have hoff : forall j, v' = .table j -> ¬ j ∈ i' :: path' := by
                    intro j hj hon
                    subst hj
                    have hnewer := (henclosed.leads i' k' j hlo hhi hmem').1
                    rcases List.mem_cons.mp hon with hself | hold
                    · exact absurd (hself ▸ hnewer) (Nat.lt_irrefl _)
                    · exact absurd (hpath' j hold) (Nat.lt_asymm hnewer)
                  have hheld' := henclosed.values i' _ hlo hhi hmem'
                  rcases hheld'.hostForm? (Table.mem_entries.mp hmem').2 hoff inner' with ⟨x, hx⟩
                  have hlookup := (hentries' sk x).mpr
                    ⟨k', v', hmem', heq ▸ hfaithful.hostKey?_machineKey, hx⟩
                  rcases (hentries _ _).mp hlookup with ⟨k, v, hmem, hkey, _⟩
                  rcases (hheld _ hmem).1.hostKey? with ⟨sk', hsk', hrounded⟩
                  rw [hkey] at hsk'
                  cases hsk'
                  exact ⟨k, v, hmem, hrounded.symm.trans heq.symm⟩
                · rintro ⟨k, v, hmem, rfl⟩
                  rcases hforward k v hmem with ⟨v', _, hmem', _⟩
                  exact ⟨v', hmem'⟩
              · intro k v v' hmem hmem'
                rcases hforward k v hmem with ⟨u, x, hu, hx, hx'⟩
                have hsame : u = v' := congrArg Prod.snd (Table.entries_key_inj hu hmem' rfl)
                subst hsame
                rcases (hheld _ hmem).2.of_hostForm? (henclosed.values i' _ hlo hhi hu) hx hx' with
                  ⟨rfl, hscalar⟩ | ⟨j, j', rfl, rfl, hj, hj', heq⟩
                · exact SameContents.scalar hscalar
                · have hnewer := henclosed.leads i' _ j' hlo hhi hu
                  refine ih k j hmem (hinner k j hmem hj) (heq ▸ hinner' _ j' hu hj') ?_
                    (Nat.le_trans hlo (Nat.le_of_lt hnewer.1)) hnewer.2 ?_
                  · intro l hl hback
                    rcases List.mem_cons.mp hl with rfl | hold
                    · exact hi.acyclic hmem hback
                    · exact hpath l hold (hback.inside hmem)
                  · intro l hl
                    rcases List.mem_cons.mp hl with rfl | hold
                    · exact hnewer.1
                    · exact Nat.lt_trans (hpath' l hold) hnewer.1

/-!
# Out and in again
-/

theorem Portable.copyTable_unfolds {h : Heap} {i : TableId} (htree : Portable h.entriesOf i) :
    Unfolds h.entriesOf [] i (h.copyTable i).table :=
  h.copyTable_unfolds fun _ hj => (htree.within hj).keysApart

theorem Portable.shuffled {h : Heap} {i : TableId} (htree : Portable h.entriesOf i) :
    Data.Shuffled (.table (h.copyTable i).table) (.table (h.copyTable i).table) := by
  apply Data.Shuffled.refl_table
  exact (htree.every htree.copyTable_unfolds).imp fun _ => And.left

namespace Interface

open Machine

/-- Pushing the copy of a tree, once it was copied out and in whatever order the
host's maps list their entries, makes a table with the same contents. -/
theorem returns_pushHost_tree {w w' : World} {t : ThreadId} {i : TableId}
    (hlive : w.liveThread t = true) (hbase : (w.thread t).base ≤ (w.thread t).top)
    (honly : OnlyRoom t w w') (htree : Portable w.heap.entriesOf i) {c : Data.Table}
    (hlisting : Data.Shuffled (.table (w.heap.copyTable i).table) (.table c))
    (hroom : (w.thread t).Room (c.slots + 1)) :
    exists j w'', Returns (pushHost t (.table c)) w' () w'' ∧
      (w''.thread t).values = (w.thread t).values ++ [.table j] ∧
      SameContents w.heap.entriesOf w''.heap.entriesOf (.table i) (.table j) ∧
      forall l, l.index < w.heap.tables.next -> w''.heap.entriesOf l = w.heap.entriesOf l := by
  have hunfolds := htree.copyTable_unfolds
  have hlive' : w'.liveThread t = true := by
    rw [honly.rest_eq]
    exact (World.liveThread_setThread w t t _).trans hlive
  have hbase' : (w'.thread t).base ≤ (w'.thread t).top := by
    rw [honly.below.base_eq, honly.top_eq]
    exact hbase
  have hpush : (w'.thread t).Room ((Data.Value.table c).slots + 1) := by
    rw [Data.Value.slots]
    exact ⟨honly.room_le, honly.top_eq ▸ hroom.top_le⟩
  rcases returns_pushHost hlive' hpush (makes_shuffled (htree.every hunfolds) hlisting) with
    ⟨x, w'', hrun, hpushed, _, henclosed, himage, hextends⟩
  rw [honly.tables_eq] at henclosed himage hextends
  cases himage with
  | scalar hform _ => cases x <;> cases hform
  | @table _ j hlo hhi hagain =>
      have hempty : forall {P : TableId → Prop} l, l ∈ [] -> P l :=
        fun l hl => absurd hl List.not_mem_nil
      refine ⟨j, w'', hrun, ?_, ?_, ?_⟩
      · rw [← honly.values_eq]
        exact hpushed.values_eq hbase'
      · exact sameContents_of_unfolds htree w.heap.entriesOf_ne_nil henclosed hunfolds
          (hagain [] hempty) hempty hlo hhi hempty
      · intro l hl
        exact entriesOf_congr (hextends.find?_eq l.index hl)

/-- A table that is copied out and pushed again, in whatever order the host's
maps list their entries, comes back as a new table with the same contents. -/
theorem copyTable_pushHost {w : World} {t : ThreadId} {idx : Int} {i : TableId}
    (hlive : w.liveThread t = true) (hbase : (w.thread t).base ≤ (w.thread t).top)
    (hindex : validIndex (w.thread t).height idx = true)
    (hvalue : Returns (value? t idx) w (some (.table i)) w)
    (htree : Portable w.heap.entriesOf i)
    (hroom : (w.thread t).Room (2 * (w.heap.copyTable i).depth)) :
    exists w', Returns (copyTable t idx) w (w.heap.copyTable i).table w' ∧
      (w'.thread t).values = (w.thread t).values ∧
      forall c, Data.Shuffled (.table (w.heap.copyTable i).table) (.table c) ->
        (w.thread t).Room (c.slots + 1) ->
        exists j w'', Returns (pushHost t (.table c)) w' () w'' ∧
          (w''.thread t).values = (w.thread t).values ++ [.table j] ∧
          SameContents w.heap.entriesOf w''.heap.entriesOf (.table i) (.table j) ∧
          forall l, l.index < w.heap.tables.next ->
            w''.heap.entriesOf l = w.heap.entriesOf l := by
  rcases returns_copyTableOut hlive hroom with ⟨w', honly, hcopy⟩
  refine ⟨w', returns_copyTable hindex hvalue hcopy, honly.values_eq, ?_⟩
  intro c hlisting hback
  exact returns_pushHost_tree hlive hbase honly htree hlisting hback

/-!
# A tree with an integer that is no double
-/

/-- A stack with the table `{ [-2 ^ 53 - 1] = true, [-5] = { x = 2.5 } }`. -/
def unrounded : World :=
  { heap :=
      { tables :=
          { items :=
              #[some ((Table.set {} (.int (-9007199254740993)) (.bool true)).set (.int (-5))
                (.table ⟨1⟩)),
              some (Table.set {} (.ofText "x") (.float ⟨0x4004000000000000⟩))] }
        threads := { items := #[some (Thread.fresh.push (.table ⟨0⟩))] } } }

theorem entriesOf_unrounded :
    unrounded.heap.entriesOf ⟨0⟩ =
      [(.int (-9007199254740993), .bool true), (.int (-5), .table ⟨1⟩)] := by
  decide +kernel

theorem entriesOf_unrounded_inner :
    unrounded.heap.entriesOf ⟨1⟩ = [(.ofText "x", .float ⟨0x4004000000000000⟩)] := by
  rfl

/-- The integer that is no double comes back as its neighbour. -/
theorem rounded_unrounded :
    (Value.int (-9007199254740993)).rounded = .int (-9007199254740992) := by
  rfl

theorem rounded_small : (Value.int (-5)).rounded = .int (-5) :=
  Value.rounded_of_large (by decide)

theorem portable_unrounded : Portable unrounded.heap.entriesOf ⟨0⟩ := by
  have hinner : Portable unrounded.heap.entriesOf ⟨1⟩ := by
    refine Portable.intro ?_ ?_ ?_ <;> rw [entriesOf_unrounded_inner]
    · intro e he
      cases List.mem_singleton.mp he
      exact ⟨Value.HeldKey.text "x", Value.Held.float _⟩
    · intro e f he hf _
      rw [List.mem_singleton.mp he, List.mem_singleton.mp hf]
    · intro k j hj
      cases List.mem_singleton.mp hj
  refine Portable.intro ?_ ?_ ?_ <;> rw [entriesOf_unrounded]
  · intro e he
    rcases List.mem_pair.mp he with rfl | rfl
    · exact ⟨Value.HeldKey.int _, Value.Held.bool _⟩
    · exact ⟨Value.HeldKey.int _, Value.Held.table _⟩
  · intro e f he hf heq
    rcases List.mem_pair.mp he with rfl | rfl <;> rcases List.mem_pair.mp hf with rfl | rfl
    · rfl
    · rw [rounded_unrounded, rounded_small] at heq
      exact absurd heq (by decide)
    · rw [rounded_unrounded, rounded_small] at heq
      exact absurd heq (by decide)
    · rfl
  · intro k j hj
    rcases List.mem_pair.mp hj with h | h <;> cases h
    exact hinner

theorem copyTable_unrounded :
    (unrounded.heap.copyTable ⟨0⟩).depth = 2 ∧
      (unrounded.heap.copyTable ⟨0⟩).table.slots = 5 := by
  decide +kernel

theorem room_unrounded :
    (unrounded.thread ⟨0⟩).Room (2 * (unrounded.heap.copyTable ⟨0⟩).depth) := by
  rw [copyTable_unrounded.1]
  exact ⟨by decide, by decide⟩

theorem room_unrounded_back :
    (unrounded.thread ⟨0⟩).Room ((unrounded.heap.copyTable ⟨0⟩).table.slots + 1) := by
  rw [copyTable_unrounded.2]
  exact ⟨by decide, by decide⟩

theorem copyTable_pushHost_unrounded :
    exists w' j w'', Returns (copyTable ⟨0⟩ 1) unrounded (unrounded.heap.copyTable ⟨0⟩).table w' ∧
      Returns (pushHost ⟨0⟩ (.table (unrounded.heap.copyTable ⟨0⟩).table)) w' () w'' ∧
      (w''.thread ⟨0⟩).values = [.table ⟨0⟩, .table j] ∧
      SameContents unrounded.heap.entriesOf w''.heap.entriesOf (.table ⟨0⟩) (.table j) := by
  have hvalue : Returns (value? ⟨0⟩ 1) unrounded (some (.table ⟨0⟩)) unrounded := fun _ => rfl
  rcases copyTable_pushHost rfl (by decide) (by decide) hvalue portable_unrounded
    room_unrounded with ⟨w', hcopy, _, hpush⟩
  rcases hpush _ portable_unrounded.shuffled room_unrounded_back with
    ⟨j, w'', hrun, hvalues, hsame, _⟩
  exact ⟨w', j, w'', hcopy, hrun, hvalues, hsame⟩

/-- The new table lacks one key of the old one, and has a key that the old one
lacks. -/
theorem integer_key_rounded :
    exists w' j w'', Returns (copyTable ⟨0⟩ 1) unrounded (unrounded.heap.copyTable ⟨0⟩).table w' ∧
      Returns (pushHost ⟨0⟩ (.table (unrounded.heap.copyTable ⟨0⟩).table)) w' () w'' ∧
      (w''.thread ⟨0⟩).values = [.table ⟨0⟩, .table j] ∧
      unrounded.heap.entriesOf ⟨0⟩ =
        [(.int (-9007199254740993), .bool true), (.int (-5), .table ⟨1⟩)] ∧
      (forall v, ¬ (.int (-9007199254740993), v) ∈ w''.heap.entriesOf j) ∧
      exists v, (.int (-9007199254740992), v) ∈ w''.heap.entriesOf j := by
  have hvalue : Returns (value? ⟨0⟩ 1) unrounded (some (.table ⟨0⟩)) unrounded := fun _ => rfl
  rcases returns_copyTableOut (t := ⟨0⟩) rfl room_unrounded with ⟨w', honly, hcopy⟩
  rcases returns_pushHost_tree (t := ⟨0⟩) rfl (by decide) honly portable_unrounded
    portable_unrounded.shuffled room_unrounded_back with ⟨j, w'', hrun, hvalues, hsame, _⟩
  refine ⟨w', j, w'', returns_copyTable (by decide) hvalue hcopy, hrun, hvalues,
    entriesOf_unrounded, ?_⟩
  cases hsame with
  | scalar hscalar => exact absurd rfl (hscalar ⟨0⟩)
  | table hkeys _ =>
      rw [entriesOf_unrounded] at hkeys
      constructor
      · intro v hv
        rcases (hkeys _).mp ⟨v, hv⟩ with ⟨k, u, hmem, hk⟩
        rcases List.mem_pair.mp hmem with h | h <;> cases h
        · rw [rounded_unrounded] at hk
          exact absurd hk (by decide)
        · rw [rounded_small] at hk
          exact absurd hk (by decide)
      · exact (hkeys _).mpr ⟨_, _, List.mem_cons_self, rounded_unrounded⟩

end Interface

end LuaHost
