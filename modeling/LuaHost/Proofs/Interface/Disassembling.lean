import LuaHost.Handle.Typed
import LuaHost.Proofs.Interface.Balance
import LuaHost.Proofs.Interface.Headroom
import LuaHost.Proofs.Machine.Enumeration

/-!
# Copying tables entry by entry

A table is copied by a traversal on the stack, which pushes one entry after the
other, the value above its key, and copies a table that is met inside another on
top of the entry that holds it.  However tables are nested, the traversal needs the
room that is made for it at once, and its copies are those that are made at once.
-/

namespace LuaHost

namespace Disassembling

open Interface Machine

/-- The host's copy of the value at an index.  `path` holds the tables that are being
copied, and `copyInner` copies one that is not among them. -/
def copyValue (t : ThreadId) (path : List TableId) (copyInner : TableId → Int → M Data.Table)
    (idx : Int) : M (Option Data.Value) := do
  checkIndex t idx
  match ← value? t idx with
  | none => return none
  | some (.table i) =>
    if i ∈ path then
      log .debug ("cycle at table " ++ Value.addressText (Value.table i).address
        ++ ", skipping back-reference")
      return none
    else return some (.table (← copyInner i (← Machine.absIndex t idx)))
  | some v => return v.scalarForm?

/-- Adds the entry on top of the stack to a copy. -/
def copyEntry (t : ThreadId) (path : List TableId) (copyInner : TableId → Int → M Data.Table)
    (c : Data.Table) : M Data.Table := do
  checkIndex t (-2)
  let k ← value t (-2)
  match k.keyForm? with
  | none =>
    log .warn ("skipping " ++ k.kind.name ++ " key during table copy")
    return c
  | some key =>
    match ← copyValue t path copyInner (-1) with
    | some x => return c.set key x
    | none =>
      log .trace ("skipping " ++ (← value t (-1)).kind.name ++ " value during table copy")
      return c

/-- Copies the table at an index that keeps its meaning; `fuel` bounds the path. -/
def copyTableAt (t : ThreadId) : Nat → List TableId → TableId → Int → M Data.Table
  | 0, _, _, _ => return .empty
  | fuel + 1, path, i, idx => do
    pushNil t
    let size := (← table i).contents.size
    TableRef.visit t idx (fun c => do
      return (true, ← copyEntry t (i :: path) (copyTableAt t fuel (i :: path)) c)) .empty (size + 1)

/-- Copies the value at an index. -/
def toHost (t : ThreadId) (idx : Int) : M (Option Data.Value) := do
  let most := (← get).heap.tables.items.size
  copyValue t [] (copyTableAt t (most + 1) []) idx

/-- Copies the table at an index. -/
def copyTable (t : ThreadId) (idx : Int) : M Data.Table := do
  let k ← typeOf t idx
  match ← value t idx with
  | .table i =>
    let most := (← get).heap.tables.items.size
    copyTableAt t (most + 1) [] i (← Machine.absIndex t idx)
  | _ => unequalKinds ("copy_table on a " ++ (← typeName t idx) ++ " value") k .table

/-!
# The effect on the stack
-/

section Effect

variable {os : List ThreadId} {t : ThreadId} {path : List TableId}
  {copyInner : TableId → Int → M Data.Table}

theorem shifts_copyValue {j : Nat} (hinner : forall i idx, Shifts os t (copyInner i idx) j fun _ => j)
    (idx : Int) : Shifts os t (copyValue t path copyInner idx) j fun _ => j := by
  refine (still_checkIndex t idx).shifts.bind fun _ => (still_value? t idx).shifts.bind fun v => ?_
  split
  · exact Shifts.pure _
  · split
    · exact (still_log _ _).shifts.bind fun _ => Shifts.pure _
    · exact (still_absIndex t idx).shifts.bind fun _ => (hinner _ _).bind fun _ => Shifts.pure _
  · exact Shifts.pure _

theorem shifts_copyEntry {j : Nat} (hinner : forall i idx, Shifts os t (copyInner i idx) j fun _ => j)
    (c : Data.Table) : Shifts os t (copyEntry t path copyInner c) j fun _ => j := by
  refine (still_checkIndex t _).shifts.bind fun _ => (still_value t _).shifts.bind fun k => ?_
  split
  · exact (still_log _ _).shifts.bind fun _ => Shifts.pure _
  · refine (shifts_copyValue hinner _).bind fun x => ?_
    split
    · exact Shifts.pure _
    · exact (still_value t _).shifts.bind fun _ => (still_log _ _).shifts.bind fun _ =>
        Shifts.pure _

/-- A visit that says no stops with its entry on the stack, and the end of the
table with nothing. -/
theorem shifts_visit {σ : Type} {j : Nat} (idx : Int) {f : σ → M (Bool × σ)}
    (hf : forall s, Shifts os t (f s) 0 fun _ => 0) (fuel : Nat) : forall s : σ,
    Shifts os t (TableRef.visit t idx f s fuel) (j + 1) fun _ => j := by
  induction fuel with
  | zero => exact fun s => (shifts_pop 1).bind fun _ => Shifts.pure _
  | succ fuel ih =>
      intro s
      unfold TableRef.visit
      refine (shifts_next idx).bind fun more => ?_
      cases more with
      | false => exact Shifts.pure _
      | true =>
          refine ((hf s).over (j + 2)).bind fun answer => ?_
          rcases answer with ⟨more, s'⟩
          cases more with
          | true => exact (shifts_pop 1).bind fun _ => ih s'
          | false => exact (shifts_pop 2).bind fun _ => Shifts.pure _

theorem shifts_copyTableAt (fuel : Nat) : forall {j : Nat} (path : List TableId) (i : TableId)
    (idx : Int), Shifts os t (copyTableAt t fuel path i idx) j fun _ => j := by
  induction fuel with
  | zero => exact fun _ _ _ => Shifts.pure _
  | succ fuel ih =>
      intro j path i idx
      refine (shifts_pushNew _).bind fun _ => (still_table i).shifts.bind fun _ => ?_
      refine shifts_visit idx (fun c => ?_) _ _
      exact (shifts_copyEntry (ih (i :: path)) c).bind fun _ => Shifts.pure _

theorem shifts_toHost {j : Nat} (idx : Int) : Shifts os t (toHost t idx) j fun _ => j :=
  still_get.shifts.bind fun _ => shifts_copyValue (shifts_copyTableAt _ _) idx

theorem shifts_copyTable {j : Nat} (idx : Int) : Shifts os t (copyTable t idx) j fun _ => j := by
  refine (still_typeOf t idx).shifts.bind fun k => (still_value t idx).shifts.bind fun v => ?_
  split
  · exact still_get.shifts.bind fun _ => (still_absIndex t idx).shifts.bind fun _ =>
      shifts_copyTableAt _ _ _ _
  · exact (still_typeName t idx).shifts.bind fun _ => (still_abort _).shifts

end Effect

/-!
# In the middle of a copy
-/

/-- The world in the middle of a copy, which has told the log what it left out, with
values on top of the stack. -/
def During (t : ThreadId) (w : World) (c : TableCopy) (vs : List Value) (w' : World) : Prop :=
  World.Loaded t (w.setLog (c.log ++ w.log)) vs w'

/-- An index at which a table stays, whatever is pushed. -/
def Steady (t : ThreadId) (w : World) (idx : Int) (i : TableId) : Prop :=
  forall log vs w', World.Loaded t (w.setLog log) vs w' ->
    Returns (checkIndex t idx) w' () w' ∧ Returns (value t idx) w' (.table i) w'

variable {t : ThreadId} {w w' w₁ : World} {c : TableCopy} {vs : List Value} {i : TableId} {idx : Int}

theorem During.tables_eq (h : During t w c vs w') : w'.heap.tables = w.heap.tables :=
  h.heap_tables

theorem During.entriesOf_eq (h : During t w c vs w') : w'.heap.entriesOf = w.heap.entriesOf := by
  unfold Heap.entriesOf
  rw [h.tables_eq]

theorem During.returns_log (h : During t w c vs w₁) (level : LogLevel) (message : String) :
    exists w', Returns (log level message) w₁ () w' ∧ During t w (c.note level message) vs w' := by
  have hlogged := h.setLog (⟨level, message⟩ :: w₁.log)
  rw [h.log_eq] at hlogged
  refine ⟨_, returns_modify _ w₁, ?_⟩
  show World.Loaded t _ vs (w₁.setLog (⟨level, message⟩ :: w₁.log))
  rw [h.log_eq]
  exact hlogged

/-- A copy that is made on top of an unfinished one. -/
theorem During.trans {c' : TableCopy} {us : List Value} (h : During t w c us w₁)
    (h' : During t w₁ c' vs w') :
    World.Loaded t (w.setLog (c'.log ++ (c.log ++ w.log))) (us ++ vs) w' := by
  have hlogged := h.setLog (c'.log ++ w₁.log)
  rw [h.log_eq] at hlogged
  unfold During at h'
  rw [h.log_eq] at h'
  exact hlogged.trans h'

/-- A place in the stack has an index that counts from the bottom. -/
theorem steady_below (w : World) {n : Nat} (hn : 0 < n ∧ n < 1000)
    (hbase : (w.thread t).base + n ≤ (w.thread t).top)
    (hslot : (w.thread t).slot ((w.thread t).top - n) = .table i) :
    exists idx, Returns (Machine.absIndex t (-(n : Int))) w idx w ∧ Steady t w idx i := by
  have hheight : n ≤ (w.thread t).height := by
    unfold Thread.height
    omega
  refine ⟨(w.thread t).height + 1 + -(n : Int), ?_, fun log vs w' h => ⟨?_, ?_⟩⟩
  · unfold Machine.absIndex
    rw [if_neg (by
      rw [Bool.or_eq_true, decide_eq_true_eq, decide_eq_true_eq]
      unfold registryIndex
      omega)]
    exact Returns.bind (returns_height w t) (Returns.pure _ w)
  · apply returns_checkIndex
    unfold validIndex
    rw [Bool.and_eq_true, Bool.or_eq_true, Bool.or_eq_true, decide_eq_true_eq]
    exact ⟨bne_iff_ne.mpr (by omega), Or.inl (Or.inl (by omega))⟩
  · have htop : (w'.thread t).top = (w.thread t).top + vs.length := h.raised.top_eq
    have hstart : (w'.thread t).frame.func + 1 = (w.thread t).base := h.raised.below.base_eq
    have hplace : (w'.thread t).frame.func + ((w.thread t).height + 1 + -(n : Int)).toNat =
        (w.thread t).top - n := by
      unfold Thread.height
      omega
    have hread : Returns (place t ((w.thread t).height + 1 + -(n : Int))) w'
        (.slot ((w.thread t).top - n)) w' := by
      refine Returns.bind (returns_thread w' t) ?_
      rw [if_pos (by omega)]
      dsimp only
      rw [hplace, if_pos (by omega)]
      exact Returns.pure _ w'
    have hsame : (w'.thread t).slot ((w.thread t).top - n) = .table i :=
      (h.raised.below.slot_eq _ (by show _ < (w.thread t).top; omega)).trans hslot
    rw [← hsame]
    exact Returns.bind hread (Returns.bind (returns_thread w' t) (Returns.pure _ w'))

theorem Steady.during (h : Steady t w idx i) (hw : During t w c vs w₁) : Steady t w₁ idx i := by
  intro log us w' hus
  exact h log (vs ++ us) w' ((hw.setLog log).trans hus)

/-!
# One entry
-/

/-- The next entry is pushed over the key before it, or nothing at the end. -/
theorem needs_next (hlive : w.liveThread t = true)
    (hidx : Steady t w idx i) {key : Value} (hkey : During t w c [key] w₁)
    {next : Option (Value × Value)} (hnext : (w.heap.tables.get i.index).next key = some next) :
    Needs t (Interface.next t idx) w₁ ((w.thread t).top + 2) fun more w' =>
      more = next.isSome ∧ During t w c (next.elim [] fun e => [e.1, e.2]) w' := by
  have htop : (w₁.thread t).top = (w.thread t).top + 1 := hkey.raised.top_eq
  have hsetLog : (w.setLog (c.log ++ w.log)).liveThread t = true := hlive
  have hlive₁ : w₁.liveThread t = true := hkey.live hlive
  have hone := needs_reserve hlive₁ (n := 1) (by decide)
  rw [htop] at hone
  refine Needs.after (hidx _ _ _ hkey).1 rfl ?_
  constructor
  · intro hfits
    rcases hone.returns hfits with ⟨_, w₂, hreserve, hloaded⟩
    have hkey₂ : During t w c [key] w₂ := World.Loaded.trans hkey hloaded
    have htable : Returns (tableAt t idx) w₂ (some i) w₂ :=
      Returns.bind (hidx _ _ _ hkey₂).2 (Returns.pure _ _)
    have hvalue : Returns (value t (-1)) w₂ key w₂ := by
      have hread := returns_value_below w₂ t (n := 1) (by decide)
      rw [show (w₂.thread t).top = (w.thread t).top + 1 from hkey₂.raised.top_eq,
        Nat.add_sub_cancel] at hread
      rw [show (w₂.thread t).slot (w.thread t).top = key from
        hkey₂.raised.slot_eq 0 key rfl] at hread
      exact hread
    have hget : Returns (table i) w₂ (w.heap.tables.get i.index) w₂ := by
      rw [← hkey₂.tables_eq]
      exact fun _ => rfl
    rcases returns_drop_loaded [] [key] hsetLog hkey₂ with ⟨w₃, hdrop, hdropped⟩
    -- the key is gone in both cases; an entry takes one slot more than the key did
    cases next with
    | none =>
        refine ⟨false, w₃, Returns.bind hreserve (Returns.bind htable (Returns.bind hvalue
          (Returns.bind hget ?_))), rfl, hdropped⟩
        rw [hnext]
        exact Returns.bind hdrop (Returns.pure _ _)
    | some e =>
        rcases e with ⟨k, v⟩
        have htop₃ : (w₃.thread t).top = (w.thread t).top := hdropped.raised.top_eq
        have hlimit₃ : (w₃.thread t).limit = (w.thread t).limit := hdropped.raised.limit_eq
        rw [hkey.raised.limit_eq] at hfits
        have hfits : (w.thread t).top + 2 ≤ (w.thread t).limit := hfits
        rcases returns_push_loaded (hdropped.live hsetLog) k (by omega) with ⟨w₄, hk, hpushed⟩
        have hpushed := hdropped.trans hpushed
        have htop₄ : (w₄.thread t).top = (w.thread t).top + 1 := hpushed.raised.top_eq
        have hlimit₄ : (w₄.thread t).limit = (w.thread t).limit := hpushed.raised.limit_eq
        rcases returns_push_loaded (hpushed.live hsetLog) v (by omega) with ⟨w₅, hv, hboth⟩
        refine ⟨true, w₅, Returns.bind hreserve (Returns.bind htable (Returns.bind hvalue
          (Returns.bind hget ?_))), rfl, hpushed.trans hboth⟩
        rw [hnext]
        exact Returns.bind hdrop (Returns.bind hk (Returns.bind hv (Returns.pure _ _)))
  · intro hover E a w' h
    rcases ok_bind h with ⟨_, w₂, hreserve, _⟩
    exact hone.stops hover E _ w₂ hreserve

section Entry

variable {path : List TableId} {copyInner : TableId → Int → M Data.Table}
  {inner : TableId → TableCopy} {k v : Value}

theorem returns_copyValue {w : World} (hv : forall j, v ≠ .table j)
    (hcheck : Returns (checkIndex t idx) w () w) (hvalue : Returns (value? t idx) w (some v) w) :
    Returns (copyValue t path copyInner idx) w v.scalarForm? w := by
  refine Returns.bind hcheck (Returns.bind hvalue ?_)
  cases v with
  | table j => exact absurd rfl (hv j)
  | _ => exact Returns.pure _ w

theorem addEntry_scalar (hv : forall j, v ≠ .table j) {key : Key} (hkey : k.keyForm? = some key)
    (c : TableCopy) :
    TableCopy.addEntry path inner c (k, v) =
      (v.scalarForm?.elim (c.skipValue v) fun x => c.set key x) := by
  unfold TableCopy.addEntry
  dsimp only
  rw [hkey]
  cases v with
  | table j => exact absurd rfl (hv j)
  | _ => rfl

theorem addEntry_table {key : Key} (hkey : k.keyForm? = some key) (j : TableId) (c : TableCopy) :
    TableCopy.addEntry path inner c (k, .table j) =
      if j ∈ path then c.skipBack j else c.setTable key (inner j) := by
  unfold TableCopy.addEntry
  dsimp only
  rw [hkey]

/-- The values on top of the stack, in the middle of a copy. -/
theorem During.read (hbase : (w.thread t).base ≤ (w.thread t).top) (h : During t w c [k, v] w₁) :
    (Returns (checkIndex t (-2)) w₁ () w₁ ∧ Returns (value t (-2)) w₁ k w₁) ∧
      Returns (checkIndex t (-1)) w₁ () w₁ ∧ Returns (value? t (-1)) w₁ (some v) w₁ := by
  have htop : (w₁.thread t).top = (w.thread t).top + 2 := h.raised.top_eq
  have hstart : (w₁.thread t).base = (w.thread t).base := h.raised.below.base_eq
  have hk : (w₁.thread t).slot (w.thread t).top = k := h.raised.slot_eq 0 k rfl
  have hv : (w₁.thread t).slot ((w.thread t).top + 1) = v := h.raised.slot_eq 1 v rfl
  refine ⟨⟨returns_checkIndex_below (n := 2) (by decide) (by omega), ?_⟩,
    returns_checkIndex_below (n := 1) (by decide) (by omega), ?_⟩
  · have hread := returns_value_below w₁ t (n := 2) (by decide)
    rw [htop, Nat.add_sub_cancel, hk] at hread
    exact hread
  · rw [← hv]
    exact returns_value?_top htop

theorem returns_skipped (hbase : (w.thread t).base ≤ (w.thread t).top)
    (h : During t w c [k, v] w₁) (T : Data.Table) :
    exists w', Returns (do
        log .trace ("skipping " ++ (← value t (-1)).kind.name ++ " value during table copy")
        return T) w₁ T w' ∧ During t w (c.skipValue v) [k, v] w' := by
  rcases h.returns_log .trace ("skipping " ++ v.kind.name ++ " value during table copy") with
    ⟨w', hlog, hlogged⟩
  exact ⟨w', Returns.bind (returns_value (h.read hbase).2.2) (Returns.bind hlog (Returns.pure _ _)),
    hlogged⟩

/-- A table that is met inside another is copied on top of its entry. -/
theorem needs_copyValue_table (hbase : (w.thread t).base ≤ (w.thread t).top) {j : TableId}
    (hentry : During t w c [k, .table j] w₁) (hj : ¬ j ∈ path)
    (hinner : forall idx, Steady t w₁ idx j ->
      Needs t (copyInner j idx) w₁ ((w₁.thread t).top + 2 * (inner j).depth) fun T w' =>
        T = (inner j).table ∧ During t w₁ (inner j) [] w') :
    Needs t (copyValue t path copyInner (-1)) w₁ ((w₁.thread t).top + 2 * (inner j).depth)
      fun x w' => x = some (.table (inner j).table) ∧ During t w₁ (inner j) [] w' := by
  have hread := hentry.read hbase
  have htop : (w₁.thread t).top = (w.thread t).top + 2 := hentry.raised.top_eq
  have hstart : (w₁.thread t).base = (w.thread t).base := hentry.raised.below.base_eq
  have hslot : (w₁.thread t).slot ((w₁.thread t).top - 1) = .table j := by
    rw [htop]
    exact hentry.raised.slot_eq 1 _ rfl
  rcases steady_below w₁ (n := 1) (by decide) (by omega) hslot with ⟨idx, habs, hsteady⟩
  refine Needs.after hread.2.1 rfl (Needs.after hread.2.2 rfl ?_)
  dsimp only
  rw [if_neg hj]
  refine Needs.after habs rfl ?_
  refine ((hinner idx hsteady).bind (fun _ _ hmade => hmade.2.raised.limit_eq)
    (n := (w₁.thread t).top) ?_).of_eq (by omega)
  rintro _ w' ⟨rfl, hmade⟩
  have hlimit : (w'.thread t).limit = (w₁.thread t).limit := hmade.raised.limit_eq
  have hroom := hentry.raised.fits
  exact needs_of_returns (Returns.pure _ _) (by omega) ⟨rfl, hmade⟩

theorem needs_copyEntry (hbase : (w.thread t).base ≤ (w.thread t).top) {e : Value × Value}
    (hentry : During t w c [e.1, e.2] w₁)
    (hdepth : c.depth ≤ 1 ∨ (w.thread t).top + 2 * c.depth ≤ (w.thread t).limit)
    (hinner : forall j idx, e.2 = .table j -> ¬ j ∈ path -> Steady t w₁ idx j ->
      Needs t (copyInner j idx) w₁ ((w₁.thread t).top + 2 * (inner j).depth) fun T w' =>
        T = (inner j).table ∧ During t w₁ (inner j) [] w') :
    Needs t (copyEntry t path copyInner c.table) w₁
      ((w.thread t).top + 2 * (TableCopy.addEntry path inner c e).depth) fun T w' =>
        T = (TableCopy.addEntry path inner c e).table ∧
          During t w (TableCopy.addEntry path inner c e) [e.1, e.2] w' := by
  rcases e with ⟨k, v⟩
  have hread := hentry.read hbase
  have htop : (w₁.thread t).top = (w.thread t).top + 2 := hentry.raised.top_eq
  have hlimit : (w₁.thread t).limit = (w.thread t).limit := hentry.raised.limit_eq
  have hroom := hentry.raised.fits
  have hfits : (w.thread t).top + 2 * c.depth ≤ (w₁.thread t).limit := by omega
  refine Needs.after hread.1.1 rfl (Needs.after hread.1.2 rfl ?_)
  -- a key without a form is left out before the value is looked at, and a table on the path when it
  -- is
  cases hkey : k.keyForm? with
  | none =>
      have hskip : TableCopy.addEntry path inner c (k, v) = c.skipKey k := by
        unfold TableCopy.addEntry
        dsimp only
        rw [hkey]
      rcases hentry.returns_log .warn ("skipping " ++ k.kind.name ++ " key during table copy") with
        ⟨w', hlog, hlogged⟩
      rw [hskip]
      exact needs_of_returns (Returns.bind hlog (Returns.pure _ _)) hfits ⟨rfl, hlogged⟩
  | some key =>
      by_cases htable : exists j, v = .table j
      · rcases htable with ⟨j, rfl⟩
        rw [addEntry_table hkey]
        by_cases hj : j ∈ path
        · rw [if_pos hj]
          rcases hentry.returns_log .debug ("cycle at table " ++
            Value.addressText (Value.table j).address ++ ", skipping back-reference") with
            ⟨w', hlog, hlogged⟩
          rcases returns_skipped hbase hlogged c.table with ⟨w'', hskip, hskipped⟩
          have hvalue : Returns (copyValue t path copyInner (-1)) w₁ none w' := by
            refine Returns.bind hread.2.1 (Returns.bind hread.2.2 ?_)
            dsimp only
            rw [if_pos hj]
            exact Returns.bind hlog (Returns.pure _ _)
          exact needs_of_returns (Returns.bind hvalue hskip) hfits ⟨rfl, hskipped⟩
        · rw [if_neg hj]
          have hcopy := needs_copyValue_table hbase hentry hj (hinner j · rfl hj)
          refine (hcopy.bind (fun _ _ hmade => hmade.2.raised.limit_eq)
            (n := (w.thread t).top + 2 * c.depth) ?_).of_eq ?_
          · rintro _ w' ⟨rfl, hmade⟩
            have hsame : (w'.thread t).limit = (w₁.thread t).limit := hmade.raised.limit_eq
            have hlogs : During t w (c.setTable key (inner j)) [k, .table j] w' := by
              have hboth := hentry.trans hmade
              rw [← List.append_assoc] at hboth
              exact hboth
            exact needs_of_returns (Returns.pure _ _) (by rw [hsame]; exact hfits) ⟨rfl, hlogs⟩
          · rw [htop]
            show _ = (w.thread t).top + 2 * max c.depth ((inner j).depth + 1)
            omega
      · have hscalar : forall j, v ≠ .table j := fun j hj => htable ⟨j, hj⟩
        have hvalue : Returns (copyValue t path copyInner (-1)) w₁ v.scalarForm? w₁ :=
          returns_copyValue hscalar hread.2.1 hread.2.2
        rw [addEntry_scalar hscalar hkey]
        cases hform : v.scalarForm? with
        | none =>
            rw [hform] at hvalue
            rcases returns_skipped hbase hentry c.table with ⟨w', hskip, hskipped⟩
            exact needs_of_returns (Returns.bind hvalue hskip) hfits ⟨rfl, hskipped⟩
        | some x =>
            rw [hform] at hvalue
            exact needs_of_returns (Returns.bind hvalue (Returns.pure _ _)) hfits ⟨rfl, hentry⟩

theorem le_depth_addEntry (c : TableCopy) (e : Value × Value) :
    c.depth ≤ (TableCopy.addEntry path inner c e).depth := by
  rcases e with ⟨k, v⟩
  unfold TableCopy.addEntry
  cases k.keyForm? with
  | none => exact Nat.le_refl _
  | some key =>
      cases v with
      | table j =>
          dsimp only
          split
          · exact Nat.le_refl _
          · exact Nat.le_max_left _ _
      | _ => exact Nat.le_refl _

theorem le_depth_fold (es : List (Value × Value)) : forall c : TableCopy,
    c.depth ≤ (es.foldl (TableCopy.addEntry path inner) c).depth := by
  induction es with
  | nil => exact fun c => Nat.le_refl _
  | cons e es ih => exact fun c => Nat.le_trans (le_depth_addEntry c e) (ih _)

/-- From an entry on, the traversal copies what follows it. -/
theorem needs_visit (hlive : w.liveThread t = true) (hbase : (w.thread t).base ≤ (w.thread t).top)
    (hidx : Steady t w idx i) (hstored : (w.heap.tables.get i.index).Stored)
    (hinner : forall e c w₁ j idx, e ∈ w.heap.entriesOf i -> During t w c [e.1, e.2] w₁ ->
      e.2 = .table j -> ¬ j ∈ path -> Steady t w₁ idx j ->
      Needs t (copyInner j idx) w₁ ((w₁.thread t).top + 2 * (inner j).depth) fun T w' =>
        T = (inner j).table ∧ During t w₁ (inner j) [] w')
    {rest : List (Value × Value)} : forall {before : List (Value × Value)} {key : Value}
    {c : TableCopy} {w₁ : World} {fuel : Nat}, w.heap.entriesOf i = before ++ rest ->
    (w.heap.tables.get i.index).next key = some rest.head? -> During t w c [key] w₁ ->
    (c.depth ≤ 1 ∨ (w.thread t).top + 2 * c.depth ≤ (w.thread t).limit) -> rest.length < fuel ->
    Needs t (TableRef.visit t idx (fun c => do return (true, ← copyEntry t path copyInner c))
        c.table fuel) w₁
      ((w.thread t).top + 2 * max 1 (rest.foldl (TableCopy.addEntry path inner) c).depth)
      fun T w' => T = (rest.foldl (TableCopy.addEntry path inner) c).table ∧
        During t w (rest.foldl (TableCopy.addEntry path inner) c) [] w' := by
  -- by induction on the entries that follow the key on the stack; the copy so far, the log and the
  -- fuel are generalised
  induction rest with
  | nil =>
      intro before key c w₁ fuel _ hnext hkey hdepth hfuel
      cases fuel with
      | zero => cases hfuel
      | succ fuel =>
          have hlimit : (w₁.thread t).limit = (w.thread t).limit := hkey.raised.limit_eq
          unfold TableRef.visit
          refine ((needs_next hlive hidx hkey hnext).bind_of_fits
            (fun _ _ hmore => hmore.2.raised.limit_eq.trans hlimit.symm)
            (n := (w.thread t).top + 2 * c.depth) ?_).of_eq (by rw [List.foldl_nil]; omega)
          rintro hfits _ w' ⟨rfl, hend⟩
          have hlimit' : (w'.thread t).limit = (w.thread t).limit := hend.raised.limit_eq
          exact needs_of_returns (Returns.pure _ _) (by omega) ⟨rfl, hend⟩
  | cons e rest ih =>
      intro before key c w₁ fuel hsplit hnext hkey hdepth hfuel
      cases fuel with
      | zero => cases hfuel
      | succ fuel =>
          have hmem : e ∈ w.heap.entriesOf i := by
            rw [hsplit]
            exact List.mem_append_right _ (List.mem_cons_self ..)
          have hlimit : (w₁.thread t).limit = (w.thread t).limit := hkey.raised.limit_eq
          have hdeeper : (TableCopy.addEntry path inner c e).depth ≤
              ((e :: rest).foldl (TableCopy.addEntry path inner) c).depth := le_depth_fold rest _
          unfold TableRef.visit
          refine ((needs_next hlive hidx hkey hnext).bind_of_fits
            (fun _ _ hmore => hmore.2.raised.limit_eq.trans hlimit.symm)
            (n := (w.thread t).top + 2 * max 1
              ((e :: rest).foldl (TableCopy.addEntry path inner) c).depth) ?_).of_eq (by omega)
          rintro _ _ w₂ ⟨rfl, hentry⟩
          have hlimit₂ : (w₂.thread t).limit = (w.thread t).limit := hentry.raised.limit_eq
          have hcopy := needs_copyEntry hbase hentry hdepth fun j idx => hinner e c w₂ j idx hmem hentry
          rw [List.head?_cons, Option.isSome_some, if_pos rfl, bind_assoc]
          refine (hcopy.bind_of_fits
            (fun _ _ hmade => hmade.2.raised.limit_eq.trans hlimit₂.symm)
            (n := (w.thread t).top + 2 * max 1
              ((e :: rest).foldl (TableCopy.addEntry path inner) c).depth) ?_).of_eq (by omega)
          rintro hfits _ w₃ ⟨rfl, hmade⟩
          rw [pure_bind]
          dsimp only
          rw [if_pos rfl]
          have hfits : (w.thread t).top + 2 * (TableCopy.addEntry path inner c e).depth ≤
              (w.thread t).limit := hlimit₂ ▸ hfits
          have hpops : exists w₄, Returns (pop t 1) w₃ () w₄ ∧
              During t w (TableCopy.addEntry path inner c e) [e.1] w₄ :=
            returns_pop_loaded (w := w.setLog _) [e.1] [e.2] hlive hbase hmade
          rcases hpops with ⟨w₄, hpop, hpopped⟩
          have hlimit₃ : (w₃.thread t).limit = (w.thread t).limit := hmade.raised.limit_eq
          have hlimit₄ : (w₄.thread t).limit = (w.thread t).limit := hpopped.raised.limit_eq
          refine Needs.after hpop (hlimit₄.trans hlimit₃.symm) ?_
          have hsplit' : w.heap.entriesOf i = (before ++ [e]) ++ rest := by
            rw [hsplit, List.append_assoc]
            rfl
          exact ih hsplit' (Table.next_entries hstored hsplit) hpopped (Or.inr hfits)
            (Nat.lt_of_succ_lt_succ hfuel)

end Entry

/-!
# The pieces and the whole

The fuel does not run out, since no table is on the path twice.
-/

theorem needs_copyTableAt (fuel : Nat) : forall {w : World} {path : List TableId} {i : TableId}
    {idx : Int}, w.liveThread t = true -> (w.thread t).base ≤ (w.thread t).top ->
    Steady t w idx i ->
    (forall j, Within w.heap.entriesOf i j -> (w.heap.tables.get j.index).Stored) ->
    path.Nodup -> (forall j, j ∈ path -> j.index < w.heap.tables.items.size) ->
    w.heap.tables.items.size < fuel + path.length -> ¬ i ∈ path ->
    Needs t (copyTableAt t fuel path i idx) w
      ((w.thread t).top + 2 * (TableCopy.traverse w.heap.entriesOf fuel path i).depth)
      fun T w' => T = (TableCopy.traverse w.heap.entriesOf fuel path i).table ∧
        During t w (TableCopy.traverse w.heap.entriesOf fuel path i) [] w' := by
  induction fuel with
  | zero =>
      intro w path i idx _ _ _ _ hpath honpath hfuel _
      -- the path holds each table of the heap at most once
      have hlen := TableCopy.length_path_le hpath honpath
      omega
  | succ fuel ih =>
      intro w path i idx hlive hbase hidx hstored hpath honpath hfuel hi
      have hpath' : (i :: path).Nodup := List.nodup_cons.mpr ⟨hi, hpath⟩
      have hvisit : forall w₁, During t w {} [.nil] w₁ -> Needs t
          (TableRef.visit t idx (fun c => do
            return (true, ← copyEntry t (i :: path) (copyTableAt t fuel (i :: path)) c)) .empty
            ((w.heap.tables.get i.index).contents.size + 1)) w₁
          ((w.thread t).top + 2 * max 1
            (TableCopy.traverse w.heap.entriesOf (fuel + 1) path i).depth)
          fun T w' => T = (TableCopy.traverse w.heap.entriesOf (fuel + 1) path i).table ∧
            During t w (TableCopy.traverse w.heap.entriesOf (fuel + 1) path i) [] w' := by
        intro w₁ hnil
        refine needs_visit hlive hbase hidx (hstored i Within.self) ?_ (List.nil_append _).symm
          (Table.next_nil _) hnil (Or.inl (Nat.le_refl 1)) ?_
        · intro e c w₂ j idx' he hentry hj hnot hsteady
          have hinside : (e.1, .table j) ∈ w.heap.entriesOf i := hj ▸ he
          have hbase₂ : (w₂.thread t).base ≤ (w₂.thread t).top := by
            have htop : (w₂.thread t).top = (w.thread t).top + 2 := hentry.raised.top_eq
            have hstart : (w₂.thread t).base = (w.thread t).base := hentry.raised.below.base_eq
            omega
          -- a table inside is copied in the world that the visit has come to, whose tables are the
          -- same
          have hmade := ih (w := w₂) (hentry.live hlive) hbase₂ hsteady
            (by
              rw [hentry.entriesOf_eq, hentry.tables_eq]
              exact fun l hl => hstored l (hl.inside hinside))
            hpath'
            (by
              rw [hentry.tables_eq]
              intro l hl
              rcases List.mem_cons.mp hl with rfl | hl
              · exact w.heap.entriesOf_range _ e he
              · exact honpath l hl)
            (by
              rw [hentry.tables_eq, List.length_cons]
              omega)
            hnot
          rw [hentry.entriesOf_eq] at hmade
          exact hmade
        · rw [Table.size_contents]
          exact Nat.lt_succ_of_le (List.length_filter_le _ _)
      have hpositive : 1 ≤ (TableCopy.traverse w.heap.entriesOf (fuel + 1) path i).depth :=
        le_depth_fold (w.heap.entriesOf i) {}
      refine ((needs_pushNew hlive .nil).bind (fun _ _ hloaded => hloaded.raised.limit_eq)
        (n := (w.thread t).top + 2 * max 1
          (TableCopy.traverse w.heap.entriesOf (fuel + 1) path i).depth) ?_).of_eq (by omega)
      intro _ w₁ hnil
      have hread : Returns (table i) w₁ (w.heap.tables.get i.index) w₁ := by
        rw [← hnil.heap_tables]
        exact fun _ => rfl
      exact Needs.after hread rfl (hvisit w₁ hnil)

theorem needs_copyTableOut (hlive : w.liveThread t = true) (i : TableId) :
    Needs t (copyTableOut t i) w ((w.thread t).top + 2 * (w.heap.copyTable i).depth)
      fun T w' => T = (w.heap.copyTable i).table ∧ During t w (w.heap.copyTable i) [] w' := by
  have hpositive : 1 ≤ (w.heap.copyTable i).depth := le_depth_fold (w.heap.entriesOf i) {}
  refine Needs.after (returns_get w) rfl ?_
  refine ((needs_needRoom hlive (by omega)).bind (fun _ _ hloaded => hloaded.raised.limit_eq)
    (n := (w.thread t).top) ?_).of_eq (by omega)
  intro _ w₁ hloaded
  have htop : (w₁.thread t).top = (w.thread t).top := hloaded.raised.top_eq
  have hlogged := hloaded.setLog ((w.heap.copyTable i).log ++ w₁.log)
  rw [hloaded.log_eq] at hlogged
  refine needs_of_returns (Returns.bind (returns_modify _ w₁) (Returns.pure _ _))
    (htop ▸ hloaded.raised.fits) ⟨rfl, ?_⟩
  show World.Loaded t _ [] (w₁.setLog ((w.heap.copyTable i).log ++ w₁.log))
  rw [hloaded.log_eq]
  exact hlogged

/-- Entry by entry and at once a table is copied in the same cases, and both leave the
same copy, the same log, and the stack as it was. -/
theorem copyTable_agrees (hlive : w.liveThread t = true)
    (hbase : (w.thread t).base ≤ (w.thread t).top)
    (hindex : validIndex (w.thread t).height idx = true)
    (hvalue : Returns (value? t idx) w (some (.table i)) w) {idx' : Int}
    (habs : Returns (Machine.absIndex t idx) w idx' w) (hsteady : Steady t w idx' i)
    (hstored : forall j, Within w.heap.entriesOf i j -> (w.heap.tables.get j.index).Stored) :
    (exists T w₁ w₂, Returns (copyTable t idx) w T w₁ ∧ Returns (Interface.copyTable t idx) w T w₂ ∧
      During t w (w.heap.copyTable i) [] w₁ ∧ During t w (w.heap.copyTable i) [] w₂) ∨
    forall E a w', copyTable t idx E w ≠ .ok a w' ∧ Interface.copyTable t idx E w ≠ .ok a w' := by
  have hkind : Returns (typeOf t idx) w .table w :=
    Returns.bind (returns_checkIndex hindex) (Returns.bind hvalue (Returns.pure _ w))
  have hread := returns_value hvalue
  have hcopy : Needs t (copyTableAt t (w.heap.tables.items.size + 1) [] i idx') w
      ((w.thread t).top + 2 * (w.heap.copyTable i).depth) fun T w' =>
        T = (w.heap.copyTable i).table ∧ During t w (w.heap.copyTable i) [] w' :=
    needs_copyTableAt _ hlive hbase hsteady hstored List.nodup_nil nofun (Nat.lt_succ_self _) nofun
  have hpieces : Needs t (copyTable t idx) w ((w.thread t).top + 2 * (w.heap.copyTable i).depth)
      fun T w' => T = (w.heap.copyTable i).table ∧ During t w (w.heap.copyTable i) [] w' := by
    refine Needs.after hkind rfl (Needs.after hread rfl ?_)
    exact Needs.after (returns_get w) rfl (Needs.after habs rfl hcopy)
  have hwhole : Needs t (Interface.copyTable t idx) w
      ((w.thread t).top + 2 * (w.heap.copyTable i).depth)
      fun T w' => T = (w.heap.copyTable i).table ∧ During t w (w.heap.copyTable i) [] w' :=
    Needs.after hkind rfl (Needs.after hread rfl (needs_copyTableOut hlive i))
  by_cases hfits : (w.thread t).top + 2 * (w.heap.copyTable i).depth ≤ (w.thread t).limit
  · rcases hpieces.returns hfits with ⟨_, w₁, hrun₁, rfl, hmade₁⟩
    rcases hwhole.returns hfits with ⟨_, w₂, hrun₂, rfl, hmade₂⟩
    exact Or.inl ⟨_, w₁, w₂, hrun₁, hrun₂, hmade₁, hmade₂⟩
  · have hover := Nat.lt_of_not_le hfits
    exact Or.inr fun E a w' => ⟨hpieces.stops hover E a w', hwhole.stops hover E a w'⟩

end Disassembling

end LuaHost
