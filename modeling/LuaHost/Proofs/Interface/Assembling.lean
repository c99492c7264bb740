import LuaHost.Proofs.Interface.Balance
import LuaHost.Proofs.Interface.Filling

/-!
# Pushing host values piece by piece

A host table is pushed by making a table on the stack, pushing each member on
top of it, under its name or above its key where it has one, and writing the
member to the table.  Whatever is nested in it, the pieces need the room that
is made for them at once, and leave what is made at once.
-/

namespace LuaHost

namespace Assembling

open Interface Machine

mutual

/-- Pushes a host value. -/
def pushValue (t : ThreadId) : Data.Value → M Unit
  | .nil => pushNil t
  | .bool b => pushBoolean t b
  | .number (.int i) => pushInteger t i
  | .number (.float x) => pushNumber t x
  | .string s => pushString t s
  | .table T => pushTable t T
  | .light p => pushLightUserData t p

/-- Pushes a new table with the contents of a host table. -/
def pushTable (t : ThreadId) : Data.Table → M Unit
  | .mk a m => do
    createTable t a.size m.length
    addArray t a
    addEntries t m

def addArray (t : ThreadId) : Array Data.Value → M Unit
  | ⟨vs⟩ => addValues t 1 vs

/-- Adds values to the table on top, from a position on. -/
def addValues (t : ThreadId) (i : Nat) : List Data.Value → M Unit
  | [] => return ()
  | v :: vs => do
    pushValue t v
    setInt t (-2) (Int64.ofNat i)
    addValues t (i + 1) vs

def addEntries (t : ThreadId) : List (TableKey × Data.Value) → M Unit
  | [] => return ()
  | e :: es => do
    addEntry t e
    addEntries t es

/-- Adds an entry to the table on top. -/
def addEntry (t : ThreadId) : TableKey × Data.Value → M Unit
  | (k, v) =>
    match k with
    | .string s => do
      pushValue t v
      setField t (-2) s
    | .integer i => do
      pushValue t v
      setInt t (-2) i
    | .bool b => do
      pushBoolean t b
      pushValue t v
      setTable t (-3)
    | .number x => do
      pushNumber t x.value
      pushValue t v
      setTable t (-3)

end

/-!
# The effect on the stack
-/

section Effect

variable {os : List ThreadId} {t : ThreadId}

theorem shifts_setInt {j : Nat} (idx : Int) (n : Int64) :
    Shifts os t (setInt t idx n) (j + 1) fun _ => j :=
  (still_checkIndex t idx).shifts.bind fun _ => (still_value t idx).shifts.bind fun v =>
    (still_value t _).shifts.bind fun x =>
      (shifts_assignLoop maxChain v _ x .unknown).bind fun _ => shifts_drop 1

mutual

theorem shifts_pushValue {j : Nat} (v : Data.Value) : Shifts os t (pushValue t v) j fun _ => j + 1 := by
  cases v with
  | nil => rw [pushValue]; exact shifts_pushNew _
  | bool b => rw [pushValue]; exact shifts_pushNew _
  | number n => cases n <;> rw [pushValue] <;> exact shifts_pushNew _
  | string s => rw [pushValue]; exact shifts_pushNew _
  | light p => rw [pushValue]; exact shifts_pushNew _
  | table T =>
      rw [pushValue]
      exact shifts_pushTable T

theorem shifts_pushTable {j : Nat} (T : Data.Table) : Shifts os t (pushTable t T) j fun _ => j + 1 := by
  cases T with
  | mk a m =>
      rw [pushTable]
      exact (shifts_createTable _ _).bind fun _ => (shifts_addArray a).bind fun _ =>
        shifts_addEntries m

theorem shifts_addArray {j : Nat} (a : Array Data.Value) :
    Shifts os t (addArray t a) (j + 1) fun _ => j + 1 := by
  cases a with
  | mk vs =>
      rw [addArray]
      exact shifts_addValues 1 vs

theorem shifts_addValues {j : Nat} (i : Nat) (vs : List Data.Value) :
    Shifts os t (addValues t i vs) (j + 1) fun _ => j + 1 := by
  cases vs with
  | nil =>
      rw [addValues]
      exact Shifts.pure _
  | cons v vs =>
      rw [addValues]
      exact (shifts_pushValue v).bind fun _ => (shifts_setInt _ _).bind fun _ =>
        shifts_addValues (i + 1) vs

theorem shifts_addEntries {j : Nat} (es : List (TableKey × Data.Value)) :
    Shifts os t (addEntries t es) (j + 1) fun _ => j + 1 := by
  cases es with
  | nil =>
      rw [addEntries]
      exact Shifts.pure _
  | cons e es =>
      rw [addEntries]
      exact (shifts_addEntry e).bind fun _ => shifts_addEntries es

theorem shifts_addEntry {j : Nat} (e : TableKey × Data.Value) :
    Shifts os t (addEntry t e) (j + 1) fun _ => j + 1 := by
  cases e with
  | mk k v =>
      cases k with
      | string s =>
          rw [addEntry]
          exact (shifts_pushValue v).bind fun _ => shifts_setField _ s
      | integer i =>
          rw [addEntry]
          exact (shifts_pushValue v).bind fun _ => shifts_setInt _ i
      | bool b =>
          rw [addEntry]
          exact (shifts_pushNew _).bind fun _ => (shifts_pushValue v).bind fun _ => shifts_setTable _
      | number x =>
          rw [addEntry]
          exact (shifts_pushNew _).bind fun _ => (shifts_pushValue v).bind fun _ => shifts_setTable _

end

end Effect

/-!
# Making tables in any world
-/

/-- Out of a store of tables the computation makes `a` and another store, whatever
else there is in the world. -/
def Builds {α : Type} (x : M α) (s : Store Table) (n : Nat) (a : α) (s' : Store Table) (n' : Nat) :
    Prop :=
  forall w : World, w.heap.tables = s -> w.collector.allocated = n ->
    Returns x w a (w.withTables s' n')

section Builds

variable {α β : Type} {s s' s'' : Store Table} {n n' n'' : Nat}

theorem Builds.pure (a : α) : Builds (pure a) s n a s n := by
  rintro w rfl rfl
  exact Returns.pure a w

theorem Builds.bind {x : M α} {f : α → M β} {a : α} {b : β} (hx : Builds x s n a s' n')
    (hf : Builds (f a) s' n' b s'' n'') : Builds (x >>= f) s n b s'' n'' := by
  intro w hs hn
  exact Returns.bind (hx w hs hn) (hf _ rfl rfl)

theorem builds_newTable (T : Table) : Builds (newTable T) s n ⟨s.next⟩ (s.push T) (n + 1) := by
  rintro w rfl rfl
  exact returns_newTable w T

theorem builds_modifyTable (i : TableId) (f : Table → Table) :
    Builds (modifyTable i f) s n () (s.modify i.index f) n := by
  rintro w rfl rfl
  exact returns_modifyTable w i f

end Builds

/-- One table of a store may have changed, but for its metatable, and there may be
newer ones. -/
structure Kept (i : TableId) (s s' : Store Table) : Prop where
  next_le : s.next ≤ s'.next
  find?_eq : forall j, j < s.next -> j ≠ i.index -> s'.find? j = s.find? j
  metatable_eq : (s'.get i.index).metatable = (s.get i.index).metatable

theorem Kept.refl (i : TableId) (s : Store Table) : Kept i s s :=
  ⟨Nat.le_refl _, fun _ _ _ => rfl, rfl⟩

theorem Kept.trans {i : TableId} {s s' s'' : Store Table} (h : Kept i s s') (h' : Kept i s' s'') :
    Kept i s s'' :=
  ⟨Nat.le_trans h.next_le h'.next_le, fun j hj hne =>
    (h'.find?_eq j (Nat.lt_of_lt_of_le hj h.next_le) hne).trans (h.find?_eq j hj hne),
    h'.metatable_eq.trans h.metatable_eq⟩

theorem kept_of_extends {i : TableId} {s s' : Store Table} (h : s.Extends s')
    (hi : i.index < s.next) : Kept i s s' := by
  refine ⟨h.next_le, fun j hj _ => h.find?_eq j hj, ?_⟩
  unfold Store.get
  rw [h.find?_eq _ hi]

theorem kept_modify (i : TableId) (s : Store Table) (k v : Value) :
    Kept i s (s.modify i.index (·.set k v)) := by
  refine ⟨Nat.le_of_eq (Store.next_modify _ _ _).symm, fun j _ hne => ?_, ?_⟩
  · rw [Store.find?_modify, if_neg (Ne.symm hne)]
  · unfold Store.get
    rw [Store.find?_modify, if_pos rfl]
    cases s.find? i.index with
    | none => rfl
    | some T => exact Table.metatable_put T _ v

/-!
# What the pieces need and make
-/

/-- The value that a computation makes stands on top of the stack, and the tables
are those that it leaves. -/
def Made (t : ThreadId) (w : World) (make : M Value) (w' : World) : Prop :=
  exists x s n, Builds make w.heap.tables w.collector.allocated x s n ∧
    w.heap.tables.Extends s ∧ World.Loaded t (w.withTables s n) [x] w'

/-- The table on top of the stack has got what a computation adds to it. -/
def Added (t : ThreadId) (w : World) (id : TableId) (add : M Unit) (w' : World) : Prop :=
  exists s n, Builds add w.heap.tables w.collector.allocated () s n ∧ Kept id w.heap.tables s ∧
    World.Loaded t (w.withTables s n) [] w'

/-- A table without a metatable stands on top of the stack. -/
structure OnTop (t : ThreadId) (id : TableId) (w : World) : Prop where
  live : w.liveThread t = true
  place : (w.thread t).base < (w.thread t).top
  slot_eq : (w.thread t).slot ((w.thread t).top - 1) = .table id
  known : id.index < w.heap.tables.next
  plain : (w.heap.tables.get id.index).metatable = none
  fits : (w.thread t).top ≤ (w.thread t).limit

variable {t : ThreadId} {w w' : World} {id : TableId}

theorem OnTop.added (h : OnTop t id w) {add : M Unit} (hadd : Added t w id add w') :
    OnTop t id w' := by
  rcases hadd with ⟨s, n, _, hkept, hloaded⟩
  have htop : (w'.thread t).top = (w.thread t).top := hloaded.raised.top_eq
  have hbase : (w'.thread t).base = (w.thread t).base := hloaded.raised.below.base_eq
  have htables : w'.heap.tables = s := hloaded.heap_tables
  have hplace := h.place
  constructor
  case live => exact hloaded.live h.live
  case place =>
    rw [htop, hbase]
    exact hplace
  case slot_eq =>
    rw [htop]
    exact (hloaded.raised.below.slot_eq _ (by show _ < (w.thread t).top; omega)).trans h.slot_eq
  case known =>
    rw [htables]
    exact Nat.lt_of_lt_of_le h.known hkept.next_le
  case plain =>
    rw [htables, hkept.metatable_eq]
    exact h.plain
  case fits => exact hloaded.raised.fits

theorem Added.bind {add : M Unit} {next : M Unit} {w'' : World} (h : Added t w id add w')
    (h' : Added t w' id next w'') : Added t w id (do add; next) w'' := by
  rcases h with ⟨s, n, hbuilds, hkept, hloaded⟩
  rcases h' with ⟨s', n', hbuilds', hkept', hloaded'⟩
  rw [hloaded.heap_tables, hloaded.collector_eq] at hbuilds'
  rw [hloaded.heap_tables] at hkept'
  exact ⟨s', n', hbuilds.bind hbuilds', hkept.trans hkept',
    (hloaded.withTables s' n').trans hloaded'⟩

theorem OnTop.withTables (h : OnTop t id w) {s : Store Table} (hkept : Kept id w.heap.tables s)
    (n : Nat) : OnTop t id (w.withTables s n) :=
  { h with
    known := Nat.lt_of_lt_of_le h.known hkept.next_le
    plain := hkept.metatable_eq.trans h.plain }

/-!
# Writing a member
-/

section Writing

variable {k x : Value} {w₁ : World}

theorem OnTop.slot_loaded (h : OnTop t id w) {vs : List Value} (hloaded : World.Loaded t w vs w₁)
    {n : Nat} (hn : n = vs.length + 1) : (w₁.thread t).slot ((w₁.thread t).top - n) = .table id := by
  have hplace := h.place
  have htop := hloaded.raised.top_eq
  rw [show (w₁.thread t).top - n = (w.thread t).top - 1 by omega,
    hloaded.raised.below.slot_eq _ (by omega)]
  exact h.slot_eq

theorem OnTop.base_loaded (h : OnTop t id w) {vs : List Value} (hloaded : World.Loaded t w vs w₁)
    {n : Nat} (hn : n = vs.length + 1) : (w₁.thread t).base + n ≤ (w₁.thread t).top := by
  have hplace := h.place
  have htop := hloaded.raised.top_eq
  rw [hloaded.raised.below.base_eq]
  omega

theorem OnTop.base_le (h : OnTop t id w) {vs : List Value} (hloaded : World.Loaded t w vs w₁) :
    (w₁.thread t).base ≤ (w₁.thread t).top := by
  have hplace := h.base_loaded hloaded rfl
  omega

theorem OnTop.plain_loaded (h : OnTop t id w) {vs : List Value} (hloaded : World.Loaded t w vs w₁) :
    (w₁.heap.tables.get id.index).metatable = none := by
  rw [hloaded.heap_tables]
  exact h.plain

/-- A member is written to a table. -/
def write (w : World) (id : TableId) (k x : Value) : World :=
  w.withTables (w.heap.tables.modify id.index (·.set k x)) w.collector.allocated

theorem loaded_write {vs : List Value} (hloaded : World.Loaded t w vs w₁) (id : TableId)
    (k x : Value) : World.Loaded t (write w id k x) vs (write w₁ id k x) := by
  have hwritten := hloaded.withTables (w.heap.tables.modify id.index (·.set k x))
    w.collector.allocated
  unfold write
  rw [hloaded.heap_tables, hloaded.collector_eq]
  exact hwritten

theorem returns_setInt_loaded (h : OnTop t id w) (hloaded : World.Loaded t w [x] w₁) (i : Int64) :
    exists w', Returns (setInt t (-2) i) w₁ () w' ∧ World.Loaded t (write w id (.int i) x) [] w' := by
  have htable := returns_value_below w₁ t (n := 2) (by decide)
  rw [h.slot_loaded hloaded (n := 2) rfl] at htable
  have hvalue := returns_value_below w₁ t (n := 1) (by decide)
  have htop : (w₁.thread t).top = (w.thread t).top + 1 := hloaded.raised.top_eq
  have hx : (w₁.thread t).slot (w.thread t).top = x := hloaded.raised.slot_eq 0 x rfl
  rw [htop, Nat.add_sub_cancel, hx] at hvalue
  have hassign := returns_assign_plain (h.plain_loaded hloaded) t (k := .int i) ⟨nofun, nofun⟩ x
  have hlive : (write w id (.int i) x).liveThread t = true := h.live
  have hwritten := loaded_write hloaded id (.int i) x
  rcases returns_drop_loaded [] [x] hlive hwritten with ⟨w', hdrop, hdropped⟩
  have hcheck : Returns (checkIndex t (-2)) w₁ () w₁ :=
    returns_checkIndex_below (n := 2) (by decide) (h.base_loaded hloaded rfl)
  refine ⟨w', Returns.bind hcheck (Returns.bind htable (Returns.bind hvalue ?_)), hdropped⟩
  exact Returns.bind hassign hdrop

theorem returns_setTable_loaded (h : OnTop t id w) (hloaded : World.Loaded t w [k, x] w₁)
    (hk : Indexes k) :
    exists w', Returns (setTable t (-3)) w₁ () w' ∧ World.Loaded t (write w id k x) [] w' := by
  have htable := returns_value_below w₁ t (n := 3) (by decide)
  rw [h.slot_loaded hloaded (n := 3) rfl] at htable
  have htop : (w₁.thread t).top = (w.thread t).top + 2 := hloaded.raised.top_eq
  have hkey : (w₁.thread t).slot ((w₁.thread t).top - 2) = k := by
    rw [htop, Nat.add_sub_cancel]
    exact hloaded.raised.slot_eq 0 k rfl
  have hvalue : (w₁.thread t).slot ((w₁.thread t).top - 1) = x := by
    rw [htop]
    exact hloaded.raised.slot_eq 1 x rfl
  have hwrite := returns_writePair htable (h.plain_loaded hloaded) (by rw [hkey]; exact hk)
  rw [hkey, hvalue] at hwrite
  have hcheck : Returns (checkIndex t (-3)) w₁ () w₁ :=
    returns_checkIndex_below (n := 3) (by decide) (h.base_loaded hloaded rfl)
  have hlive : (write w id k x).liveThread t = true := h.live
  have hwritten := loaded_write hloaded id k x
  exact ⟨_, Returns.bind hcheck hwrite, hwritten.drop [] [k, x] hlive⟩

theorem needs_setField_loaded (h : OnTop t id w) (hloaded : World.Loaded t w [x] w₁)
    (name : String) :
    Needs t (setField t (-2) name) w₁ ((w.thread t).top + 2) fun _ w' =>
      World.Loaded t (write w id (.ofText name) x) [] w' := by
  have htop : (w₁.thread t).top = (w.thread t).top + 1 := hloaded.raised.top_eq
  have hvalue : (w₁.thread t).slot ((w₁.thread t).top - 1) = x := by
    rw [htop, Nat.add_sub_cancel]
    exact hloaded.raised.slot_eq 0 x rfl
  have hset := needs_setField (hloaded.live h.live) (h.base_loaded hloaded (n := 2) rfl)
    (h.slot_loaded hloaded (n := 2) rfl) (h.plain_loaded hloaded) name
  rw [hvalue, htop] at hset
  refine hset.imp fun _ w' => ?_
  rintro ⟨th, hth, hlimit, hbelow, rfl⟩
  have hth : th.top = (w.thread t).top := by omega
  have hraised : (w.thread t).Raised [] th := by
    refine ⟨hth, hloaded.raised.below.trans hbelow (by omega), nofun,
      hlimit.trans hloaded.raised.limit_eq, ?_⟩
    rw [hth, hlimit, hloaded.raised.limit_eq]
    exact h.fits
  have hwritten := (loaded_write hloaded id (.ofText name) x).setThread_eq th
  have hlive : (write w id (.ofText name) x).liveThread t = true := h.live
  exact hwritten.symm ▸ World.Loaded.ofRaised hlive hraised

end Writing

/-!
# Needs of the pieces
-/

/-- A table that the machine finds room for, and whose keys it accepts. -/
structure Portable (T : Data.Table) : Prop where
  array_le : T.array.size ≤ maxRoom
  map_le : T.map.length ≤ maxRoom
  keys : forall x v, (TableKey.number x, v) ∈ T.map -> x.value.isNaN = false

theorem needs_createTable (hlive : w.liveThread t = true) {narr nrec : Nat} (hnarr : narr ≤ maxRoom)
    (hnrec : nrec ≤ maxRoom) :
    Needs t (createTable t narr nrec) w ((w.thread t).top + 1) fun _ w' =>
      World.Loaded t (w.withTables (w.heap.tables.push (Table.withRoom narr nrec))
        (w.collector.allocated + 1)) [.table ⟨w.heap.tables.next⟩] w' := by
  have hone := needs_reserve hlive (n := 1) (by decide)
  have hnodes : ¬ nrec > maxNodes := by
    unfold maxNodes
    unfold maxRoom at hnrec
    omega
  have hroom : ¬ ((decide (narr > maxRoom) || decide (nrec > maxRoom)) = true) := by
    rw [decide_eq_false (Nat.not_lt_of_le hnarr), decide_eq_false (Nat.not_lt_of_le hnrec)]
    exact Bool.false_ne_true
  constructor
  · intro hfits
    rcases hone.returns hfits with ⟨_, w₁, hreserve, hloaded⟩
    have hmade := hloaded.withTables (w₁.heap.tables.push (Table.withRoom narr nrec))
      (w₁.collector.allocated + 1)
    have htop := hmade.raised.top_eq
    rcases returns_push_loaded (hmade.live hlive) (.table ⟨w₁.heap.tables.next⟩) (by
      rw [hmade.raised.limit_eq, htop]
      exact hfits) with ⟨w₂, hpush, hpushed⟩
    refine ⟨(), w₂, Returns.bind hreserve ?_, ?_⟩
    · rw [if_neg hnodes, if_neg hroom]
      exact Returns.bind (returns_newTable w₁ _) hpush
    · have hboth := hmade.trans hpushed
      rw [hloaded.heap_tables, hloaded.collector_eq] at hboth
      exact hboth
  · intro hover E a w' h
    rcases ok_bind h with ⟨_, w₁, hreserve, _⟩
    exact hone.stops hover E _ w₁ hreserve

theorem Made.limit_eq {make : M Value} (h : Made t w make w') :
    (w'.thread t).limit = (w.thread t).limit := by
  rcases h with ⟨_, _, _, _, _, hloaded⟩
  exact hloaded.raised.limit_eq

theorem Added.limit_eq {add : M Unit} (h : Added t w id add w') :
    (w'.thread t).limit = (w.thread t).limit := by
  rcases h with ⟨_, _, _, _, hloaded⟩
  exact hloaded.raised.limit_eq

theorem Added.top_eq {add : M Unit} (h : Added t w id add w') :
    (w'.thread t).top = (w.thread t).top := by
  rcases h with ⟨_, _, _, _, hloaded⟩
  exact hloaded.raised.top_eq

theorem added_of_written (h : OnTop t id w) {make : M Value} {k x : Value} {s : Store Table}
    {n : Nat} (hbuilds : Builds make w.heap.tables w.collector.allocated x s n)
    (hextends : w.heap.tables.Extends s)
    (hwritten : World.Loaded t (write (w.withTables s n) id k x) [] w') :
    Added t w id (do let x ← make; modifyTable id (·.set k x)) w' :=
  ⟨_, _, hbuilds.bind (builds_modifyTable id _),
    (kept_of_extends hextends h.known).trans (kept_modify id s k x), hwritten⟩

theorem needs_both {x y : M Unit} {add next : M Unit} {m n : Nat}
    (hx : Needs t x w ((w.thread t).top + m) fun _ => Added t w id add)
    (hy : forall w', Added t w id add w' ->
      Needs t y w' ((w'.thread t).top + n) fun _ => Added t w' id next) :
    Needs t (do x; y) w ((w.thread t).top + max m n) fun _ =>
      Added t w id (do add; next) := by
  refine (hx.bind (fun _ _ hadded => hadded.limit_eq) (n := (w.thread t).top + n) ?_).of_eq (by omega)
  intro _ w' hadded
  have hrest := hy w' hadded
  rw [hadded.top_eq] at hrest
  exact hrest.imp fun _ _ hmore => hadded.bind hmore

theorem needs_scalar (hlive : w.liveThread t = true) {make : M Value} {x : Value}
    (hmake : make = pure x) :
    Needs t (pushNew t x) w ((w.thread t).top + 1) fun _ => Made t w make := by
  refine (needs_pushNew hlive x).imp fun _ w' hloaded => ?_
  rw [hmake]
  exact ⟨x, w.heap.tables, w.collector.allocated, Builds.pure x, Store.Extends.refl _, hloaded⟩

/-- A value that needs `n` slots is pushed and written under an integer. -/
theorem needs_addAt (h : OnTop t id w) {push : M Unit} {make : M Value} {n : Nat}
    (hpush : Needs t push w ((w.thread t).top + n) fun _ => Made t w make) (i : Int64) :
    Needs t (do push; setInt t (-2) i) w ((w.thread t).top + n) fun _ =>
      Added t w id (do let x ← make; modifyTable id (·.set (.int i) x)) := by
  refine (hpush.bind (fun _ _ hmade => hmade.limit_eq) (n := (w.thread t).top) ?_).of_eq (by omega)
  rintro _ w₁ ⟨x, s, m, hbuilds, hextends, hloaded⟩
  rcases returns_setInt_loaded (h.withTables (kept_of_extends hextends h.known) m) hloaded i with
    ⟨w₂, hset, hwritten⟩
  have hfits : (w.thread t).top ≤ (w₁.thread t).limit := by
    rw [hloaded.raised.limit_eq]
    exact h.fits
  exact needs_of_returns hset hfits (added_of_written h hbuilds hextends hwritten)

theorem needs_addNamed (h : OnTop t id w) {push : M Unit} {make : M Value} {n : Nat}
    (hpush : Needs t push w ((w.thread t).top + n) fun _ => Made t w make) (name : String) :
    Needs t (do push; setField t (-2) name) w ((w.thread t).top + max 2 n) fun _ =>
      Added t w id (do let x ← make; modifyTable id (·.set (.ofText name) x)) := by
  refine (hpush.bind (fun _ _ hmade => hmade.limit_eq) (n := (w.thread t).top + 2) ?_).of_eq
    (by omega)
  rintro _ w₁ ⟨x, s, m, hbuilds, hextends, hloaded⟩
  have honTop := h.withTables (kept_of_extends hextends h.known) m
  exact (needs_setField_loaded honTop hloaded name).imp fun _ _ hwritten =>
    added_of_written h hbuilds hextends hwritten

theorem needs_addKeyed (h : OnTop t id w) {k : Value} (hk : Indexes k) {push : M Unit}
    {make : M Value} {n : Nat}
    (hpush : forall w₁, World.Loaded t w [k] w₁ ->
      Needs t push w₁ ((w₁.thread t).top + n) fun _ => Made t w₁ make) :
    Needs t (do pushNew t k; push; setTable t (-3)) w ((w.thread t).top + (1 + n)) fun _ =>
      Added t w id (do let x ← make; modifyTable id (·.set k x)) := by
  refine ((needs_pushNew h.live k).bind (fun _ _ hloaded => hloaded.raised.limit_eq)
    (n := (w.thread t).top + 1 + n) ?_).of_eq (by omega)
  intro _ w₁ hkey
  have htop : (w₁.thread t).top = (w.thread t).top + 1 := hkey.raised.top_eq
  have hmember := hpush w₁ hkey
  rw [htop] at hmember
  refine (hmember.bind (fun _ _ hmade => hmade.limit_eq) (n := (w.thread t).top) ?_).of_eq (by omega)
  rintro _ w₂ ⟨x, s, m, hbuilds, hextends, hloaded⟩
  rw [hkey.heap_tables, hkey.collector_eq] at hbuilds
  rw [hkey.heap_tables] at hextends
  have hboth : World.Loaded t (w.withTables s m) [k, x] w₂ := (hkey.withTables s m).trans hloaded
  rcases returns_setTable_loaded (h.withTables (kept_of_extends hextends h.known) m) hboth hk with
    ⟨w₃, hset, hwritten⟩
  have hfits : (w.thread t).top ≤ (w₂.thread t).limit := by
    rw [hboth.raised.limit_eq]
    exact h.fits
  exact needs_of_returns hset hfits (added_of_written h hbuilds hextends hwritten)

theorem onTop_created (hlive : w.liveThread t = true) (hbase : (w.thread t).base ≤ (w.thread t).top)
    {narr nrec : Nat} (h : World.Loaded t (w.withTables
      (w.heap.tables.push (Table.withRoom narr nrec)) (w.collector.allocated + 1))
      [.table ⟨w.heap.tables.next⟩] w') : OnTop t ⟨w.heap.tables.next⟩ w' := by
  have htop : (w'.thread t).top = (w.thread t).top + 1 := h.raised.top_eq
  have hstart : (w'.thread t).base = (w.thread t).base := h.raised.below.base_eq
  constructor
  case live => exact h.live hlive
  case place => omega
  case slot_eq =>
    rw [htop, Nat.add_sub_cancel]
    exact h.raised.slot_eq 0 _ rfl
  case known =>
    rw [h.heap_tables]
    exact Nat.lt_of_lt_of_eq (Nat.lt_succ_self _) (Array.size_push _).symm
  case plain =>
    rw [h.heap_tables]
    show ((w.heap.tables.push _).get w.heap.tables.next).metatable = none
    rw [Store.get_of_find? (by rw [Store.find?_push, if_pos rfl])]
    rfl
  case fits => exact h.raised.fits

theorem made_of_filled {a : Array Data.Value} {m : List (TableKey × Data.Value)} {w₁ : World}
    (h : World.Loaded t (w.withTables
      (w.heap.tables.push (Table.withRoom a.size m.length)) (w.collector.allocated + 1))
      [.table ⟨w.heap.tables.next⟩] w₁)
    (hfilled : Added t w₁ ⟨w.heap.tables.next⟩ (do
      fillArray ⟨w.heap.tables.next⟩ a
      fillEntries ⟨w.heap.tables.next⟩ m) w') :
    Made t w (ofHost (.table (.mk a m))) w' := by
  rcases hfilled with ⟨s, n, hbuilds, hkept, hloaded⟩
  rw [h.heap_tables, h.collector_eq] at hbuilds
  rw [h.heap_tables] at hkept
  have hkept : Kept ⟨w.heap.tables.next⟩
    (w.heap.tables.push (Table.withRoom a.size m.length)) s := hkept
  have hnext : (w.heap.tables.push (Table.withRoom a.size m.length)).next =
      w.heap.tables.next + 1 := Array.size_push _
  have hsize := hkept.next_le
  have hfill := hbuilds.bind (f := fun _ => pure (Value.table ⟨w.heap.tables.next⟩)) (Builds.pure _)
  refine ⟨.table ⟨w.heap.tables.next⟩, s, n, ?_, ?_, (h.withTables s n).trans hloaded⟩
  · rw [ofHost, ofHostTable]
    simp only [bind_assoc, pure_bind] at hfill ⊢
    exact (builds_newTable _).bind hfill
  · refine ⟨by omega, fun j hj => ?_⟩
    rw [hkept.find?_eq j (by omega) (Nat.ne_of_lt hj), Store.find?_push, if_neg (Nat.ne_of_lt hj)]

theorem indexes_float {x : Double} (hx : x.isNaN = false) : Indexes (.float x) :=
  ⟨nofun, fun y hy => by
    cases hy
    exact hx⟩

theorem slots_pos (v : Data.Value) : 0 < v.slots := by
  cases v with
  | table T =>
      cases T with
      | mk a m =>
          rw [Data.Value.slots, Data.Table.slots]
          omega
  | _ => exact Nat.one_pos

mutual

theorem needs_pushValue {w : World} (v : Data.Value)
    (hv : forall T, v = .table T -> T.Every Portable) (hlive : w.liveThread t = true)
    (hbase : (w.thread t).base ≤ (w.thread t).top) :
    Needs t (pushValue t v) w ((w.thread t).top + v.slots) fun _ => Made t w (ofHost v) := by
  cases v with
  | nil =>
      rw [pushValue]
      exact needs_scalar hlive (by rw [ofHost])
  | bool b =>
      rw [pushValue]
      exact needs_scalar hlive (by rw [ofHost])
  | number n =>
      cases n with
      | int i =>
          rw [pushValue]
          exact needs_scalar hlive (by rw [ofHost])
      | float x =>
          rw [pushValue]
          exact needs_scalar hlive (by rw [ofHost])
  | string s =>
      rw [pushValue]
      exact needs_scalar hlive (by rw [ofHost])
  | light p =>
      rw [pushValue]
      exact needs_scalar hlive (by rw [ofHost])
  | table T =>
      rw [pushValue, Data.Value.slots]
      exact needs_pushTable T (hv T rfl) hlive hbase

theorem needs_pushTable {w : World} (T : Data.Table) (hT : T.Every Portable)
    (hlive : w.liveThread t = true) (hbase : (w.thread t).base ≤ (w.thread t).top) :
    Needs t (pushTable t T) w ((w.thread t).top + T.slots) fun _ =>
      Made t w (ofHost (.table T)) := by
  cases T with
  | mk a m =>
      cases hT with
      | intro hportable harray hmap =>
          rw [pushTable]
          have hcreate := needs_createTable hlive hportable.array_le hportable.map_le
          refine (hcreate.bind (fun _ _ hloaded => hloaded.raised.limit_eq)
            (n := (w.thread t).top + 1 + max (Data.arraySlots a) (Data.entriesSlots m)) ?_).of_eq ?_
          · rintro _ w₁ hloaded
            have honTop := onTop_created hlive hbase hloaded
            have hfill := needs_both (needs_addArray a harray honTop) fun w₂ hadded =>
              needs_addEntries m (fun k v hmem => hmap k v hmem) hportable.keys (honTop.added hadded)
            rw [show (w₁.thread t).top = (w.thread t).top + 1 from hloaded.raised.top_eq] at hfill
            exact hfill.imp fun _ w' hadded => made_of_filled hloaded hadded
          · rw [Data.Table.slots]
            omega

theorem needs_addArray {w : World} {id : TableId} (a : Array Data.Value)
    (ha : forall T, .table T ∈ a -> T.Every Portable) (h : OnTop t id w) :
    Needs t (addArray t a) w ((w.thread t).top + Data.arraySlots a) fun _ =>
      Added t w id (fillArray id a) := by
  cases a with
  | mk vs =>
      rw [addArray, Data.arraySlots, fillArray]
      exact needs_addValues 1 vs (fun T hT => ha T (Array.mem_def.mpr hT)) h

theorem needs_addValues {w : World} {id : TableId} (i : Nat) (vs : List Data.Value)
    (hvs : forall T, .table T ∈ vs -> T.Every Portable) (h : OnTop t id w) :
    Needs t (addValues t i vs) w ((w.thread t).top + Data.valuesSlots vs) fun _ =>
      Added t w id (fillValues id i vs) := by
  cases vs with
  | nil =>
      rw [addValues, fillValues]
      exact needs_of_returns (Returns.pure () w) h.fits
        ⟨_, _, Builds.pure (), Kept.refl _ _, World.Loaded.nil h.fits⟩
  | cons v vs =>
      rw [addValues, fillValues]
      have hpush := needs_pushValue v (fun T hT => hvs T (hT ▸ List.mem_cons_self ..)) h.live
        (Nat.le_of_lt h.place)
      have hboth := needs_both (needs_addAt h hpush (Int64.ofNat i)) fun w₁ hadded =>
        needs_addValues (i + 1) vs (fun T hT => hvs T (List.mem_cons_of_mem _ hT)) (h.added hadded)
      rw [bind_assoc, bind_assoc] at hboth
      refine hboth.of_eq ?_
      rw [Data.valuesSlots]

theorem needs_addEntries {w : World} {id : TableId} (es : List (TableKey × Data.Value))
    (hes : forall k T, (k, .table T) ∈ es -> T.Every Portable)
    (hkeys : forall x v, (TableKey.number x, v) ∈ es -> x.value.isNaN = false) (h : OnTop t id w) :
    Needs t (addEntries t es) w ((w.thread t).top + Data.entriesSlots es) fun _ =>
      Added t w id (fillEntries id es) := by
  cases es with
  | nil =>
      rw [addEntries, fillEntries]
      exact needs_of_returns (Returns.pure () w) h.fits
        ⟨_, _, Builds.pure (), Kept.refl _ _, World.Loaded.nil h.fits⟩
  | cons e es =>
      rw [addEntries, fillEntries, Data.entriesSlots]
      have hentry := needs_addEntry e (fun T hT => hes e.1 T (hT ▸ List.mem_cons_self ..))
        (fun x hx => hkeys x e.2 (hx ▸ List.mem_cons_self ..)) h
      exact needs_both hentry fun w₁ hadded =>
        needs_addEntries es (fun k T hT => hes k T (List.mem_cons_of_mem _ hT))
          (fun x v hv => hkeys x v (List.mem_cons_of_mem _ hv)) (h.added hadded)

theorem needs_addEntry {w : World} {id : TableId} (e : TableKey × Data.Value)
    (he : forall T, e.2 = .table T -> T.Every Portable)
    (hkey : forall x, e.1 = .number x -> x.value.isNaN = false) (h : OnTop t id w) :
    Needs t (addEntry t e) w ((w.thread t).top + Data.entrySlots e) fun _ =>
      Added t w id (fillEntry id e) := by
  cases e with
  | mk k v =>
      have hpush := needs_pushValue v he h.live (Nat.le_of_lt h.place)
      have habove := fun (k : Value) (w₁ : World) (hloaded : World.Loaded t w [k] w₁) =>
        needs_pushValue v he (hloaded.live h.live) (h.base_le hloaded)
      cases k with
      | string s =>
          rw [addEntry, Data.entrySlots, fillEntry]
          exact needs_addNamed h hpush s
      | integer i =>
          rw [addEntry, Data.entrySlots, fillEntry]
          exact needs_addAt h hpush i
      | bool b =>
          rw [addEntry, Data.entrySlots, fillEntry]
          exact needs_addKeyed (k := .bool b) h ⟨nofun, nofun⟩ (habove _)
      | number x =>
          rw [addEntry, Data.entrySlots, fillEntry]
          exact needs_addKeyed (k := .float x.value) h (indexes_float (hkey x rfl)) (habove _)

end

/-!
# The pieces and the whole
-/

theorem needs_pushHost {v : Data.Value} (hv : forall T, v = .table T -> T.Every Portable)
    (hlive : w.liveThread t = true) (hbase : (w.thread t).base ≤ (w.thread t).top) :
    Needs t (pushHost t v) w ((w.thread t).top + v.slots) fun _ => Made t w (ofHost v) := by
  have hpieces := needs_pushValue v hv hlive hbase
  have hroom := needs_needRoom hlive (slots_pos v)
  constructor
  · intro hfits
    rcases hpieces.returns hfits with ⟨_, _, _, x, s, n, hbuilds, hextends, _⟩
    rcases hroom.returns hfits with ⟨_, w₁, hneed, hloaded⟩
    have hmade := hbuilds w₁ hloaded.heap_tables (by rw [hloaded.collector_eq])
    have htables := hloaded.withTables s n
    have htop : ((w₁.withTables s n).thread t).top = (w.thread t).top := htables.raised.top_eq
    have hlimit : ((w₁.withTables s n).thread t).limit = (w.thread t).limit :=
      htables.raised.limit_eq
    have hslots := slots_pos v
    rcases returns_push_loaded (htables.live hlive) x (by rw [htop, hlimit]; omega) with
      ⟨w₂, hpush, hpushed⟩
    exact ⟨(), w₂, Returns.bind hneed (Returns.bind hmade hpush), x, s, n, hbuilds, hextends,
      htables.trans hpushed⟩
  · intro hover E a w' h
    rcases ok_bind h with ⟨_, w₁, hneed, _⟩
    exact hroom.stops hover E _ w₁ hneed

/-- Two stacks on which the same was made hold the same value above the same values. -/
theorem Made.agree {make : M Value} {w₁ w₂ : World} (h₁ : Made t w make w₁)
    (h₂ : Made t w make w₂) :
    exists x s n, World.Loaded t (w.withTables s n) [x] w₁ ∧ World.Loaded t (w.withTables s n) [x] w₂ := by
  rcases h₁ with ⟨x, s, n, hbuilds, _, hloaded⟩
  rcases h₂ with ⟨x', s', n', hbuilds', _, hloaded'⟩
  rcases (hbuilds w rfl rfl).unique (hbuilds' w rfl rfl) with ⟨rfl, hworld⟩
  rw [← hworld] at hloaded'
  exact ⟨x, s, n, hloaded, hloaded'⟩

/-- Piece by piece and at once a host value is pushed in the same cases, and leaves the
same value, above the same values and with the same tables. -/
theorem pushValue_pushHost {v : Data.Value} (hv : forall T, v = .table T -> T.Every Portable)
    (hlive : w.liveThread t = true) (hbase : (w.thread t).base ≤ (w.thread t).top) :
    (exists w₁ w₂ x s n, Returns (pushValue t v) w () w₁ ∧ Returns (pushHost t v) w () w₂ ∧
      World.Loaded t (w.withTables s n) [x] w₁ ∧ World.Loaded t (w.withTables s n) [x] w₂) ∨
    forall E a w', pushValue t v E w ≠ .ok a w' ∧ pushHost t v E w ≠ .ok a w' := by
  have hpieces := needs_pushValue v hv hlive hbase
  have hwhole := needs_pushHost hv hlive hbase
  by_cases hfits : (w.thread t).top + v.slots ≤ (w.thread t).limit
  · rcases hpieces.returns hfits with ⟨_, w₁, hrun₁, hmade₁⟩
    rcases hwhole.returns hfits with ⟨_, w₂, hrun₂, hmade₂⟩
    rcases hmade₁.agree hmade₂ with ⟨x, s, n, hloaded₁, hloaded₂⟩
    exact Or.inl ⟨w₁, w₂, x, s, n, hrun₁, hrun₂, hloaded₁, hloaded₂⟩
  · have hover := Nat.lt_of_not_le hfits
    exact Or.inr fun E a w' => ⟨hpieces.stops hover E a w', hwhole.stops hover E a w'⟩

end Assembling

end LuaHost
