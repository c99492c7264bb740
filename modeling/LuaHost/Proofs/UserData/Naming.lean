import Mathlib.Logic.Relation
import LuaHost.Proofs.Interface.Resolving
import LuaHost.Proofs.UserData.Lifetimes

/-!
# Metatables under their names

A metatable of a name is made when the name is first asked for, and found under
that name from then on.  The registry knows a name as far as its first NUL: in a
run, two names have the same table when they are the same so far.
-/

namespace LuaHost

/-!
# Names
-/

/-- A name without a NUL. -/
def Interface.NulFree (name : String) : Prop :=
  forall i, i < name.toUTF8.size -> Bytes.byteAt name.toUTF8 i ≠ 0

namespace Naming

open Interface Machine World

/-!
# Runs
-/

/-- A call for the metatable of a name: whether it made one, and what it pushed. -/
structure Call where
  name : String
  new : Bool
  pushed : Value

/-- A machine, with the calls for metatables of names so far, the latest first. -/
structure State where
  world : World
  calls : List Call := []

/-- What else may happen: the registry stays, with what it holds under the names and
the tables among that. -/
structure Elsewhere (names : Bytes → Prop) (w w' : World) : Prop where
  registry_eq : w'.registry = w.registry
  live : w.registryLive = true -> w'.registryLive = true
  named_eq : w.registryLive = true -> forall n, names n ->
    w'.registryTable.get (.str n) = w.registryTable.get (.str n)
  kept : w.registryLive = true -> forall n m, names n ->
    w.registryTable.get (.str n) = .table m -> w.heap.tables.live m.index = true ->
    w'.heap.tables.live m.index = true

variable {names : Bytes → Prop}

/-- What does not look at tables is elsewhere, and so are parts that are. -/
instance : Lax (Elsewhere names) where
  of_aside h := by
    have hspared := spared_of_tables h.registry_eq h.tables_eq
    refine ⟨h.registry_eq, hspared.live, fun _ n _ => ?_, fun _ n m _ _ hlive => ?_⟩
    · unfold registryTable
      rw [h.registry_eq, h.tables_eq]
    · rw [h.tables_eq]
      exact hlive
  trans h h' := by
    refine ⟨h'.registry_eq.trans h.registry_eq, fun hlive => h'.live (h.live hlive), ?_, ?_⟩
    · exact fun hlive n hn => (h'.named_eq (h.live hlive) n hn).trans (h.named_eq hlive n hn)
    · intro hlive n m hn hget hm
      have hget' := (h.named_eq hlive n hn).trans hget
      exact h'.kept (h.live hlive) n m hn hget' (h.kept hlive n m hn hget hm)

/-- A cycle of the collector leaves a registry without handlers as it is, with the
tables in it. -/
theorem elsewhere_of_collected {w w' : World} {t : ThreadId} (h : Collected t w w')
    (hplain : w.registryTable.metatable = none) : Elsewhere names w w' := by
  have htable : w.registryLive = true ->
      w'.registryLive = true ∧ w'.registryTable = w.registryTable := by
    intro hlive
    have hshared := Lifetimes.collected_shared h hlive hplain
    exact ⟨hshared.1, hshared.2.1⟩
  refine ⟨h.registry_eq, fun hlive => (htable hlive).1, fun hlive n _ => ?_,
    fun _ n m _ hget hm => ?_⟩
  · rw [(htable hlive).2]
  · have hreached := Lifetimes.reachable_registry (t := t) hplain hget rfl
    rcases h.table m _ hreached (Store.find?_of_live hm) with ⟨T, hT, _⟩
    exact Store.live_of_find? hT

/-- One step of a run.  The names are those that the registry holds nothing under but
their metatables. -/
inductive Step (names : Bytes → Prop) : State → State → Prop where
  | call {s : State} {t : ThreadId} {name : String} {new : Bool} {E : Engine} {w : World} :
      s.world.liveThread t = true -> names (cutName name) ->
      newMetatable t name E s.world = .ok new w ->
      Step names s ⟨w, ⟨name, new, (w.thread t).slot (s.world.thread t).top⟩ :: s.calls⟩
  | other {s : State} {w : World} : Elsewhere names s.world w -> Step names s { s with world := w }

/-- A computation that keeps what a run counts on is a step of it, however it ends. -/
theorem step_of_keeps {α : Type} {x : M α} (h : Keeps (Elsewhere names) x) {s : State} {E : Engine}
    {w : World} (hleads : Leads x E s.world w) : Step names s { s with world := w } :=
  .other (h.leads hleads)

abbrev Run (names : Bytes → Prop) : State → State → Prop := Relation.ReflTransGen (Step names)

/-- The registry holds nothing under the names yet. -/
structure Unused (names : Bytes → Prop) (w : World) : Prop where
  live : w.registryLive = true
  unused : forall n, names n -> w.registryTable.get (.str n) = .nil

/-- A call for the name, as far as it counts, has pushed the value. -/
def State.Names (s : State) (n : Bytes) (v : Value) : Prop :=
  exists c, c ∈ s.calls ∧ cutName c.name = n ∧ c.pushed = v

/-!
# What a run keeps
-/

/-- Each name that was asked for has its table in the registry, and no other name that
one. -/
structure Kept (names : Bytes → Prop) (s : State) : Prop where
  live : s.world.registryLive = true
  known : forall c, c ∈ s.calls -> names (cutName c.name)
  held : forall n v, s.Names n v -> exists m, v = .table m ∧
    s.world.registryTable.get (.str n) = .table m ∧ s.world.heap.tables.live m.index = true
  unheld : forall n, names n -> (forall v, ¬ s.Names n v) ->
    s.world.registryTable.get (.str n) = .nil
  apart : forall n n' v, s.Names n v -> s.Names n' v -> n = n'
  made : forall n v, s.Names n v -> exists c, c ∈ s.calls ∧ c.new = true ∧ cutName c.name = n

theorem not_names_start (w : World) (n : Bytes) (v : Value) : ¬ State.Names ⟨w, []⟩ n v := by
  rintro ⟨c, hc, _⟩
  cases hc

theorem Kept.start {w : World} (h : Unused names w) : Kept names ⟨w, []⟩ := by
  have hnone := not_names_start w
  refine ⟨h.live, nofun, fun n v hnv => ?_, fun n hn _ => h.unused n hn, fun n _ v hnv => ?_,
    fun n v hnv => ?_⟩ <;> exact absurd hnv (hnone n v)

theorem Kept.other {s : State} {w : World} (h : Kept names s) (hw : Elsewhere names s.world w) :
    Kept names { s with world := w } := by
  have hsame : forall n, names n -> w.registryTable.get (.str n) =
      s.world.registryTable.get (.str n) := hw.named_eq h.live
  refine ⟨hw.live h.live, h.known, fun n v hnv => ?_, fun n hn hnone => ?_, h.apart, h.made⟩
  · rcases h.held n v hnv with ⟨m, rfl, hget, hlive⟩
    rcases hnv with ⟨c, hc, rfl, _⟩
    have hknown := h.known c hc
    exact ⟨m, rfl, (hsame _ hknown).trans hget, hw.kept h.live _ m hknown hget hlive⟩
  · exact (hsame n hn).trans (h.unheld n hn hnone)

/-!
# One call
-/

theorem names_cons {s : State} {w : World} {c : Call} {n : Bytes} {v : Value} :
    State.Names ⟨w, c :: s.calls⟩ n v ↔ (cutName c.name = n ∧ c.pushed = v) ∨ s.Names n v := by
  unfold State.Names
  constructor
  · rintro ⟨c', hc', hname⟩
    rcases List.mem_cons.mp hc' with rfl | hold
    · exact Or.inl hname
    · exact Or.inr ⟨c', hold, hname⟩
  · rintro (hname | ⟨c', hc', hname⟩)
    · exact ⟨c, List.mem_cons_self .., hname⟩
    · exact ⟨c', List.mem_cons_of_mem _ hc', hname⟩

theorem Kept.names_unique {s : State} (h : Kept names s) {n : Bytes} {v v' : Value}
    (hv : s.Names n v) (hv' : s.Names n v') : v = v' := by
  rcases h.held n v hv with ⟨m, rfl, hget, _⟩
  rcases h.held n v' hv' with ⟨m', rfl, hget', _⟩
  exact hget.symm.trans hget'

theorem Kept.call_old {s : State} (h : Kept names s) {w : World} {name : String} {v : Value}
    (hregistry : w.registry = s.world.registry) (htables : w.heap.tables = s.world.heap.tables)
    (hv : s.Names (cutName name) v) : Kept names ⟨w, ⟨name, false, v⟩ :: s.calls⟩ := by
  have htable : w.registryTable = s.world.registryTable := by
    unfold registryTable
    rw [hregistry, htables]
  have hsame : forall n x, State.Names ⟨w, ⟨name, false, v⟩ :: s.calls⟩ n x -> s.Names n x := by
    intro n x hnx
    rcases names_cons.mp hnx with ⟨rfl, rfl⟩ | hold
    · exact hv
    · exact hold
  constructor
  case live =>
    unfold registryLive
    rw [hregistry, htables]
    exact h.live
  case known =>
    intro c hc
    rcases List.mem_cons.mp hc with rfl | hold
    · rcases hv with ⟨c, hc, hname, _⟩
      exact hname ▸ h.known c hc
    · exact h.known c hold
  case held =>
    intro n x hnx
    show exists m, _ ∧ w.registryTable.get _ = _ ∧ w.heap.tables.live _ = _
    rw [htable, htables]
    exact h.held n x (hsame n x hnx)
  case unheld =>
    intro n hn hnone
    show w.registryTable.get _ = _
    rw [htable]
    exact h.unheld n hn fun x hnx => hnone x (names_cons.mpr (Or.inr hnx))
  case apart => exact fun n n' x hnx hnx' => h.apart n n' x (hsame n x hnx) (hsame n' x hnx')
  case made =>
    intro n x hnx
    rcases h.made n x (hsame n x hnx) with ⟨c, hc, hnew⟩
    exact ⟨c, List.mem_cons_of_mem _ hc, hnew⟩

/-- A world with a new table under a name in the registry. -/
structure Named (w : World) (n : Bytes) (m : TableId) (w' : World) : Prop where
  live : w'.registryLive = true
  get_eq : forall n', w'.registryTable.get (.str n') =
    if n = n' then .table m else w.registryTable.get (.str n')
  kept : forall i, w.heap.tables.live i = true -> w'.heap.tables.live i = true
  new_live : w'.heap.tables.live m.index = true
  fresh : w.heap.tables.live m.index = false

/-- A call for a name that was not asked for makes a table that no other name has. -/
theorem Kept.call_new {s : State} (h : Kept names s) {w : World} {name : String} {m : TableId}
    (hname : names (cutName name)) (hnone : forall v, ¬ s.Names (cutName name) v)
    (hw : Named s.world (cutName name) m w) :
    Kept names ⟨w, ⟨name, true, .table m⟩ :: s.calls⟩ := by
  have hget : forall {n x}, s.Names n x -> w.registryTable.get (.str n) =
      s.world.registryTable.get (.str n) := by
    intro n x hnx
    rw [hw.get_eq, if_neg]
    rintro rfl
    exact hnone x hnx
  have hother : forall n, ¬ s.Names n (.table m) := by
    intro n hnx
    rcases h.held n _ hnx with ⟨m', heq, _, hlive⟩
    cases heq
    rw [hw.fresh] at hlive
    cases hlive
  constructor
  case live => exact hw.live
  case known =>
    intro c hc
    rcases List.mem_cons.mp hc with rfl | hold
    · exact hname
    · exact h.known c hold
  case held =>
    intro n x hnx
    rcases names_cons.mp hnx with ⟨rfl, rfl⟩ | hold
    · exact ⟨m, rfl, (hw.get_eq _).trans (if_pos rfl), hw.new_live⟩
    · rcases h.held n x hold with ⟨m', rfl, hheld, hlive⟩
      exact ⟨m', rfl, (hget hold).trans hheld, hw.kept _ hlive⟩
  case unheld =>
    intro n hn hnone'
    have hne : cutName name ≠ n := by
      intro heq
      exact hnone' (.table m) (names_cons.mpr (Or.inl ⟨heq, rfl⟩))
    show w.registryTable.get _ = _
    rw [hw.get_eq, if_neg hne]
    exact h.unheld n hn fun x hnx => hnone' x (names_cons.mpr (Or.inr hnx))
  case apart =>
    intro n n' x hnx hnx'
    rcases names_cons.mp hnx with ⟨hn, rfl⟩ | hold
    · rcases names_cons.mp hnx' with ⟨hn', _⟩ | hold'
      · exact hn.symm.trans hn'
      · exact absurd hold' (hother n')
    · rcases names_cons.mp hnx' with ⟨_, rfl⟩ | hold'
      · exact absurd hold (hother n)
      · exact h.apart n n' x hold hold'
  case made =>
    intro n x hnx
    rcases names_cons.mp hnx with ⟨hn, _⟩ | hold
    · exact ⟨_, List.mem_cons_self .., rfl, hn⟩
    · rcases h.made n x hold with ⟨c, hc, hnew⟩
      exact ⟨c, List.mem_cons_of_mem _ hc, hnew⟩

theorem named_new {w : World} (hlive : w.registryLive = true) (n : Bytes) (T : Table)
    (t : ThreadId) (th : Thread) (allocated : Nat) :
    Named w n ⟨w.heap.tables.next⟩
      ((w.withTables (enlisted w n T) allocated).setThread t th) := by
  have hregistry := find?_enlisted_registry hlive n T
  constructor
  case live => exact Store.live_of_find? hregistry
  case get_eq =>
    intro n'
    have hset : (w.registryTable.set (.str n) (.table ⟨w.heap.tables.next⟩)).get (.str n') =
        if Value.str n = .str n' then .table ⟨w.heap.tables.next⟩
        else w.registryTable.get (.str n') := Table.find_set _ _ _ _
    show ((enlisted w n T).get w.registry.index).get _ = _
    rw [Store.get_of_find? hregistry]
    refine hset.trans ?_
    by_cases hn : n = n'
    · rw [if_pos (congrArg Value.str hn), if_pos hn]
    · rw [if_neg hn, if_neg]
      intro heq
      cases heq
      exact hn rfl
  case kept =>
    intro i hi
    exact (Store.live_modify _ _ _ _).trans (Store.live_push hi T)
  case new_live => exact Store.live_of_find? (find?_enlisted_new hlive n T)
  case fresh =>
    cases hnew : w.heap.tables.live w.heap.tables.next with
    | false => rfl
    | true => exact absurd (Store.lt_next_of_live hnew) (Nat.lt_irrefl _)

/-- What a call answers and pushes. -/
structure Answers (s : State) (t : ThreadId) (name : String) (new : Bool) (m : TableId)
    (w : World) : Prop where
  topped : (s.world.thread t).Topped (.table m) (w.thread t)
  new_iff : new = true ↔ forall v, ¬ s.Names (cutName name) v
  same_iff : forall n v, s.Names n v -> (v = .table m ↔ n = cutName name)

theorem Kept.call {s : State} (h : Kept names s) {t : ThreadId} {name : String} {new : Bool}
    {E : Engine} {w : World} (hlive : s.world.liveThread t = true) (hname : names (cutName name))
    (hcall : newMetatable t name E s.world = .ok new w) :
    exists m, Answers s t name new m w ∧
      Kept names ⟨w, ⟨name, new, .table m⟩ :: s.calls⟩ := by
  rcases ok_newMetatable hlive hcall with ⟨hnil, rfl, th, htopped, rfl⟩ | ⟨hnil, rfl, th, htopped, rfl⟩
  · -- what the registry has under the name was put there by an earlier call
    have hnames : exists v, s.Names (cutName name) v := by
      by_contra hnone
      have hget := h.unheld _ hname fun v hv => hnone ⟨v, hv⟩
      unfold registryTable at hget
      rw [hget] at hnil
      cases hnil
    rcases hnames with ⟨v, hv⟩
    rcases h.held _ v hv with ⟨m, rfl, hget, _⟩
    unfold registryTable at hget
    rw [hget] at htopped
    refine ⟨m, ⟨?_, ?_, ?_⟩, h.call_old rfl rfl hv⟩
    · rw [thread_setThread hlive]
      exact htopped
    · exact ⟨nofun, fun hnone => absurd hv (hnone _)⟩
    · intro n x hnx
      constructor
      · rintro rfl
        exact h.apart _ _ _ hnx hv
      · rintro rfl
        exact h.names_unique hnx hv
  · have hnone : forall v, ¬ s.Names (cutName name) v := by
      intro v hv
      rcases h.held _ v hv with ⟨m, _, hget, _⟩
      unfold registryTable at hget
      rw [hget] at hnil
      cases hnil
    have hnamed := named_new h.live (cutName name) (namedTable (cutName name)) t th
      (s.world.collector.allocated + 1)
    refine ⟨_, ⟨?_, ?_, ?_⟩, h.call_new hname hnone hnamed⟩
    · have hthread : forall S k, ((s.world.withTables S k).setThread t th).thread t = th :=
        fun _ _ => thread_setThread hlive th
      rw [hthread]
      exact htopped
    · exact ⟨fun _ => hnone, fun _ => rfl⟩
    · intro n x hnx
      constructor
      · rintro rfl
        rcases h.held n _ hnx with ⟨m, heq, _, hheld⟩
        cases heq
        rw [hnamed.fresh] at hheld
        cases hheld
      · rintro rfl
        exact absurd hnx (hnone x)

theorem Kept.step {s s' : State} (h : Kept names s) (hstep : Step names s s') : Kept names s' := by
  cases hstep with
  | call hlive hname hcall =>
      rcases h.call hlive hname hcall with ⟨m, hanswers, hkept⟩
      rw [hanswers.topped.slot_top]
      exact hkept
  | other hw => exact h.other hw

theorem Kept.run {s s' : State} (h : Kept names s) (hrun : Run names s s') : Kept names s' := by
  induction hrun with
  | refl => exact h
  | tail _ hstep ih => exact ih.step hstep

end Naming

namespace Machine

end Machine

namespace Interface

open Machine World

variable {w : World} {t : ThreadId} {idx : Int}

end Interface

namespace Naming

open Interface Machine World

variable {names : Bytes → Prop}

/-!
# Named metatables
-/

/-- The value is a userdata with the table that calls for the name have pushed. -/
def HasNamed (s : State) (n : Bytes) (v : Value) : Prop :=
  exists u m, v = .userdata u ∧ (s.world.userdata u).metatable = some m ∧ s.Names n (.table m)

/-- What the next operation on a name does in a state of a run. -/
structure Faithful (names : Bytes → Prop) (s : State) : Prop where
  call : forall t name, s.world.liveThread t = true -> names (cutName name) ->
    Needs t (newMetatable t name) s.world ((s.world.thread t).top + 2) fun new w' =>
      exists m, (s.world.thread t).Topped (.table m) (w'.thread t) ∧
        (new = true ↔ ¬ exists c, c ∈ s.calls ∧ c.new = true ∧ cutName c.name = cutName name) ∧
        forall c, c ∈ s.calls -> (c.pushed = .table m ↔ cutName c.name = cutName name)
  get : forall t name v, s.world.liveThread t = true ->
    (s.world.thread t).base ≤ (s.world.thread t).top -> NulFree name ->
    s.Names (cutName name) v ->
    Needs t (getNamedMetatable t name) s.world ((s.world.thread t).top + 1) fun k w' =>
      k = .table ∧ Loaded t s.world [v] w'
  get_none : forall t name, s.world.liveThread t = true ->
    (s.world.thread t).base ≤ (s.world.thread t).top -> NulFree name -> names (cutName name) ->
    (forall v, ¬ s.Names (cutName name) v) -> s.world.registryTable.metatable = none ->
    Needs t (getNamedMetatable t name) s.world ((s.world.thread t).top + 1) fun k w' =>
      k = .nil ∧ Loaded t s.world [.nil] w'
  test : forall t idx name, s.world.liveThread t = true -> names (cutName name) ->
    validIndex (s.world.thread t).height idx = true ->
    (forall p, s.world.valueAt t idx ≠ .light p) ->
    Needs t (testUserData t idx name) s.world ((s.world.thread t).top + 2) fun r w' =>
      Loaded t s.world [] w' ∧ forall x, r = some x ↔
        x = s.world.valueAt t idx ∧ HasNamed s (cutName name) x
  check : forall t idx name, s.world.liveThread t = true -> names (cutName name) ->
    validIndex (s.world.thread t).height idx = true ->
    (forall p, s.world.valueAt t idx ≠ .light p) ->
    (s.world.thread t).top + 2 ≤ (s.world.thread t).limit -> forall E,
    (exists x w', checkUserData t idx name E s.world = .ok x w') ↔
      HasNamed s (cutName name) (s.world.valueAt t idx)

end Naming

end LuaHost
