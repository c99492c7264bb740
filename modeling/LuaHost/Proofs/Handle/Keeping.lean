import LuaHost.Handle.Owned
import LuaHost.Proofs.Interface.Slots
import LuaHost.Session.ValueSteps

/-!
# Steps that keep the registry

A step keeps the registry when it writes neither to its slots nor to the flag
of handles.  The operations on a stack do so however they end: they keep every
relation between worlds that does not look at stacks.
-/

namespace LuaHost

open Interface

namespace World

/-!
# What is written beside stacks
-/

/-- Nothing happened to tables, to the flag of handles and to what says which threads there are. -/
structure Aside (w w' : World) : Prop where
  registry_eq : w'.registry = w.registry
  tables_eq : w'.heap.tables = w.heap.tables
  liveness_eq : w'.liveness = w.liveness
  main_eq : w'.mainThread = w.mainThread
  live_eq : forall t, w'.liveThread t = w.liveThread t

theorem aside_setThread (w : World) (t : ThreadId) (th : Thread) : w.Aside (w.setThread t th) :=
  ⟨rfl, rfl, rfl, rfl, fun u => w.liveThread_setThread t u th⟩

theorem aside_setLog (w : World) (l : List LogRecord) : w.Aside (w.setLog l) :=
  ⟨rfl, rfl, rfl, rfl, fun _ => rfl⟩

/-- A relation between the worlds before and after a computation that does not look at stacks. -/
class Lax (R : World → World → Prop) : Prop where
  of_aside : forall {w w' : World}, w.Aside w' -> R w w'
  trans : forall {w w' w'' : World}, R w w' -> R w' w'' -> R w w''

theorem Lax.refl {R : World → World → Prop} [Lax R] (w : World) : R w w :=
  Lax.of_aside ⟨rfl, rfl, rfl, rfl, fun _ => rfl⟩

/-- The registry and its slots are as they were. -/
structure Spared (w w' : World) : Prop where
  registry_eq : w'.registry = w.registry
  live : w.registryLive = true -> w'.registryLive = true
  untouched : w.registryLive = true -> Untouched w.registryTable w'.registryTable

/-- Moreover the flag of handles is as it was. -/
structure Kept (w w' : World) : Prop extends Spared w w' where
  liveness_eq : w'.liveness = w.liveness

theorem Spared.refl (w : World) : w.Spared w := ⟨rfl, fun h => h, fun _ => Untouched.refl⟩

theorem Spared.trans {w w' w'' : World} (h : w.Spared w') (h' : w'.Spared w'') : w.Spared w'' :=
  ⟨h'.registry_eq.trans h.registry_eq, fun hlive => h'.live (h.live hlive),
    fun hlive => (h.untouched hlive).trans (h'.untouched (h.live hlive))⟩

theorem Kept.refl (w : World) : w.Kept w := ⟨Spared.refl w, rfl⟩

theorem Kept.trans {w w' w'' : World} (h : w.Kept w') (h' : w'.Kept w'') : w.Kept w'' :=
  ⟨h.toSpared.trans h'.toSpared, h'.liveness_eq.trans h.liveness_eq⟩

/-- Nothing happened to the tables and to what says which of them the registry is. -/
theorem spared_of_tables {w w' : World} (hregistry : w'.registry = w.registry)
    (htables : w'.heap.tables = w.heap.tables) : w.Spared w' := by
  have hlive : w'.registryLive = w.registryLive := by
    unfold registryLive
    rw [hregistry, htables]
  have htable : w'.registryTable = w.registryTable := by
    unfold registryTable
    rw [hregistry, htables]
  refine ⟨hregistry, fun h => hlive.trans h, fun _ => ?_⟩
  rw [htable]
  exact Untouched.refl

instance : Lax Kept where
  of_aside h := ⟨spared_of_tables h.registry_eq h.tables_eq, h.liveness_eq⟩
  trans := Kept.trans

theorem kept_setThread (w : World) (t : ThreadId) (th : Thread) : w.Kept (w.setThread t th) :=
  Lax.of_aside (w.aside_setThread t th)

theorem kept_setLog (w : World) (l : List LogRecord) : w.Kept (w.setLog l) :=
  Lax.of_aside (w.aside_setLog l)

/-- What the registry holds under a number. -/
def registered (w : World) (id : Int) : Value := held w.registryTable id

theorem Spared.registered_eq {w w' : World} (h : w.Spared w') (hlive : w.registryLive = true)
    (id : Int) : w'.registered id = w.registered id :=
  (h.untouched hlive).held_eq id

theorem Spared.tracks {w w' : World} (h : w.Spared w') {taken : List Int}
    (htracks : Tracks w taken) : Tracks w' taken := by
  rcases htracks with ⟨hlive, free, n, hn, hslots⟩
  exact ⟨h.live hlive, free, n, hn, (h.untouched hlive).slots hslots⟩

end World

namespace Machine

/-!
# Computations that keep a relation
-/

/-- The computation keeps the relation, however it ends. -/
structure Keeps (R : World → World → Prop) {α : Type} (x : M α) : Prop where
  run : forall (E : Engine) (w : World), Ends x E w (fun _ w' => R w w') fun w' => R w w'

variable {α β : Type} {R : World → World → Prop}

/-- What an error of the computation leaves, beside what it returns. -/
theorem Keeps.ends {x : M α} (h : Keeps R x) {E : Engine} {w : World} {Q : α → World → Prop}
    (hQ : forall a w', x E w = .ok a w' -> Q a w') : Ends x E w Q fun w' => R w w' :=
  ends_iff.mpr ⟨hQ, (ends_iff.mp (h.run E w)).2⟩

/-- A computation leads from one world to another, however it ends. -/
inductive Leads (x : M α) (E : Engine) (w w' : World) : Prop where
  | ok (a : α) : x E w = .ok a w' -> Leads x E w w'
  | error (r : Raise) : x E w = .error r w' -> Leads x E w w'

theorem Keeps.leads {x : M α} {E : Engine} {w w' : World} (h : Keeps R x)
    (hleads : Leads x E w w') : R w w' := by
  have hends := ends_iff.mp (h.run E w)
  cases hleads with
  | ok a hok => exact hends.1 a w' hok
  | error r herror => exact hends.2 r w' herror

variable [World.Lax R]

theorem Keeps.bind {x : M α} {f : α → M β} (hx : Keeps R x) (hf : forall a, Keeps R (f a)) :
    Keeps R (x >>= f) := by
  refine ⟨fun E w => (hx.run E w).bind ?_⟩
  intro a w' hkept
  exact ((hf a).run E w').imp (fun _ _ h => World.Lax.trans hkept h)
    fun _ h => World.Lax.trans hkept h

theorem Keeps.pure (a : α) : Keeps R (pure a) := ⟨fun _ w => World.Lax.refl w⟩

theorem keeps_throw (r : Raise) : Keeps R (throw r : M α) := ⟨fun _ w => World.Lax.refl w⟩

theorem keeps_reads {x : M α} (h : forall w, Reads x w) : Keeps R x := by
  refine ⟨fun E w => ?_⟩
  rcases h w with ⟨a, ha⟩
  exact ha.ends (World.Lax.refl w)

theorem keeps_aside {f : World → World} (h : forall w : World, w.Aside (f w)) :
    Keeps R (modify f : M Unit) :=
  ⟨fun _ w => (returns_modify f w).ends (World.Lax.of_aside (h w))⟩

theorem keeps_get : Keeps R (get : M World) := keeps_reads fun w => ⟨w, returns_get w⟩

theorem keeps_registryValue (k : Value) : Keeps R (registryValue k) :=
  keeps_reads fun w => ⟨_, returns_registryValue w k⟩

theorem keeps_countAllocation : Keeps R countAllocation :=
  keeps_aside fun _ => ⟨rfl, rfl, rfl, rfl, fun _ => rfl⟩

theorem keeps_modifyThread (t : ThreadId) (f : Thread → Thread) : Keeps R (modifyThread t f) :=
  ⟨fun _ w => (returns_modifyThread w t f).ends (World.Lax.of_aside (w.aside_setThread t _))⟩

theorem keeps_thread (t : ThreadId) : Keeps R (thread t) := keeps_reads (reads_thread t)

theorem keeps_height (t : ThreadId) : Keeps R (height t) :=
  (keeps_thread t).bind fun _ => Keeps.pure _

theorem keeps_place (t : ThreadId) (idx : Int) : Keeps R (place t idx) :=
  keeps_reads (reads_place t idx)

theorem keeps_value (t : ThreadId) (idx : Int) : Keeps R (value t idx) :=
  keeps_reads fun w => (reads_place t idx w).bind fun p => reads_valueAt t p w

theorem keeps_growStack (t : ThreadId) (n : Nat) : Keeps R (growStack t n) := by
  unfold growStack
  refine (keeps_thread t).bind fun th => ?_
  split
  · exact Keeps.pure _
  · dsimp only
    split
    · exact (keeps_modifyThread t _).bind fun _ => Keeps.pure _
    · exact (keeps_modifyThread t _).bind fun _ => Keeps.pure _

theorem keeps_checkStack (t : ThreadId) (n : Nat) : Keeps R (checkStack t n) := by
  unfold checkStack
  refine (keeps_thread t).bind fun th => ?_
  have hclaim : forall ok : Bool, Keeps R (do
      if ok then
        modifyThread t fun th => th.modifyFrame fun f => { f with top := max f.top (th.top + n) }
      return ok : M Bool) := by
    intro ok
    cases ok with
    | false => exact Keeps.pure _
    | true => exact (keeps_modifyThread t _).bind fun _ => Keeps.pure _
  split
  · exact hclaim true
  · exact (keeps_growStack t n).bind hclaim

theorem keeps_store (t : ThreadId) (v : Value) (p : Place) : Keeps R (store t v p) := by
  cases p with
  | slot i => exact keeps_modifyThread t _
  | upvalue c i => exact ⟨fun _ _ => World.Lax.of_aside ⟨rfl, rfl, rfl, rfl, fun _ => rfl⟩⟩
  | registry => exact Keeps.pure _
  | nowhere => exact Keeps.pure _

theorem keeps_pushAll (t : ThreadId) (vs : List Value) : Keeps R (pushAll t vs) := by
  unfold pushAll
  induction vs with
  | nil => exact Keeps.pure _
  | cons v vs ih => exact (keeps_modifyThread t _).bind fun _ => ih

end Machine

namespace Interface

open Machine

variable {R : World → World → Prop} [World.Lax R]

/-!
# Operations on a stack
-/

theorem keeps_abort {α : Type} (message : String) : Keeps R (abort message : M α) := keeps_throw _

theorem keeps_reserve (t : ThreadId) (n : Nat) : Keeps R (reserve t n) := by
  refine (keeps_checkStack t n).bind fun ok => ?_
  cases ok with
  | false => exact keeps_abort _
  | true => exact Keeps.pure _

theorem keeps_checkIndex (t : ThreadId) (idx : Int) : Keeps R (checkIndex t idx) := by
  refine (keeps_height t).bind fun n => ?_
  split
  · exact keeps_abort _
  · exact Keeps.pure _

theorem keeps_pop (t : ThreadId) (n : Int) : Keeps R (pop t n) := by
  refine (keeps_height t).bind fun h => ?_
  dsimp only
  split
  · exact (keeps_abort _).bind fun _ => keeps_modifyThread t _
  · exact keeps_modifyThread t _

theorem keeps_absIndex (t : ThreadId) (idx : Int) : Keeps R (absIndex t idx) := by
  unfold absIndex Machine.absIndex
  split
  · exact Keeps.pure _
  · exact (keeps_height t).bind fun _ => Keeps.pure _

theorem keeps_pushNew (t : ThreadId) (v : Value) : Keeps R (pushNew t v) :=
  (keeps_reserve t 1).bind fun _ => keeps_modifyThread t _

theorem keeps_pushValue (t : ThreadId) (idx : Int) : Keeps R (pushValue t idx) := by
  refine (keeps_checkIndex t idx).bind fun _ => (keeps_reserve t 1).bind fun _ => ?_
  exact (keeps_value t idx).bind fun v => keeps_modifyThread t _

theorem keeps_rotate (t : ThreadId) (idx n : Int) : Keeps R (rotate t idx n) := by
  refine (keeps_checkIndex t idx).bind fun _ => (keeps_place t idx).bind fun p => ?_
  cases p with
  | slot i => exact keeps_modifyThread t _
  | _ => exact Keeps.pure _

theorem keeps_copy (t : ThreadId) (src dst : Int) : Keeps R (copy t src dst) := by
  refine (keeps_checkIndex t src).bind fun _ => (keeps_checkIndex t dst).bind fun _ => ?_
  exact (keeps_value t src).bind fun v => (keeps_place t dst).bind fun p => keeps_store t v p

theorem keeps_transfer (t dst : ThreadId) (n : Int) : Keeps R (transfer t dst n) := by
  unfold transfer
  split
  · refine (keeps_reserve dst n.toNat).bind fun _ => (keeps_thread t).bind fun th => ?_
    exact (keeps_modifyThread t _).bind fun _ => keeps_pushAll dst _
  · exact Keeps.pure _

theorem keeps_isInteger (t : ThreadId) (idx : Int) : Keeps R (isInteger t idx) :=
  (keeps_value t idx).bind fun _ => Keeps.pure _

theorem keeps_toBoolean (t : ThreadId) (idx : Int) : Keeps R (toBoolean t idx) :=
  (keeps_checkIndex t idx).bind fun _ => (keeps_value t idx).bind fun _ => Keeps.pure _

theorem keeps_toInteger (t : ThreadId) (idx : Int) : Keeps R (toInteger t idx) :=
  (keeps_checkIndex t idx).bind fun _ => (keeps_value t idx).bind fun _ => Keeps.pure _

theorem keeps_toNumber (t : ThreadId) (idx : Int) : Keeps R (toNumber t idx) :=
  (keeps_checkIndex t idx).bind fun _ => (keeps_value t idx).bind fun _ => Keeps.pure _

theorem keeps_toUserDataAddress (t : ThreadId) (idx : Int) : Keeps R (toUserDataAddress t idx) :=
  (keeps_checkIndex t idx).bind fun _ => (keeps_value t idx).bind fun _ => Keeps.pure _

theorem keeps_answer {α : Type} {x : M α} (hx : Keeps R x) (f : α → Session.Answer)
    (b : Session.Book) : Keeps R ((do return f (← x) : Session.Act Session.Answer) b) := by
  have hlift : Keeps R (do let a ← x; pure (a, b) : M (α × Session.Book)) :=
    hx.bind fun a => Keeps.pure _
  exact hlift.bind fun p => Keeps.pure (f p.1, p.2)

/-- Every operation on a stack keeps the registry, however it ends. -/
theorem keeps_runStack (t : ThreadId) (b : Session.Book) (s : Session.StackStep) :
    Keeps R (Session.runStack t s b) := by
  cases s with
  | getTop => exact keeps_answer ((keeps_height t).bind fun n => Keeps.pure (n : Int)) _ b
  | setTop idx => exact keeps_answer (keeps_modifyThread t _) _ b
  | pop n => exact keeps_answer (keeps_pop t n) _ b
  | absIndex idx => exact keeps_answer (keeps_absIndex t idx) _ b
  | checkStack n => exact keeps_answer (keeps_checkStack t n.toNat) _ b
  | pushValue idx => exact keeps_answer (keeps_pushValue t idx) _ b
  | insert idx => exact keeps_answer (keeps_rotate t idx 1) _ b
  | remove idx =>
      exact keeps_answer ((keeps_rotate t idx (-1)).bind fun _ => keeps_pop t 1) _ b
  | replace idx =>
      have hreplace : Keeps R (replace t idx) := (keeps_checkIndex t idx).bind fun _ =>
        (keeps_copy t (-1) idx).bind fun _ => keeps_pop t 1
      exact keeps_answer hreplace _ b
  | rotate idx n => exact keeps_answer (keeps_rotate t idx n) _ b
  | copy src dst => exact keeps_answer (keeps_copy t src dst) _ b
  | transfer dst n =>
      exact (Keeps.pure (b, b)).bind fun p =>
        keeps_answer (keeps_transfer t (p.1.thread dst) n) (fun _ => .nothing) p.2

end Interface

end LuaHost
