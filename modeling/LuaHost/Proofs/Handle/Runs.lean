import Mathlib.Logic.Relation
import LuaHost.Proofs.Handle.Opening
import LuaHost.Proofs.Handle.Turning
import LuaHost.Proofs.UserData.Lifetimes

/-!
# Runs with handles

A run creates, copies and uses up handles in any order, between operations on
stacks, scripts and cycles of the collector that leave the slots of the registry
alone, and may close the machine.  Every step keeps what the registry and the
flag have for the live handles.
-/

namespace LuaHost

namespace Ownership

open Interface Machine Session

/-!
# Runs
-/

/-- How far the closing of a machine has come. -/
inductive Phase where
  | running
  | closing
  | closed
deriving DecidableEq

/-- Whether the flag says that the machine runs. -/
def Phase.alive (p : Phase) : Bool := p = .running

/-- The shares in the flag that are not those of handles: the machine's and the registry's. -/
def Phase.shares : Phase → Nat
  | .running | .closing => 2
  | .closed => 0

/-- A live handle, with the value that it was created from. -/
structure Holding where
  handle : Handle
  origin : Value

def Holding.entries (x : Holding) : List (RefId × Value) := x.handle.entries x.origin

/-- The entries of some handles. -/
def entriesOf (xs : List Holding) : List (RefId × Value) := xs.flatMap Holding.entries

/-- The numbers of some handles, without the one that stands for `nil`. -/
def idsOf (xs : List Holding) : List RefId := (entriesOf xs).map Prod.fst

/-- How many shares in the flag some handles have. -/
def sharesOf (xs : List Holding) : Nat := (xs.map fun x => x.handle.shares).sum

/-- A machine with the handles that are live.  A handle that is released by hand is live until it
is released. -/
structure State where
  world : World
  phase : Phase := .running
  held : List Holding := []
  /-- What owned handles have left in the registry that were dropped when the machine had begun to
  close. -/
  lapsed : List (RefId × Value) := []

def State.entries (s : State) : List (RefId × Value) := entriesOf s.held ++ s.lapsed

/-- The first part of closing a machine: handles learn of it. -/
def beginClose : M Unit := do
  let t := (← get).mainThread
  log .debug ("closing lua state " ++ Value.addressText (Value.thread t).address)
  modify fun w => { w with liveness := w.liveness.map fun l => { l with alive := false } }

/-- The last part of closing a machine: the registry and the machine give up their shares. -/
def endClose : M Unit := do
  dropShare
  dropShare

theorem closeMachine_eq : closeMachine = (do beginClose; shutDown; endClose) := by
  unfold closeMachine beginClose endClose
  simp only [bind_assoc]

/-- One step of a run.  A script that does not write to the registry is a step that keeps it, and
so is a finalizer of a machine that closes; whatever they do with handles is a step of its own. -/
inductive Step : State → State → Prop where
  | stack {s : State} {t : ThreadId} {c : StackStep} {b : Book} {E : Engine} {w : World} :
      s.phase ≠ .closed -> Leads (runStack t c b) E s.world w -> Step s { s with world := w }
  | script {s : State} {w : World} : s.phase ≠ .closed -> s.world.Kept w ->
      Step s { s with world := w }
  | collect {s : State} {t : ThreadId} : s.phase ≠ .closed -> SoundWorld t s.world ->
      Step s { s with world := cycle s.world t }
  | create {s : State} {t : ThreadId} {c : CreateStep} {idx : Int} {E : Engine} {x : Handle}
      {w : World} : s.phase ≠ .closed -> c.index? = some idx -> s.entries.length < maxHandles ->
      createHandle t c E s.world = .ok x w ->
      Step s { s with world := w, held := ⟨x, s.world.valueAt t idx⟩ :: s.held }
  | createFails {s : State} {t : ThreadId} {c : CreateStep} {idx : Int} {E : Engine} {r : Raise}
      {w : World} : s.phase ≠ .closed -> c.index? = some idx -> s.entries.length < maxHandles ->
      (s.world.thread t).Within -> createHandle t c E s.world = .error r w ->
      Step s { s with world := w }
  | copy {s : State} {x : Holding} {E : Engine} {y : Handle} {w : World} : s.phase ≠ .closed ->
      x ∈ s.held -> s.entries.length < maxHandles -> x.handle.copy E s.world = .ok y w ->
      Step s { s with world := w, held := ⟨y, x.origin⟩ :: s.held }
  | copyFails {s : State} {x : Holding} {E : Engine} {r : Raise} {w : World} :
      s.phase ≠ .closed -> x ∈ s.held -> s.entries.length < maxHandles ->
      x.handle.copy E s.world = .error r w -> Step s { s with world := w }
  | turn {s : State} {before after : List Holding} {x : Holding} {a : Turn} {E : Engine}
      {y : Handle} {w : World} : s.phase ≠ .closed -> s.held = before ++ x :: after ->
      a.run x.handle E s.world = .ok (some y) w ->
      Step s { s with world := w, held := before ++ ⟨y, x.origin⟩ :: after }
  | gone {s : State} {before after : List Holding} {x : Holding} {a : Turn} {E : Engine}
      {w : World} : s.phase ≠ .closed -> s.held = before ++ x :: after ->
      a.run x.handle E s.world = .ok none w ->
      Step s { s with
        world := w
        held := before ++ after
        lapsed := remainder s.phase.alive x.handle x.origin ++ s.lapsed }
  | turnFails {s : State} {x : Holding} {a : Turn} {E : Engine} {r : Raise} {w : World} :
      s.phase ≠ .closed -> x ∈ s.held -> a.run x.handle E s.world = .error r w ->
      Step s { s with world := w }
  | beginClose {s : State} {E : Engine} {w : World} : s.phase = .running ->
      beginClose E s.world = .ok () w -> Step s { s with world := w, phase := .closing }
  | endClose {s : State} {E : Engine} {w : World} : s.phase = .closing ->
      endClose E s.world = .ok () w -> Step s { s with world := w, phase := .closed, lapsed := [] }
  | dropLate {s : State} {before after : List Holding} {x : Holding} {E : Engine} {w : World} :
      s.phase = .closed -> s.held = before ++ x :: after -> x.handle.owned?.isSome = true ->
      x.handle.drop E s.world = .ok () w -> Step s { s with world := w, held := before ++ after }

abbrev Run : State → State → Prop := Relation.ReflTransGen Step

/-!
# The invariant
-/

/-- What every run keeps. -/
structure Sound (s : State) : Prop where
  suits : forall x, x ∈ s.held -> x.handle.Suits x.origin
  ledger : s.phase ≠ .closed -> Ledger s.entries s.world
  liveness_eq : s.world.liveness = Liveness.owned s.phase.alive (sharesOf s.held + s.phase.shares)
  lapsed : s.phase = .running -> s.lapsed = []

theorem perm_entriesOf (before after : List Holding) (x : Holding) :
    (entriesOf (before ++ x :: after)).Perm (x.entries ++ entriesOf (before ++ after)) := by
  unfold entriesOf
  rw [List.flatMap_append, List.flatMap_append, List.flatMap_cons]
  refine (List.perm_append_comm_assoc _ _ _).trans ?_
  rfl

theorem sharesOf_append (before after : List Holding) (x : Holding) :
    sharesOf (before ++ x :: after) = sharesOf (before ++ after) + x.handle.shares := by
  unfold sharesOf
  rw [List.map_append, List.map_append, List.map_cons, List.sum_append, List.sum_append,
    List.sum_cons]
  omega

variable {s s' : State}

theorem Sound.suits_of (h : Sound s) {before after : List Holding} {x : Holding}
    (hheld : s.held = before ++ x :: after) : x.handle.Suits x.origin := by
  refine h.suits x ?_
  rw [hheld]
  exact List.mem_append_right _ (List.mem_cons_self ..)

theorem Sound.standing (h : Sound s) (hphase : s.phase ≠ .closed) {before after : List Holding}
    {x : Holding} (hheld : s.held = before ++ x :: after) :
    Standing (entriesOf (before ++ after) ++ s.lapsed) x.origin s.phase.alive
      (sharesOf (before ++ after) + s.phase.shares) x.handle s.world := by
  refine ⟨h.suits_of hheld, ?_, ?_⟩
  · have hledger := h.ledger hphase
    unfold State.entries at hledger
    rw [hheld] at hledger
    refine hledger.perm (((perm_entriesOf before after x).append_right _).trans ?_)
    rw [List.append_assoc]
    rfl
  · rw [h.liveness_eq, hheld, sharesOf_append, Nat.add_right_comm]

theorem Phase.shares_ne_zero {p : Phase} (h : p ≠ .closed) : p.shares ≠ 0 := by
  cases p with
  | closed => exact absurd rfl h
  | _ => exact nofun

theorem entries_of_mem {xs : List Holding} {x : Holding} (h : x ∈ xs) :
    x.entries ⊆ entriesOf xs :=
  fun _ hmem => List.mem_flatMap.mpr ⟨x, h, hmem⟩

theorem Sound.kept (h : Sound s) {w : World} (hkept : s.world.Kept w) :
    Sound { s with world := w } :=
  ⟨h.suits, fun hphase => (h.ledger hphase).spared hkept.toSpared,
    hkept.liveness_eq.trans h.liveness_eq, h.lapsed⟩

/-- A cycle keeps the registry, from which it begins. -/
theorem kept_cycle {es : List (RefId × Value)} {w : World} {t : ThreadId} (h : Ledger es w)
    (hsound : SoundWorld t w) : w.Kept (cycle w t) := by
  rcases h.tracks with ⟨hlive, free, n, _, hslots⟩
  rcases Lifetimes.collected_shared (cycle_collected hsound) hlive hslots.plain with
    ⟨hlive', htable, _⟩
  refine ⟨⟨rfl, fun _ => hlive', fun _ => ?_⟩, rfl⟩
  have htable : (cycle w t).registryTable = w.registryTable := htable
  rw [htable]
  exact Untouched.refl

theorem Sound.made (h : Sound s) (hphase : s.phase ≠ .closed) {x : Handle} {v : Value} {w : World}
    (hmade : Made s.entries v s.world.liveness x w) :
    Sound { s with world := w, held := ⟨x, v⟩ :: s.held } := by
  refine ⟨?_, fun _ => ?_, ?_, h.lapsed⟩
  · intro y hy
    cases hy with
    | head => exact hmade.suits
    | tail _ hy => exact h.suits y hy
  · have hledger := hmade.ledger
    unfold State.entries entriesOf at hledger ⊢
    rw [← List.append_assoc] at hledger
    exact hledger
  · have hliveness := hmade.liveness_eq
    rw [h.liveness_eq] at hliveness
    have hshares : sharesOf (⟨x, v⟩ :: s.held) = sharesOf s.held + x.shares := by
      unfold sharesOf
      rw [List.map_cons, List.sum_cons, Nat.add_comm]
    show w.liveness = _
    rw [hliveness, hshares]
    unfold Handle.shares
    split
    · rw [Liveness.more_owned]
      · rw [Nat.add_right_comm]
      · have hne := Phase.shares_ne_zero hphase
        omega
    · rfl

theorem mem_held {s : State} {before after : List Holding} {x y : Holding}
    (hheld : s.held = before ++ x :: after) (hy : y ∈ before ++ after) : y ∈ s.held := by
  rw [hheld]
  rcases List.mem_append.mp hy with hy | hy
  · exact List.mem_append_left _ hy
  · exact List.mem_append_right _ (List.mem_cons_of_mem _ hy)

theorem Sound.replaced (h : Sound s) {before after : List Holding} {x : Holding}
    (hheld : s.held = before ++ x :: after) {y : Handle} {w : World}
    (hstanding : Standing (entriesOf (before ++ after) ++ s.lapsed) x.origin s.phase.alive
      (sharesOf (before ++ after) + s.phase.shares) y w) :
    Sound { s with world := w, held := before ++ ⟨y, x.origin⟩ :: after } := by
  refine ⟨?_, fun _ => ?_, ?_, h.lapsed⟩
  · intro z hz
    rcases List.mem_append.mp hz with hz | hz
    · exact h.suits z (mem_held hheld (List.mem_append_left _ hz))
    · cases hz with
      | head => exact hstanding.suits
      | tail _ hz => exact h.suits z (mem_held hheld (List.mem_append_right _ hz))
  · refine hstanding.ledger.perm ?_
    rw [← List.append_assoc]
    exact ((perm_entriesOf before after ⟨y, x.origin⟩).append_right _).symm
  · refine hstanding.liveness_eq.trans ?_
    show _ = Liveness.owned _ (sharesOf (before ++ ⟨y, x.origin⟩ :: after) + _)
    rw [sharesOf_append, Nat.add_right_comm]

/-- A handle is gone, and leaves `rest` in the registry. -/
theorem Sound.gone (h : Sound s) {before after : List Holding} {x : Holding}
    (hheld : s.held = before ++ x :: after) {rest : List (RefId × Value)} {w : World}
    (hledger : Ledger (rest ++ (entriesOf (before ++ after) ++ s.lapsed)) w)
    (hliveness : w.liveness =
      Liveness.owned s.phase.alive (sharesOf (before ++ after) + s.phase.shares))
    (hrest : s.phase = .running -> rest = []) :
    Sound { s with world := w, held := before ++ after, lapsed := rest ++ s.lapsed } := by
  refine ⟨fun y hy => h.suits y (mem_held hheld hy), fun _ => ?_, hliveness, fun hphase => ?_⟩
  · exact hledger.perm (List.perm_append_comm_assoc _ _ _)
  · show rest ++ s.lapsed = []
    rw [hrest hphase, h.lapsed hphase]
    rfl

theorem Phase.alive_eq (p : Phase) : p.alive = true ↔ p = .running := by
  cases p <;> decide

/-- Nothing is left of a handle that is gone while the machine runs. -/
theorem remainder_running {p : Phase} (h : p = .running) (x : Handle) (v : Value) :
    remainder p.alive x v = [] := by
  unfold remainder
  rw [(Phase.alive_eq p).mpr h, Bool.not_true, Bool.and_false]
  rfl

theorem returns_beginClose (w : World) :
    exists w', Returns beginClose w () w' ∧ w.Spared w' ∧
      w'.liveness = Liveness.ended w.liveness := by
  refine ⟨_, Returns.bind (returns_get w) (Returns.bind (returns_modify _ w) (returns_modify _ _)),
    ?_, rfl⟩
  exact World.spared_of_tables rfl rfl

theorem returns_endClose {w : World} {alive : Bool} {n : Nat}
    (h : w.liveness = Liveness.owned alive (n + 2)) :
    Returns endClose w () (w.withLiveness (Liveness.owned alive n)) :=
  Returns.bind (returns_dropShare_owned h) (returns_dropShare_owned rfl)

/-- A step keeps the invariant. -/
theorem sound_step (h : Sound s) (hstep : Step s s') : Sound s' := by
  -- while the machine is open each step is one lemma about the ledger; the last three cases change
  -- the phase or come after it
  cases hstep with
  | stack _ hleads => exact h.kept ((keeps_runStack _ _ _).leads hleads)
  | script _ hkept => exact h.kept hkept
  | collect hphase hsound => exact h.kept (kept_cycle (h.ledger hphase) hsound)
  | create hphase hidx hroom hok =>
      exact h.made hphase
        ((ends_iff.mp (ends_createHandle (h.ledger hphase) hroom hidx _ _)).1 _ _ hok)
  | createFails hphase hidx hroom hwithin herror =>
      exact h.kept
        ((ends_iff.mp (ends_createHandle (h.ledger hphase) hroom hidx _ _)).2 _ _ herror hwithin)
  | copy hphase hmem hroom hok =>
      have hsub := List.Subset.trans (entries_of_mem hmem) (List.subset_append_left _ s.lapsed)
      exact h.made hphase
        ((ends_iff.mp (ends_copyHandle (h.ledger hphase) hroom (h.suits _ hmem) hsub _)).1 _ _ hok)
  | copyFails hphase hmem hroom herror =>
      have hsub := List.Subset.trans (entries_of_mem hmem) (List.subset_append_left _ s.lapsed)
      exact h.kept
        ((ends_iff.mp (ends_copyHandle (h.ledger hphase) hroom (h.suits _ hmem) hsub _)).2 _ _
          herror)
  | turn hphase hheld hok =>
      have hm := Phase.shares_ne_zero hphase
      cases (ends_iff.mp (ends_turn (h.standing hphase hheld) (by omega) _ _)).1 _ _ hok with
      | kept hstanding => exact h.replaced hheld hstanding
  | gone hphase hheld hok =>
      have hm := Phase.shares_ne_zero hphase
      cases (ends_iff.mp (ends_turn (h.standing hphase hheld) (by omega) _ _)).1 _ _ hok with
      | gone hledger hliveness =>
          exact h.gone hheld hledger hliveness fun hrunning => remainder_running hrunning _ _
  | turnFails hphase hmem herror =>
      have hm := Phase.shares_ne_zero hphase
      rcases List.append_of_mem hmem with ⟨before, after, hheld⟩
      exact h.kept
        ((ends_iff.mp (ends_turn (h.standing hphase hheld) (by omega) _ _)).2 _ _ herror)
  | beginClose hphase hok =>
      rcases returns_beginClose s.world with ⟨w, hrun, hspared, hliveness⟩
      rcases hrun.ok_eq hok with ⟨_, rfl⟩
      have hopen : s.phase ≠ .closed := by
        rw [hphase]
        exact nofun
      refine ⟨h.suits, fun _ => (h.ledger hopen).spared hspared, ?_, nofun⟩
      rw [h.liveness_eq, Liveness.ended_owned, hphase] at hliveness
      exact hliveness
  | endClose hphase hok =>
      have hliveness := h.liveness_eq
      rw [hphase] at hliveness
      rcases (returns_endClose hliveness).ok_eq hok with ⟨_, rfl⟩
      exact ⟨h.suits, fun hclosed => absurd rfl hclosed, rfl, nofun⟩
  | dropLate hphase hheld howned hok =>
      rcases Option.isSome_iff_exists.mp howned with ⟨r, hr⟩
      have hliveness := h.liveness_eq
      rw [hphase, hheld, sharesOf_append, Handle.shares_of_owned hr] at hliveness
      rw [Handle.drop_eq, hr] at hok
      rcases (returns_drop_late ((h.suits_of hheld).flagged r hr) hliveness).ok_eq hok with ⟨_, rfl⟩
      refine ⟨fun y hy => h.suits y (mem_held hheld hy), fun hopen => absurd hphase hopen, ?_,
        h.lapsed⟩
      show _ = Liveness.owned s.phase.alive _
      rw [hphase]
      rfl

/-- A run keeps the invariant. -/
theorem sound_run (h : Sound s) (hrun : Run s s') : Sound s' := by
  -- by induction on the run, from its beginning
  induction hrun with
  | refl => exact h
  | tail _ hstep ih => exact sound_step ih hstep

theorem sound_opened {libraries : Bool} {E : Engine} {w : World}
    (h : openMachine libraries E freshWorld = .ok () w) : Sound { world := w } := by
  rcases ledger_opened h with ⟨hledger, hliveness⟩
  exact ⟨fun _ hx => absurd hx List.not_mem_nil, fun _ => hledger, hliveness, fun _ => rfl⟩

end Ownership

end LuaHost
