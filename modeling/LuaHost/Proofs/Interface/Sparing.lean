import LuaHost.Proofs.Interface.StackEffect
import LuaHost.Proofs.Machine.Reporting

/-!
# What protected calls leave alone

A call puts its results in the place of its function, or it raises an error, for
which it may leave calls and values above that place behind.  A protected call
gives those up, closes the variables among them and puts the error object in
their place.  Whatever the outcome, the values below are as they were.
-/

namespace LuaHost

/-!
# Stacks that are held
-/

namespace Thread

theorem setSlot_eq (th : Thread) (i : Nat) (v : Value) :
    exists stack, th.setSlot i v = { th with stack } := by
  unfold setSlot
  split <;> exact ⟨_, rfl⟩

theorem push_eq (th : Thread) (v : Value) :
    exists stack, th.push v = { th with stack, top := th.top + 1 } := by
  rcases setSlot_eq th th.top v with ⟨stack, hstack⟩
  exact ⟨stack, congrArg (·.withTop (th.top + 1)) hstack⟩

theorem guards_setSlot (th : Thread) (i : Nat) (v : Value) : (th.setSlot i v).guards = th.guards := by
  rcases setSlot_eq th i v with ⟨stack, hstack⟩
  rw [hstack]

theorem handler_push (th : Thread) (v : Value) : (th.push v).handler = th.handler := by
  rcases push_eq th v with ⟨stack, hstack⟩
  rw [hstack]

theorem toClose_push (th : Thread) (v : Value) : (th.push v).toClose = th.toClose := by
  rcases push_eq th v with ⟨stack, hstack⟩
  rw [hstack]

/-- Two states of a thread with as many calls and as many protected sections, in
which the values of the running call in the slots below `n` are the same. -/
structure Holds (n : Nat) (th th' : Thread) : Prop where
  calls_eq : th'.frames.size = th.frames.size
  guards_eq : th'.guards = th.guards
  below : th.SameUpTo n th'

instance (n : Nat) (th th' : Thread) : Decidable (th.Holds n th') :=
  decidable_of_iff (th'.frames.size = th.frames.size ∧ th'.guards = th.guards ∧ th.SameUpTo n th')
    ⟨fun h => ⟨h.1, h.2.1, h.2.2⟩, fun h => ⟨h.calls_eq, h.guards_eq, h.below⟩⟩

namespace Holds

variable {m n i : Nat} {th th' th'' : Thread}

theorem refl (n : Nat) (th : Thread) : th.Holds n th := ⟨rfl, rfl, SameUpTo.refl n th⟩

theorem trans (h : th.Holds n th') (h' : th'.Holds n th'') : th.Holds n th'' :=
  ⟨h'.calls_eq.trans h.calls_eq, h'.guards_eq.trans h.guards_eq, h.below.trans h'.below⟩

theorem mono (h : th.Holds n th') (hmn : m ≤ n) : th.Holds m th' :=
  ⟨h.calls_eq, h.guards_eq, h.below.mono hmn⟩

theorem setSlot (h : th.Holds n th') (hi : n ≤ i) (v : Value) : th.Holds n (th'.setSlot i v) :=
  h.trans ⟨by rw [frames_setSlot], guards_setSlot th' i v, sameUpTo_setSlot th' hi v⟩

theorem withTop (h : th.Holds n th') (i : Nat) : th.Holds n (th'.withTop i) :=
  h.trans ⟨rfl, rfl, rfl, fun _ _ _ => rfl⟩

theorem push (h : th.Holds n th') (hn : n ≤ th'.top) (v : Value) : th.Holds n (th'.push v) :=
  (h.setSlot hn v).withTop _

theorem placing (h : th.Holds n th') (hi : n ≤ i) (s : Status) : th.Holds n (th'.placing s i) :=
  (h.setSlot hi _).withTop _

end Holds

end Thread

namespace World

/-- A live thread holds the values of its running call below slot `n`. -/
structure Held (t : ThreadId) (n : Nat) (w w' : World) : Prop where
  live : w'.liveThread t = true
  holds : (w.thread t).Holds n (w'.thread t)

/-- The same, once the calls of a live thread that were begun since are given up. -/
structure Abandoned (t : ThreadId) (n : Nat) (w w' : World) : Prop where
  live : w'.liveThread t = true
  calls_le : (w.thread t).frames.size ≤ (w'.thread t).frames.size
  below : (w.thread t).SameUpTo n ((w'.thread t).cutTo (w.thread t).frames.size true)

instance (t : ThreadId) (n : Nat) (w w' : World) : Decidable (Held t n w w') :=
  decidable_of_iff (w'.liveThread t = true ∧ (w.thread t).Holds n (w'.thread t))
    ⟨fun h => ⟨h.1, h.2⟩, fun h => ⟨h.live, h.holds⟩⟩

instance (t : ThreadId) (n : Nat) (w w' : World) : Decidable (Abandoned t n w w') :=
  decidable_of_iff (w'.liveThread t = true ∧
      (w.thread t).frames.size ≤ (w'.thread t).frames.size ∧
      (w.thread t).SameUpTo n ((w'.thread t).cutTo (w.thread t).frames.size true))
    ⟨fun h => ⟨h.1, h.2.1, h.2.2⟩, fun h => ⟨h.live, h.calls_le, h.below⟩⟩

variable {t : ThreadId} {m n : Nat} {w w' w'' : World}

theorem Held.refl (n : Nat) (hlive : w.liveThread t = true) : Held t n w w :=
  ⟨hlive, .refl n _⟩

theorem Held.trans (h : Held t n w w') (h' : Held t n w' w'') : Held t n w w'' :=
  ⟨h'.live, h.holds.trans h'.holds⟩

theorem Held.mono (h : Held t n w w') (hmn : m ≤ n) : Held t m w w' :=
  ⟨h.live, h.holds.mono hmn⟩

theorem Held.abandoned (h : Held t n w w') (h' : Abandoned t n w' w'') : Abandoned t n w w'' := by
  have hcalls := h.holds.calls_eq
  refine ⟨h'.live, hcalls ▸ h'.calls_le, h.holds.below.trans ?_⟩
  rw [← hcalls]
  exact h'.below

theorem Abandoned.mono (h : Abandoned t n w w') (hmn : m ≤ n) : Abandoned t m w w' :=
  ⟨h.live, h.calls_le, h.below.mono hmn⟩

theorem held_setThread (hlive : w.liveThread t = true) {th : Thread}
    (h : (w.thread t).Holds n th) : Held t n w (w.setThread t th) := by
  refine ⟨(liveThread_setThread w t t th).trans hlive, ?_⟩
  rw [thread_setThread hlive]
  exact h

end World

/-!
# Outcomes that spare a stack
-/

namespace Machine

/-- However a computation ends that began in the world `w`: if it returns, the values of the running
call below slot `n` are held, and if an error of the thread leaves it, they are held once the calls
begun since are given up. -/
inductive Spares (t : ThreadId) (n : Nat) (w : World) {α : Type} : Outcome α → Prop where
  | returns {a : α} {w' : World} : w.Held t n w' → Spares t n w (.ok a w')
  | fails {s : Status} {w' : World} :
      s.isError = true → w.Abandoned t n w' → Spares t n w (.error (.error t s) w')
  | passes {r : Raise} {w' : World} : (forall s, r ≠ .error t s) → Spares t n w (.error r w')

instance (t : ThreadId) (n : Nat) (w : World) {α : Type} (o : Outcome α) :
    Decidable (Spares t n w o) :=
  match o with
  | .ok _ w' =>
    decidable_of_iff (w.Held t n w') ⟨.returns, fun h => by cases h; assumption⟩
  | .error (.error t' s) w' =>
    if heq : t' = t then
      decidable_of_iff (s.isError = true ∧ w.Abandoned t n w') <| by
        subst heq
        refine ⟨fun h => .fails h.1 h.2, fun h => ?_⟩
        cases h with
        | fails hs habandoned => exact ⟨hs, habandoned⟩
        | passes hforeign => exact absurd rfl (hforeign s)
    else .isTrue (.passes fun _ h => heq (by injection h))
  | .error (.yield _) _ => .isTrue (.passes nofun)
  | .error (.panic _) _ => .isTrue (.passes nofun)
  | .error (.exit _) _ => .isTrue (.passes nofun)
  | .error .exhausted _ => .isTrue (.passes nofun)

end Machine

namespace Engine

open Machine

/-- A call that returns has put its results, `n` of them unless the caller wants all, in the place of
its function. -/
def Placed (t : ThreadId) (f : Nat) (n : Int) : Outcome Unit → Prop
  | .ok _ w => f ≤ (w.thread t).top ∧ (0 ≤ n → (w.thread t).top = f + n.toNat)
  | .error _ _ => True

instance (t : ThreadId) (f : Nat) (n : Int) (o : Outcome Unit) : Decidable (Placed t f n o) :=
  match o with
  | .ok _ w => inferInstanceAs (Decidable (f ≤ (w.thread t).top ∧ (0 ≤ n → _)))
  | .error _ _ => .isTrue trivial

/-- All calls put their results in the place of the function, and spare what lies below. -/
def Sparing (E : Engine) : Prop :=
  forall t f n y w, Spares t f w (E.call t f n y w) ∧ Placed t f n (E.call t f n y w)

/-- The engine that gives up after a call that has done something else. -/
def sparing (E : Engine) : Engine where
  call t f n y w :=
    if Spares t f w (E.call t f n y w) ∧ Placed t f n (E.call t f n y w) then E.call t f n y w
    else .error .exhausted (Outcome.world (E.call t f n y w))
  resume := E.resume

theorem sparing_sparing (E : Engine) : E.sparing.Sparing := by
  intro t f n y w
  unfold sparing
  dsimp only
  split
  · next hspares => exact hspares
  · exact ⟨.passes nofun, trivial⟩

/-- Giving up changes nothing where all calls do what is asked of them. -/
theorem Sparing.sparing_eq {E : Engine} (h : E.Sparing) : E.sparing = E := by
  have hcall : E.sparing.call = E.call := by
    funext t f n y w
    exact if_pos (h t f n y w)
  exact congrArg (fun call => { E with call }) hcall

theorem Sparing.disciplined {E : Engine} (h : E.Sparing) : E.Disciplined [] := by
  intro t f n y w w' _ hrun
  rcases h t f n y w with ⟨hspares, hplaced⟩
  rw [hrun] at hspares hplaced
  cases hspares with
  | returns hheld => exact ⟨hplaced.2, hheld.live, hheld.holds.below, nofun⟩

end Engine

namespace Machine

section Sparing

variable {α β : Type} {t : ThreadId} {m n i level : Nat} {w w' u : World} {E : Engine} {s : Status}

theorem Spares.mono {o : Outcome α} (h : Spares t n w o) (hmn : m ≤ n) : Spares t m w o := by
  cases h with
  | returns hheld => exact .returns (hheld.mono hmn)
  | fails hs habandoned => exact .fails hs (habandoned.mono hmn)
  | passes hforeign => exact .passes hforeign

theorem Spares.since {o : Outcome α} (h : Spares t n w' o) (hheld : w.Held t n w') :
    Spares t n w o := by
  cases h with
  | returns hheld' => exact .returns (hheld.trans hheld')
  | fails hs habandoned => exact .fails hs (hheld.abandoned habandoned)
  | passes hforeign => exact .passes hforeign

theorem Spares.bind {x : M α} {f : α → M β} (hx : Spares t n w (x E w))
    (hf : forall a w', x E w = .ok a w' → w.Held t n w' → Spares t n w' (f a E w')) :
    Spares t n w ((x >>= f) E w) := by
  cases hrun : x E w with
  | ok a w' =>
      rw [hrun] at hx
      cases hx with
      | returns hheld =>
          rw [bind_of_ok hrun]
          exact (hf a w' hrun hheld).since hheld
  | error r w' =>
      rw [hrun] at hx
      rw [bind_of_error hrun]
      cases hx with
      | fails hs habandoned => exact .fails hs habandoned
      | passes hforeign => exact .passes hforeign

theorem Returns.spares {x : M α} {f : α → M β} {a : α} (hx : Returns x w a w')
    (hheld : w.Held t n w') (hf : Spares t n w' (f a E w')) : Spares t n w ((x >>= f) E w) := by
  rw [bind_of_ok (hx E)]
  exact hf.since hheld

/-!
# Variables that are closed
-/

theorem reads_metaEvent (v : Value) (e : Event) (w : World) : Reads (metaEvent v e) w := by
  have hmetatable : Reads (metatableOf v) w := by
    unfold metatableOf
    split
    · exact ⟨_, fun _ => rfl⟩
    · exact ⟨_, fun _ => rfl⟩
    · exact ⟨_, fun _ => rfl⟩
  refine hmetatable.bind fun m => ?_
  cases m with
  | none => exact Reads.pure _ w
  | some m => exact ⟨_, fun _ => rfl⟩

theorem errorObject_of_slot {th th' : Thread} (htop : th'.top = th.top)
    (hslot : th'.slot (th.top - 1) = th.slot (th.top - 1)) (s : Status) :
    th'.errorObject s = th.errorObject s := by
  unfold Thread.errorObject
  rw [htop, hslot]

theorem errorObject_placing (th : Thread) (s : Status) (i : Nat) :
    (th.placing s i).errorObject s = th.errorObject s := by
  have hslot : (th.placing s i).slot ((th.placing s i).top - 1) = th.errorObject s := by
    show (th.setSlot i _).slot (i + 1 - 1) = _
    rw [Thread.slot_setSlot, if_pos (Nat.add_sub_cancel i 1).symm]
  unfold Thread.errorObject at hslot ⊢
  cases s <;> first | rfl | exact hslot

/-- The error object and the arguments of a closing method, above the variable that is closed. -/
def closingThread (th : Thread) (i : Nat) (s : Status) (method : Value) : Thread :=
  (((th.placing s (i + 1)).push method).push (th.slot i)).push ((th.placing s (i + 1)).slot (i + 1))

theorem returns_pushAll_closing (hlive : w.liveThread t = true) (i : Nat) (s : Status) (method : Value) :
    Returns (pushAll t [method, (w.thread t).slot i, ((w.thread t).placing s (i + 1)).slot (i + 1)])
      (w.setThread t ((w.thread t).placing s (i + 1))) ()
      (w.setThread t (closingThread (w.thread t) i s method)) := by
  have hpush (th : Thread) (v : Value) :
      Returns (push t v) (w.setThread t th) () (w.setThread t (th.push v)) := by
    have hpush := returns_push (w.setThread t th) t v
    rw [World.thread_setThread hlive, World.setThread_setThread] at hpush
    exact hpush
  refine Returns.bind (hpush _ method) ?_
  refine Returns.bind (hpush _ ((w.thread t).slot i)) ?_
  exact Returns.bind (hpush _ _) (Returns.pure () _)

theorem callClosing_eq (hlive : w.liveThread t = true) (i : Nat) (s : Status) (y : Bool) :
    exists method, callClosing t i (some s) y E w =
      E.call t (i + 2) 0 y (w.setThread t (closingThread (w.thread t) i s method)) := by
  have hthread := World.thread_setThread hlive ((w.thread t).placing s (i + 1))
  rcases reads_metaEvent ((w.thread t).slot i) .close
    (w.setThread t ((w.thread t).placing s (i + 1))) with ⟨method, hmethod⟩
  refine ⟨method, (returns_slot w t i).andThen ?_⟩
  refine (returns_placeError w t s (i + 1) hlive).andThen ?_
  refine (returns_slot _ t (i + 1)).andThen (hmethod.andThen ((returns_top _ t).andThen ?_))
  rw [hthread]
  refine (returns_pushAll_closing hlive i s method).andThen ?_
  exact ok_andThen (x := read) (a := E) rfl rfl

theorem holds_closingThread (th : Thread) (hn : n ≤ i) (s : Status) (method : Value) :
    th.Holds n (closingThread th i s method) := by
  have hplacing := (Thread.Holds.refl n th).placing (Nat.le_succ_of_le hn) s
  exact ((hplacing.push (by show n ≤ i + 2; omega) _).push (by show n ≤ i + 3; omega) _).push
    (by show n ≤ i + 4; omega) _

theorem slot_closingThread (th : Thread) (i : Nat) (s : Status) (method : Value) :
    (closingThread th i s method).slot (i + 1) = (th.placing s (i + 1)).slot (i + 1) := by
  unfold closingThread
  rw [Thread.slot_push, if_neg (by show i + 4 ≠ i + 1; omega), Thread.slot_push,
    if_neg (by show i + 3 ≠ i + 1; omega), Thread.slot_push,
    if_neg (by show i + 2 ≠ i + 1; omega)]

theorem base_closingThread (th : Thread) (i : Nat) (s : Status) (method : Value) :
    (closingThread th i s method).base = th.base := by
  unfold closingThread
  rw [Thread.base_push, Thread.base_push, Thread.base_push]
  exact Thread.base_setSlot _ _ _

/-- A closing method that is called for an error, and returns, leaves the error object on top. -/
theorem callClosing_spares (hE : E.Sparing) (hlive : w.liveThread t = true) (hn : n ≤ i)
    (hbase : (w.thread t).base ≤ n) (s : Status) (y : Bool) :
    Spares t n w (callClosing t i (some s) y E w) ∧
      forall u, callClosing t i (some s) y E w = .ok () u →
        (u.thread t).errorObject s = (w.thread t).errorObject s := by
  rcases callClosing_eq (E := E) hlive i s y with ⟨method, hrun⟩
  have hth := World.thread_setThread hlive (closingThread (w.thread t) i s method)
  have hheld := World.held_setThread hlive (holds_closingThread (w.thread t) hn s method)
  have hcall := hE t (i + 2) 0 y (w.setThread t (closingThread (w.thread t) i s method))
  rw [hrun]
  refine ⟨(hcall.1.mono (by omega)).since hheld, fun u hu => ?_⟩
  rw [hu] at hcall
  rcases hcall with ⟨hspares, _, htop⟩
  cases hspares with
  | returns hcalled =>
      have hslots := hcalled.holds.below
      rw [hth] at hslots
      have hobject : (u.thread t).slot (i + 1) = ((w.thread t).placing s (i + 1)).slot (i + 1) := by
        rw [hslots.slot_eq (i + 1) (by omega) (by rw [base_closingThread]; omega)]
        exact slot_closingThread (w.thread t) i s method
      have htopped : (u.thread t).top = ((w.thread t).placing s (i + 1)).top := htop (Int.le_refl 0)
      rw [← errorObject_placing (w.thread t) s (i + 1)]
      exact errorObject_of_slot htopped hobject s

theorem closePending_spares (hE : E.Sparing) (hlive : w.liveThread t = true) (hn : n ≤ level)
    (hbase : (w.thread t).base ≤ n) (s : Status) (y : Bool) (fuel : Nat) :
    Spares t n w (closePending t level (some s) y fuel E w) ∧
      forall u, closePending t level (some s) y fuel E w = .ok () u →
        (u.thread t).errorObject s = (w.thread t).errorObject s := by
  have hdone : forall w : World, w.liveThread t = true →
      Spares t n w ((pure () : M Unit) E w) ∧ forall u, (pure () : M Unit) E w = .ok () u →
        (u.thread t).errorObject s = (w.thread t).errorObject s := by
    intro w hlive
    refine ⟨.returns (.refl n hlive), fun u hu => ?_⟩
    cases hu
    rfl
  -- one variable is closed in each round, and taken off the list before its method is called
  induction fuel generalizing w with
  | zero => exact hdone w hlive
  | succ fuel ih =>
      cases hlist : (w.thread t).toClose with
      | nil =>
          have hrun : closePending t level (some s) y (fuel + 1) E w = (pure () : M Unit) E w := by
            refine (returns_thread w t).andThen ?_
            rw [hlist]
          rw [hrun]
          exact hdone w hlive
      | cons i rest =>
          by_cases hi : level ≤ i
          · have hrun : closePending t level (some s) y (fuel + 1) E w = (do
                callClosing t i (some s) y
                closePending t level (some s) y fuel : M Unit) E
                (w.setThread t { w.thread t with toClose := rest }) := by
              refine (returns_thread w t).andThen ?_
              rw [hlist]
              dsimp only
              rw [if_pos hi]
              exact (returns_modifyThread w t _).andThen rfl
            have hthread := World.thread_setThread hlive { w.thread t with toClose := rest }
            have hheld : w.Held t n (w.setThread t { w.thread t with toClose := rest }) :=
              World.held_setThread hlive ⟨rfl, rfl, rfl, fun _ _ _ => rfl⟩
            rcases callClosing_spares hE hheld.live (Nat.le_trans hn hi)
              (hheld.holds.below.base_eq ▸ hbase) s y with ⟨hspares, hobject⟩
            rw [hrun]
            refine ⟨(hspares.bind fun _ w' _ hheld' => ?_).since hheld, fun u hu => ?_⟩
            · exact (ih hheld'.live ((hheld.trans hheld').holds.below.base_eq ▸ hbase)).1
            · rcases ok_bind hu with ⟨_, w', hcall, hrest⟩
              rw [hcall] at hspares
              cases hspares with
              | returns hheld' =>
                  rw [(ih hheld'.live ((hheld.trans hheld').holds.below.base_eq ▸ hbase)).2 u hrest,
                    hobject w' hcall, hthread]
                  rfl
          · have hrun : closePending t level (some s) y (fuel + 1) E w = (pure () : M Unit) E w := by
              refine (returns_thread w t).andThen ?_
              rw [hlist]
              dsimp only
              rw [if_neg hi]
            rw [hrun]
            exact hdone w hlive

theorem closeFrom_spares (hE : E.Sparing) (hlive : w.liveThread t = true) (hn : n ≤ level)
    (hbase : (w.thread t).base ≤ n) (s : Status) (y : Bool) :
    Spares t n w (closeFrom t level (some s) y E w) ∧
      forall u, closeFrom t level (some s) y E w = .ok () u → Closes E t level s y w u := by
  rcases returns_closeUpvalues hlive level with ⟨w₁, ups, hclose, hlive₁, hthread⟩
  have hheld : w.Held t n w₁ := by
    refine ⟨hlive₁, ?_⟩
    rw [hthread]
    exact ⟨rfl, rfl, rfl, fun _ _ _ => rfl⟩
  have hrun : closeFrom t level (some s) y E w =
      closePending t level (some s) y (w₁.thread t).toClose.length E w₁ :=
    hclose.andThen ((returns_thread w₁ t).andThen rfl)
  rcases closePending_spares hE hlive₁ hn (hheld.holds.below.base_eq ▸ hbase) s y
    (w₁.thread t).toClose.length with ⟨hspares, hobject⟩
  rw [hrun]
  refine ⟨hspares.since hheld, fun u hu => ?_⟩
  have hu' := hu
  rw [hu'] at hspares
  cases hspares with
  | returns hheld' =>
      refine ⟨hrun.trans hu, hheld'.live, (hobject u hu).trans ?_⟩
      rw [hthread]
      rfl

/-!
# Protected sections
-/

/-- What a section for the thread does not catch goes through it. -/
theorem attempt_of_passing {body : M α} {r : Raise} (hforeign : forall s, r ≠ .error t s)
    (h : body E (w.setThread t (w.thread t).guarding) = .error r u) :
    exists u', attempt t body E w = .error r u' := by
  cases r with
  | error t' s =>
      have hne : t' ≠ t := by
        intro heq
        exact hforeign s (by rw [heq])
      have hcatch : (do
          modifyThread t fun th => th.nestedAs (w.thread t)
          if t' = t then return .error s else throw (.error t' s) : M (Except Status α)) E u =
            .error (.error t' s) (u.setThread t ((u.thread t).nestedAs (w.thread t))) := by
        refine (returns_modifyThread u t _).andThen ?_
        rw [if_neg hne]
        rfl
      refine ⟨u.setThread t ((u.thread t).nestedAs (w.thread t)), (returns_thread w t).andThen ?_⟩
      refine (returns_modifyThread w t _).andThen ?_
      exact catch_of_error (bind_of_error h _) hcatch
  | _ =>
      refine ⟨u.setThread t { u.thread t with guards := (w.thread t).guards },
        (returns_thread w t).andThen ?_⟩
      refine (returns_modifyThread w t _).andThen ?_
      exact catch_of_error (bind_of_error h _) ((returns_modifyThread u t _).andThen rfl)

/-- The world of a section that protects the thread. -/
def guardedWorld (t : ThreadId) (w : World) : World := w.setThread t (w.thread t).guarding

theorem held_back (hlive : w.liveThread t = true) (h : (guardedWorld t w).Held t n u) :
    w.Held t n (backFrom t w u) := by
  have hthread : (guardedWorld t w).thread t = (w.thread t).guarding := World.thread_setThread hlive _
  have hholds := h.holds
  rw [hthread] at hholds
  refine ⟨(World.liveThread_setThread u t t _).trans h.live, ?_⟩
  unfold backFrom
  rw [World.thread_setThread h.live]
  exact ⟨hholds.calls_eq, rfl, hholds.below.base_eq, hholds.below.slot_eq⟩

theorem abandoned_back (hlive : w.liveThread t = true) (h : (guardedWorld t w).Abandoned t n u) :
    w.Abandoned t n (backFrom t w u) := by
  have hthread : (guardedWorld t w).thread t = (w.thread t).guarding := World.thread_setThread hlive _
  have hcalls := h.calls_le
  have hbelow := h.below
  rw [hthread] at hcalls hbelow
  refine ⟨(World.liveThread_setThread u t t _).trans h.live, ?_, ?_⟩
  · unfold backFrom
    rw [World.thread_setThread h.live]
    exact hcalls
  · unfold backFrom
    rw [World.thread_setThread h.live]
    exact ⟨hbelow.base_eq, hbelow.slot_eq⟩

/-- Where an error has given up calls, the values below are held. -/
theorem held_unwound (h : w.Abandoned t n u) (hguards : (u.thread t).guards = (w.thread t).guards)
    (allowed : Bool) :
    w.Held t n (u.setThread t ((u.thread t).cutTo (w.thread t).frames.size allowed)) := by
  refine ⟨(World.liveThread_setThread u t t _).trans h.live, ?_⟩
  rw [World.thread_setThread h.live]
  refine ⟨?_, hguards, h.below.base_eq, h.below.slot_eq⟩
  have hcalls := h.calls_le
  unfold Thread.cutTo
  rw [Array.take_eq_extract, Array.size_extract]
  omega

/-- Behind a protected section that closes variables the values below are held, and the status is
that of an error, unless the computation is left altogether. -/
theorem closeProtectedLoop_spares (hE : E.Sparing) {frames : Nat} (allowed : Bool) (fuel : Nat)
    (hlive : w.liveThread t = true) (hframes : (w.thread t).frames.size = frames)
    (hn : n ≤ level) (hbase : (w.thread t).base ≤ n) (hs : s.isError = true) :
    (exists s' u, closeProtectedLoop t level s frames allowed fuel E w = .ok s' u ∧
        s'.isError = true ∧ w.Held t n u) ∨
      exists r u, closeProtectedLoop t level s frames allowed fuel E w = .error r u ∧
        forall s, r ≠ .error t s := by
  -- an error of a closing method takes the place of the one before, and the rest of the variables
  -- is closed
  induction fuel generalizing w s with
  | zero => exact Or.inl ⟨s, w, rfl, hs, .refl n hlive⟩
  | succ fuel ih =>
      have hthread : (guardedWorld t w).thread t = (w.thread t).guarding :=
        World.thread_setThread hlive _
      have hlive' : (guardedWorld t w).liveThread t = true :=
        (World.liveThread_setThread w t t _).trans hlive
      have hbase' : ((guardedWorld t w).thread t).base ≤ n := by
        rw [hthread]
        exact hbase
      rcases closeFrom_spares hE hlive' hn hbase' s false with ⟨hspares, _⟩
      generalize hclose : closeFrom t level (some s) false E (guardedWorld t w) = o at hspares
      cases hspares with
      | @returns _ u hheld =>
          have hprotect : protect t (closeFrom t level (some s) false) E w =
              .ok .ok (backFrom t w u) := ok_andThen (attempt_of_ok hclose) rfl
          exact Or.inl ⟨s, backFrom t w u, ok_andThen hprotect rfl, hs, held_back hlive hheld⟩
      | @fails s' u hs' habandoned =>
          have hprotect : protect t (closeFrom t level (some s) false) E w =
              .ok s' (backFrom t w u) := ok_andThen (attempt_of_error hclose) rfl
          have hback := abandoned_back hlive habandoned
          have hguards : ((backFrom t w u).thread t).guards = (w.thread t).guards := by
            unfold backFrom
            rw [World.thread_setThread habandoned.live]
            rfl
          have hheld := held_unwound hback hguards allowed
          rw [hframes] at hheld
          have hloop : closeProtectedLoop t level s frames allowed (fuel + 1) E w =
              closeProtectedLoop t level s' frames allowed fuel E
                ((backFrom t w u).setThread t (((backFrom t w u).thread t).cutTo frames allowed)) := by
            refine ok_andThen hprotect ?_
            split
            · cases hs'
            · exact (returns_modifyThread (backFrom t w u) t _).andThen rfl
          rw [hloop]
          rcases ih hheld.live (hheld.holds.calls_eq.trans hframes)
              (hheld.holds.below.base_eq ▸ hbase) hs' with
            ⟨s'', u', hrun, hs'', hheld'⟩ | hpasses
          · exact Or.inl ⟨s'', u', hrun, hs'', hheld.trans hheld'⟩
          · exact Or.inr hpasses
      | @passes r u hforeign =>
          rcases attempt_of_passing hforeign hclose with ⟨u', hattempt⟩
          have hprotect : protect t (closeFrom t level (some s) false) E w = .error r u' :=
            bind_of_error hattempt _
          exact Or.inr ⟨r, u', bind_of_error hprotect _, hforeign⟩

end Sparing

/-!
# Protected calls
-/

/-- The world in which a protected call runs its section. -/
def shieldedWorld (t : ThreadId) (handler : Nat) (w : World) : World :=
  w.setThread t ((w.thread t).withHandler handler).guarding

/-- The world in which a protected call, that began in the world `w` and whose section an error has
left in the world `u`, closes the variables that the section leaves behind. -/
def closingWorld (t : ThreadId) (w u : World) : World := guardedWorld t (unwound t w u)

/-- What becomes of a protected call that puts an error object in the slot `level`, by what becomes of
its section.  The values below are carried along in any case.  The object is the one of the error that
left the section, unless a variable cannot be closed. -/
inductive Shields (E : Engine) (t : ThreadId) (level n : Nat) (w : World) :
    Outcome Unit → Outcome Status → Prop where
  | returns {u w' : World} : w.Carried [] t n w' → (u.thread t).Alike (w'.thread t) →
      Shields E t level n w (.ok () u) (.ok .ok w')
  | fails {s : Status} {u v w' : World} : s.isError = true →
      closeFrom t level (some s) false E (closingWorld t w u) = .ok () v →
      w.Carried [] t n w' → (w'.thread t).top = level + 1 →
      (w'.thread t).slot level = (u.thread t).errorObject s →
      Shields E t level n w (.error (.error t s) u) (.ok s w')
  | failsAgain {s s' : Status} {u w' : World} :
      (forall v, closeFrom t level (some s) false E (closingWorld t w u) ≠ .ok () v) →
      s'.isError = true → w.Carried [] t n w' → (w'.thread t).top = level + 1 →
      Shields E t level n w (.error (.error t s) u) (.ok s' w')
  | breaks {s : Status} {r : Raise} {u w' : World} :
      (forall v, closeFrom t level (some s) false E (closingWorld t w u) ≠ .ok () v) →
      (forall s, r ≠ .error t s) →
      Shields E t level n w (.error (.error t s) u) (.error r w')
  | passes {r : Raise} {u w' : World} : (forall s, r ≠ .error t s) →
      Shields E t level n w (.error r u) (.error r w')

section Shielding

variable {t : ThreadId} {n level handler : Nat} {w u u' : World} {E : Engine} {s s' : Status}
  {body : M Unit} {r : Raise}

theorem returns_unwindTo (w : World) (hlive : u.liveThread t = true) :
    Returns (unwindTo t (w.thread t).frames.size (w.thread t).hook.allowed) (backFrom t w u) ()
      (unwound t w u) := by
  have hcut := returns_modifyThread (backFrom t w u) t
    (·.cutTo (w.thread t).frames.size (w.thread t).hook.allowed)
  unfold backFrom at hcut
  rw [World.thread_setThread hlive, World.setThread_setThread] at hcut
  exact hcut

/-- A section that is left by more than an error of the thread leaves the protected call, too. -/
theorem runProtected_of_passing (level : Nat) (hlive : w.liveThread t = true)
    (hforeign : forall s, r ≠ .error t s)
    (h : body E (shieldedWorld t handler w) = .error r u) :
    exists u', runProtected t level handler body E w = .error r u' := by
  have hattempt : exists u', attempt t body E (w.setThread t ((w.thread t).withHandler handler)) =
      .error r u' := by
    refine attempt_of_passing (u := u) hforeign ?_
    rw [World.thread_setThread hlive, World.setThread_setThread]
    exact h
  rcases hattempt with ⟨u', hattempt⟩
  have hfrom : attemptFrom t level handler body E w = .error r u' := by
    refine (returns_thread w t).andThen ?_
    refine (returns_modifyThread w t _).andThen ?_
    exact bind_of_error hattempt _
  exact ⟨u', bind_of_error hfrom _⟩

/-- So does what leaves the closing of variables. -/
theorem runProtected_of_breaking (hlive : w.liveThread t = true) (hlive' : u.liveThread t = true)
    (h : body E (shieldedWorld t handler w) = .error (.error t s) u)
    (hclose : closeProtected t level s E (unwound t w u) = .error r u') :
    runProtected t level handler body E w = .error r u' := by
  have hattempt : attempt t body E (w.setThread t ((w.thread t).withHandler handler)) =
      .ok (.error s) (backFrom t w u) := by
    have hcaught : attempt t body E (w.setThread t ((w.thread t).withHandler handler)) = _ :=
      attempt_of_error (by
        rw [World.thread_setThread hlive, World.setThread_setThread]
        exact h)
    rw [World.thread_setThread hlive] at hcaught
    exact hcaught
  have hfrom : attemptFrom t level handler body E w = .error r u' := by
    refine (returns_thread w t).andThen ?_
    refine (returns_modifyThread w t _).andThen ?_
    refine ok_andThen hattempt ?_
    exact (returns_unwindTo w hlive').andThen (bind_of_error hclose _)
  exact bind_of_error hfrom _

theorem carried_unwound (hlive : w.liveThread t = true)
    (h : (shieldedWorld t handler w).Abandoned t n u) : w.Held t n (unwound t w u) := by
  have hthread : (shieldedWorld t handler w).thread t = ((w.thread t).withHandler handler).guarding :=
    World.thread_setThread hlive _
  have hcalls := h.calls_le
  have hbelow := h.below
  rw [hthread] at hcalls hbelow
  refine ⟨(World.liveThread_setThread u t t _).trans h.live, ?_⟩
  unfold unwound
  rw [World.thread_setThread h.live]
  refine ⟨?_, rfl, hbelow.base_eq, hbelow.slot_eq⟩
  have hsize : (w.thread t).frames.size ≤ (u.thread t).frames.size := hcalls
  show ((u.thread t).frames.take (w.thread t).frames.size).size = _
  rw [Array.take_eq_extract, Array.size_extract]
  omega

theorem errorObject_closingWorld (hlive : u.liveThread t = true) (s : Status) :
    ((closingWorld t w u).thread t).errorObject s = (u.thread t).errorObject s := by
  have hlive' : (unwound t w u).liveThread t = true := (World.liveThread_setThread u t t _).trans hlive
  unfold closingWorld guardedWorld
  rw [World.thread_setThread hlive']
  unfold unwound
  rw [World.thread_setThread hlive]
  rfl

/-- When the variables are closed after an error, the error object is at the level. -/
theorem runProtected_closed {s' : Status} {u' : World} (hlive : w.liveThread t = true) (hn : n ≤ level)
    (hrun : body E (shieldedWorld t handler w) = .error (.error t s) u) (hlive' : u.liveThread t = true)
    (hclosed : closeProtected t level s E (unwound t w u) = .ok s' u') (hheld : w.Held t n u') :
    exists w', runProtected t level handler body E w = .ok s' w' ∧ w.Carried [] t n w' ∧
      (w'.thread t).top = level + 1 ∧ (w'.thread t).slot level = (u'.thread t).errorObject s' := by
  have hunwind := returns_unwindTo w hlive'
  rcases runProtected_of_error hlive hheld.live hrun (hunwind.andThen hclosed) with
    ⟨th, halike, hprotected⟩
  have hthread := World.thread_setThread hheld.live th
  refine ⟨_, hprotected, ⟨(World.liveThread_setThread u' t t th).trans hheld.live, ?_, nofun⟩, ?_, ?_⟩
  · rw [hthread]
    exact (hheld.holds.placing hn s').below.trans (halike.sameBelow n).sameUpTo
  · rw [hthread]
    exact halike.top_eq
  · rw [hthread, halike.slot_eq]
    show ((u'.thread t).setSlot level _).slot level = _
    rw [Thread.slot_setSlot, if_pos rfl]

theorem runProtected_fails (hE : E.Sparing) (hlive : w.liveThread t = true) (hn : n ≤ level)
    (hbase : (w.thread t).base ≤ n) (hs : s.isError = true)
    (habandoned : (shieldedWorld t handler w).Abandoned t n u)
    (hrun : body E (shieldedWorld t handler w) = .error (.error t s) u) :
    Shields E t level n w (.error (.error t s) u) (runProtected t level handler body E w) := by
  have hunwound := carried_unwound hlive habandoned
  have hbase' : ((unwound t w u).thread t).base ≤ n := hunwound.holds.below.base_eq ▸ hbase
  -- only where no closing method fails is the error object the one of the error
  by_cases hcloses : exists v, closeFrom t level (some s) false E (closingWorld t w u) = .ok () v
  · rcases hcloses with ⟨v, hcloses⟩
    have hlive' : (closingWorld t w u).liveThread t = true :=
      (World.liveThread_setThread _ t t _).trans hunwound.live
    have hclosing : ((closingWorld t w u).thread t).base ≤ n := by
      unfold closingWorld guardedWorld
      rw [World.thread_setThread hunwound.live]
      exact hbase'
    rcases closeFrom_spares hE hlive' hn hclosing s false with ⟨hspares, hkept⟩
    have hclosed := hkept v hcloses
    rw [hcloses] at hspares
    have hguarded : (unwound t w u).Held t n (backFrom t (unwound t w u) v) := by
      cases hspares with
      | returns hheld => exact held_back hunwound.live hheld
    rcases runProtected_closed hlive hn hrun habandoned.live hclosed.closeProtected
      (hunwound.trans hguarded) with ⟨w', hprotected, hcarried, htop, hslot⟩
    rw [hprotected]
    refine .fails hs hcloses hcarried htop (hslot.trans ?_)
    rw [← errorObject_closingWorld (w := w) habandoned.live s, ← hclosed.object_eq]
    unfold backFrom
    rw [World.thread_setThread hclosed.live]
    rfl
  · have hfailing : forall v, closeFrom t level (some s) false E (closingWorld t w u) ≠ .ok () v :=
      fun v hv => hcloses ⟨v, hv⟩
    have hloop := closeProtectedLoop_spares hE ((unwound t w u).thread t).hook.allowed
      (((unwound t w u).thread t).toClose.length + 1) hunwound.live rfl hn hbase' hs
    rcases hloop with ⟨s', u', hclosed, hs', hheld⟩ | ⟨r, u', hbroken, hforeign⟩
    · have hclosed : closeProtected t level s E (unwound t w u) = .ok s' u' :=
        (returns_thread _ t).andThen hclosed
      rcases runProtected_closed hlive hn hrun habandoned.live hclosed (hunwound.trans hheld) with
        ⟨w', hprotected, hcarried, htop, _⟩
      rw [hprotected]
      exact .failsAgain hfailing hs' hcarried htop
    · have hbroken : closeProtected t level s E (unwound t w u) = .error r u' :=
        (returns_thread _ t).andThen hbroken
      rw [runProtected_of_breaking hlive habandoned.live hrun hbroken]
      exact .breaks hfailing hforeign

theorem runProtected_shields (hE : E.Sparing) (hlive : w.liveThread t = true) (hn : n ≤ level)
    (hbase : (w.thread t).base ≤ n)
    (hbody : Spares t n (shieldedWorld t handler w) (body E (shieldedWorld t handler w))) :
    Shields E t level n w (body E (shieldedWorld t handler w))
      (runProtected t level handler body E w) := by
  have hthread : (shieldedWorld t handler w).thread t = ((w.thread t).withHandler handler).guarding :=
    World.thread_setThread hlive _
  generalize hrun : body E (shieldedWorld t handler w) = o at hbody
  cases hbody with
  | @returns _ u hheld =>
      rcases runProtected_of_ok level hlive hheld.live hrun with ⟨th, halike, hprotected⟩
      rw [hprotected]
      have hbelow := hheld.holds.below
      rw [hthread] at hbelow
      have hthread' := World.thread_setThread hheld.live th
      refine .returns ⟨(World.liveThread_setThread u t t th).trans hheld.live, ?_, nofun⟩ ?_
      · rw [hthread']
        exact Thread.SameUpTo.trans ⟨hbelow.base_eq, hbelow.slot_eq⟩ (halike.sameBelow n).sameUpTo
      · rw [hthread']
        exact halike
  | fails hs habandoned => exact runProtected_fails hE hlive hn hbase hs habandoned hrun
  | @passes r u hforeign =>
      rcases runProtected_of_passing level hlive hforeign hrun with ⟨u', hprotected⟩
      rw [hprotected]
      exact .passes hforeign

end Shielding

end Machine

end LuaHost
