import LuaHost.UserData.Binding
import LuaHost.Proofs.Interface.Room

/-!
# Finalizing a bound value

The handler of finalization looks at its first argument.  Only a userdata with
the shared metatable whose block is alive is finalized: its type is told, the
value is dropped, and the block is dead from then on.
-/

namespace LuaHost

/-!
# Arguments
-/

namespace Thread

/-- An argument of the running call, counted from zero; `nil` if it is missing. -/
def argument (th : Thread) (i : Nat) : Value :=
  if th.base + i < th.top then th.slot (th.base + i) else .nil

theorem Alike.argument_eq {th th' : Thread} (h : th.Alike th') (i : Nat) :
    th'.argument i = th.argument i := by
  unfold argument
  rw [h.base_eq, h.top_eq, h.slot_eq]

end Thread

namespace Machine

theorem returns_argument (w : World) (t : ThreadId) {idx : Int} (hidx : 0 < idx) :
    Returns (value t idx) w ((w.thread t).argument (idx.toNat - 1)) w := by
  have hslot : (w.thread t).base + (idx.toNat - 1) = (w.thread t).frame.func + idx.toNat := by
    have hbase : (w.thread t).base = (w.thread t).frame.func + 1 := rfl
    omega
  unfold Thread.argument
  rw [hslot]
  by_cases h : (w.thread t).frame.func + idx.toNat < (w.thread t).top
  · have hplace : Returns (place t idx) w (.slot ((w.thread t).frame.func + idx.toNat)) w := by
      refine Returns.bind (returns_thread w t) ?_
      rw [if_pos hidx]
      dsimp only
      rw [if_pos h]
      exact Returns.pure _ w
    rw [if_pos h]
    exact Returns.bind hplace (Returns.bind (returns_thread w t) (Returns.pure _ w))
  · have hplace : Returns (place t idx) w .nowhere w := by
      refine Returns.bind (returns_thread w t) ?_
      rw [if_pos hidx]
      dsimp only
      rw [if_neg h]
      exact Returns.pure _ w
    rw [if_neg h]
    exact Returns.bind hplace (Returns.pure _ w)

/-!
# Raising never returns
-/

theorem throw_ne_ok {α : Type} (r : Raise) (E : Engine) (w : World) (a : α) (w' : World) :
    (throw r : M α) E w ≠ .ok a w' :=
  nofun

theorem throwStatus_ne_ok {α : Type} (t : ThreadId) (s : Status) (E : Engine) (w : World) (a : α)
    (w' : World) : throwStatus t s E w ≠ .ok a w' := by
  intro h
  unfold throwStatus at h
  rcases ok_bind h with ⟨th, w₁, _, h⟩
  split at h
  · exact throw_ne_ok _ E _ a w' h
  · rcases ok_bind h with ⟨_, _, _, h⟩
    rcases ok_bind h with ⟨_, _, _, h⟩
    rcases ok_bind h with ⟨_, _, _, h⟩
    rcases ok_bind h with ⟨_, _, _, h⟩
    rcases ok_bind h with ⟨_, _, _, h⟩
    exact throw_ne_ok _ E _ a w' h

theorem throwTop_ne_ok {α : Type} (t : ThreadId) (E : Engine) (w : World) (a : α) (w' : World) :
    throwTop t E w ≠ .ok a w' := by
  intro h
  unfold throwTop at h
  rcases ok_bind h with ⟨_, _, _, h⟩
  dsimp only at h
  split at h
  · rcases ok_bind h with ⟨_, _, _, h⟩
    rcases ok_bind h with ⟨_, _, _, h⟩
    rcases ok_bind h with ⟨_, _, _, h⟩
    rcases ok_bind h with ⟨_, _, _, h⟩
    rcases ok_bind h with ⟨_, _, _, h⟩
    rcases ok_bind h with ⟨_, _, _, h⟩
    rcases ok_bind h with ⟨_, _, _, h⟩
    exact throwStatus_ne_ok t _ E _ a w' h
  · exact throwStatus_ne_ok t _ E _ a w' h

theorem raiseTop_ne_ok {α : Type} (t : ThreadId) (E : Engine) (w : World) (a : α) (w' : World) :
    raiseTop t E w ≠ .ok a w' := by
  intro h
  unfold raiseTop at h
  rcases ok_bind h with ⟨_, _, _, h⟩
  rcases ok_bind h with ⟨_, _, _, h⟩
  split at h
  · exact throwStatus_ne_ok t _ E _ a w' h
  · exact throwTop_ne_ok t E _ a w' h

end Machine

namespace Interface

open Machine

theorem raiseTop_ne_ok {α : Type} (t : ThreadId) (E : Engine) (w : World) (a : α) (w' : World) :
    raiseTop t E w ≠ .ok a w' := by
  intro h
  unfold raiseTop at h
  rcases ok_bind h with ⟨_, _, _, h⟩
  split at h
  · rcases ok_bind h with ⟨_, _, h, _⟩
    cases h
  · exact Machine.raiseTop_ne_ok t E _ a w' h

/-- Guarded host code that returned did so without a panic. -/
theorem ok_guarded {t : ThreadId} {body : M Nat} {E : Engine} {w w' : World} {n : Nat}
    (h : guarded t body E w = .ok n w') : body E w = .ok n w' := by
  have hcatch : EStateM.tryCatch (body E) (fun _ => _) w = .ok n w' := h
  unfold EStateM.tryCatch at hcatch
  cases hbody : body E w with
  | ok m w₁ =>
      rw [hbody] at hcatch
      exact hcatch
  | error r w₁ =>
      rw [hbody] at hcatch
      cases r with
      | panic payload =>
          rcases ok_bind hcatch with ⟨_, _, _, hcatch⟩
          rcases ok_bind hcatch with ⟨_, _, _, hcatch⟩
          exact absurd hcatch (raiseTop_ne_ok t E _ n w')
      | error _ _ => cases hcatch
      | yield _ => cases hcatch
      | exit _ => cases hcatch
      | exhausted => cases hcatch

end Interface

/-!
# Bound userdata of a world
-/

namespace World

def userdata (w : World) (u : UserDataId) : UserData := w.heap.userdata.get u.index

/-- What the registry holds under the name of the shared metatable. -/
def shared (w : World) : Value :=
  (w.heap.tables.get w.registry.index).get (.str (Interface.cutName Interface.sharedMetatable))

/-- Whether a userdata has the shared metatable. -/
def isShared (w : World) (u : UserDataId) : Bool :=
  match (w.userdata u).metatable with
  | some m => (Value.table m).rawEq w.shared
  | none => false

/-- The block of a userdata, if it has one. -/
def block? (w : World) (u : UserDataId) : Option Block :=
  match (w.userdata u).payload with
  | .block b => some b
  | _ => none

/-- The bound userdata that a value is, with its block. -/
def boundTo (w : World) : Value -> Option (UserDataId × Block)
  | .userdata u => if w.isShared u then (w.block? u).map fun b => (u, b) else none
  | _ => none

theorem of_boundTo {w : World} {v : Value} {u : UserDataId} {b : Block}
    (h : w.boundTo v = some (u, b)) : v = .userdata u ∧ w.block? u = some b := by
  cases v with
  | userdata u' =>
      unfold World.boundTo at h
      dsimp only at h
      split at h
      · cases hb : w.block? u' with
        | none =>
            rw [hb] at h
            cases h
        | some b' =>
            rw [hb] at h
            cases h
            exact ⟨rfl, hb⟩
      · cases h
  | _ => cases h

/-- The block of a userdata is dead. -/
def bury (w : World) (u : UserDataId) : World :=
  { w with heap := { w.heap with userdata := w.heap.userdata.modify u.index fun d =>
      { d with payload := match d.payload with
        | .block b => .block { b with alive := false }
        | p => p } } }

/-- Another side of the host, about the same machine. -/
def withHost (w : World) (events : List String) (log : List LogRecord) (outside : Outside) :
    World :=
  { w with events, log, outside }

end World

namespace Interface

open Machine

theorem returns_blockOf (w : World) (u : UserDataId) : Returns (blockOf u) w (w.block? u) w :=
  fun _ => rfl

theorem returns_hasNamedMetatable (w : World) (u : UserDataId) :
    Returns (hasNamedMetatable (.userdata u) (cutName sharedMetatable)) w (w.isShared u) w := by
  have hmeta : Returns (metatableOf (.userdata u)) w (w.userdata u).metatable w := fun _ => rfl
  refine Returns.bind hmeta ?_
  unfold World.isShared
  cases (w.userdata u).metatable with
  | none => exact Returns.pure _ w
  | some m => exact fun _ => rfl

theorem reads_hasNamedMetatable (w : World) (v : Value) (name : Bytes) :
    Reads (hasNamedMetatable v name) w := by
  have hmeta : Reads (metatableOf v) w := by
    cases v <;> exact ⟨_, fun _ => rfl⟩
  refine Reads.bind hmeta fun m? => ?_
  cases m? with
  | none => exact Reads.pure _ w
  | some m => exact ⟨_, fun _ => rfl⟩

/-- Looking for a bound userdata in the first argument changes at most how much
room there is. -/
theorem ok_boundAt {w w' : World} {t : ThreadId} (hlive : w.liveThread t = true) {E : Engine}
    {r : Option (UserDataId × Block)} (h : boundAt t 1 E w = .ok r w') :
    exists th, (w.thread t).Alike th ∧ w' = w.setThread t th ∧
      r = w.boundTo ((w.thread t).argument 0) := by
  unfold boundAt testUserData at h
  rcases ok_bind h with ⟨v?, w₁, htest, h⟩
  rcases ok_bind htest with ⟨_, w₂, hcheck, htest⟩
  have hindex : validIndex (w.thread t).height 1 = true := rfl
  have hchecked : Returns (checkIndex t 1) w () w := by
    refine Returns.bind (returns_height w t) ?_
    rw [hindex]
    exact Returns.pure _ w
  rcases hchecked.ok_eq hcheck with ⟨_, rfl⟩
  rcases ok_bind htest with ⟨_, w₃, hreserve, htest⟩
  rcases ok_reserve hreserve with ⟨th, halike, rfl⟩
  have hargument : Returns (value t 1) (w.setThread t th)
      (((w.setThread t th).thread t).argument 0) (w.setThread t th) :=
    returns_argument (w.setThread t th) t (by decide)
  rw [World.thread_setThread hlive, halike.argument_eq] at hargument
  have htest := hargument.ok_bind htest
  refine ⟨th, halike.toAlike, ?_⟩
  cases hv : (w.thread t).argument 0 with
  | userdata u =>
      rw [hv] at htest
      rcases ok_bind htest with ⟨ok, w₄, hnamed, htest⟩
      rcases (returns_hasNamedMetatable (w.setThread t th) u).ok_eq hnamed with ⟨hshared, rfl⟩
      cases htest
      have hbound : w.boundTo (.userdata u) =
          if ok = true then (w.block? u).map fun b => (u, b) else none := by
        rw [← hshared]
        rfl
      rw [hbound]
      cases ok with
      | false =>
          cases h
          exact ⟨rfl, rfl⟩
      | true =>
          have h := (returns_blockOf (w.setThread t th) u).ok_bind h
          cases h
          exact ⟨rfl, rfl⟩
  | light p =>
      rw [hv] at htest
      dsimp only at htest
      by_cases hp : (p == 0) = true
      · rw [if_pos hp] at htest
        cases htest
        cases h
        exact ⟨rfl, rfl⟩
      · rw [if_neg hp] at htest
        rcases ok_bind htest with ⟨ok, w₄, hnamed, htest⟩
        rcases reads_hasNamedMetatable (w.setThread t th) (.light p) (cutName sharedMetatable) with
          ⟨ok', hreads⟩
        rcases hreads.ok_eq hnamed with ⟨rfl, rfl⟩
        cases htest
        cases ok' with
        | false =>
            cases h
            exact ⟨rfl, rfl⟩
        | true =>
            cases h
            exact ⟨rfl, rfl⟩
  | _ =>
      rw [hv] at htest
      cases htest
      cases h
      exact ⟨rfl, rfl⟩

/-!
# What host code sees
-/

/-- What host code sees of a finalization. -/
inductive Sight where
  | hook (u : UserDataId)
  | drop (u : UserDataId)
deriving DecidableEq

/-- Bound types whose finalization hooks and destructors return without calling
back into the machine, and write down that they ran, so that `seen` reads it. -/
structure Attentive (types : BoundTypes) (seen : List String -> List Sight) : Prop where
  start : seen [] = []
  hook : forall type u t w, exists n events log outside,
    Returns ((types type).perform .gc u t) w n (w.withHost events log outside) ∧
      seen events = seen w.events ++ [.hook u]
  drop : forall type u v w, exists events log outside,
    Returns ((types type).drop u v) w () (w.withHost events log outside) ∧
      seen events = seen w.events ++ [.drop u]

/-- Bound types whose finalization hooks and destructors return without calling
back into the machine, and write down nothing that `seen` reads. -/
structure Quiet (types : BoundTypes) (seen : List String -> List Sight) : Prop where
  hook : forall type u t w, exists n events log outside,
    Returns ((types type).perform .gc u t) w n (w.withHost events log outside) ∧
      seen events = seen w.events
  drop : forall type u v w, exists events log outside,
    Returns ((types type).drop u v) w () (w.withHost events log outside) ∧
      seen events = seen w.events

/-- The same types, which write down first when they finalize a value. -/
def watched (types : BoundTypes) (mark : Sight -> String) : BoundTypes := fun type =>
  { types type with
    perform := fun
      | .gc, u, t => do
        recordEvent (mark (.hook u))
        (types type).perform .gc u t
      | m, u, t => (types type).perform m u t
    drop := fun u v => do
      recordEvent (mark (.drop u))
      (types type).drop u v }

variable {types : BoundTypes} {seen : List String -> List Sight}

theorem attentive_watched {mark : Sight -> String} (hquiet : Quiet types seen)
    (hstart : seen [] = [])
    (hmark : forall x events, seen (mark x :: events) = seen events ++ [x]) :
    Attentive (watched types mark) seen := by
  refine ⟨hstart, ?_, ?_⟩
  · intro type u t w
    rcases hquiet.hook type u t (w.withHost (mark (.hook u) :: w.events) w.log w.outside) with
      ⟨n, events, lg, outside, hrun, hseen⟩
    have hrecord : Returns (recordEvent (mark (.hook u))) w ()
        (w.withHost (mark (.hook u) :: w.events) w.log w.outside) := fun _ => rfl
    exact ⟨n, events, lg, outside, Returns.bind hrecord hrun, hseen.trans (hmark _ _)⟩
  · intro type u v w
    rcases hquiet.drop type u v (w.withHost (mark (.drop u) :: w.events) w.log w.outside) with
      ⟨events, lg, outside, hrun, hseen⟩
    have hrecord : Returns (recordEvent (mark (.drop u))) w ()
        (w.withHost (mark (.drop u) :: w.events) w.log w.outside) := fun _ => rfl
    exact ⟨events, lg, outside, Returns.bind hrecord hrun, hseen.trans (hmark _ _)⟩

theorem returns_finalizeBound_dead (types : BoundTypes) {w : World} {u : UserDataId} {b : Block}
    (hblock : w.block? u = some b) (hdead : b.alive = false) (t : ThreadId) :
    Returns (finalizeBound types t u) w () w := by
  refine Returns.bind (returns_blockOf w u) ?_
  rw [hblock]
  dsimp only
  rw [hdead]
  exact Returns.pure _ w

/-- A living value is told of its finalization first, and dropped then. -/
theorem returns_finalizeBound (hat : Attentive types seen) {w : World} {u : UserDataId} {b : Block}
    (hblock : w.block? u = some b) (halive : b.alive = true) (t : ThreadId) :
    exists events log outside,
      Returns (finalizeBound types t u) w () ((w.bury u).withHost events log outside) ∧
        seen events = seen w.events ++ [.hook u, .drop u] := by
  rcases hat.hook b.type u t w with ⟨n, events, lg, outside, hhook, hseen⟩
  have hvalue : Returns (hostValue u) (w.withHost events lg outside) b.value
      (w.withHost events lg outside) := by
    refine Returns.bind (returns_blockOf _ u) ?_
    rw [show (w.withHost events lg outside).block? u = some b from hblock]
    exact Returns.pure _ _
  rcases hat.drop b.type u b.value (w.withHost events lg outside) with
    ⟨events', lg', outside', hdrop, hseen'⟩
  refine ⟨events', ⟨.debug, "finalized " ++ (types b.type).fullName ++ " userdata at "
    ++ userdataAddress u⟩ :: lg', outside', ?_, ?_⟩
  · unfold finalizeBound
    refine Returns.bind (returns_blockOf w u) ?_
    rw [hblock]
    dsimp only
    rw [if_pos halive]
    refine Returns.bind hhook ?_
    refine Returns.bind hvalue ?_
    exact Returns.bind hdrop fun _ => rfl
  · rw [hseen', show (w.withHost events lg outside).events = events from rfl, hseen,
      List.append_assoc]
    rfl

/-- The handler of finalization, when it returns, has finalized its first
argument if that is bound and its block alive, and nothing otherwise. -/
theorem ok_answerGc (hat : Attentive types seen) {w w' : World} {t : ThreadId}
    (hlive : w.liveThread t = true) {E : Engine} {n : Nat}
    (h : answerOperation types .gc t E w = .ok n w') :
    exists th, (w.thread t).Alike th ∧
      ((w' = w.setThread t th ∧
          forall u b, w.boundTo ((w.thread t).argument 0) = some (u, b) -> b.alive = false) ∨
        exists u b events log outside,
          w.boundTo ((w.thread t).argument 0) = some (u, b) ∧ b.alive = true ∧
          w' = ((w.setThread t th).bury u).withHost events log outside ∧
          seen events = seen w.events ++ [.hook u, .drop u]) := by
  have h := ok_guarded h
  rcases ok_bind h with ⟨r, w₁, hbound, h⟩
  rcases ok_boundAt hlive hbound with ⟨th, halike, rfl, hr⟩
  refine ⟨th, halike, ?_⟩
  rw [← hr]
  cases r with
  | none =>
      cases h
      exact Or.inl ⟨rfl, nofun⟩
  | some ub =>
      rcases ub with ⟨u, b⟩
      have hblock : (w.setThread t th).block? u = some b := (World.of_boundTo hr.symm).2
      cases halive : b.alive with
      | false =>
          refine Or.inl ⟨?_, ?_⟩
          · rcases ok_bind h with ⟨_, w₂, hfinal, h⟩
            rcases (returns_finalizeBound_dead types hblock halive t).ok_eq hfinal with ⟨_, rfl⟩
            cases h
            rfl
          · intro u' b' heq
            cases heq
            exact halive
      | true =>
          rcases returns_finalizeBound hat hblock halive t with
            ⟨events, lg, outside, hfinal, hseen⟩
          have h := hfinal.ok_bind h
          cases h
          exact Or.inr ⟨u, b, events, lg, outside, rfl, halive, rfl, hseen⟩

end Interface

end LuaHost
