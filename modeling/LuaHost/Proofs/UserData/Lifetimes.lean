import Mathlib.Logic.Relation
import LuaHost.Interface.Opening
import LuaHost.Proofs.Machine.Cycles
import LuaHost.Proofs.UserData.Pushing

/-!
# Exactly one finalization

The collector, scripts that have the handler of finalization, and the closing
of the machine may each ask for the finalization of a userdata, in any order and
repeatedly.  Whoever comes first finalizes the value; the others find its block
dead.
-/

namespace LuaHost

/-!
# Runs
-/

/-- The userdata that a sight is about. -/
def Interface.Sight.subject : Interface.Sight -> UserDataId
  | .hook u => u
  | .drop u => u

namespace Lifetimes

open Interface Machine

/-- A machine, with the userdata into which values were pushed before it began
to close, and while it was closing, and what scripts gave to the handler of
finalization. -/
structure State where
  world : World
  pushed : List UserDataId := []
  late : List UserDataId := []
  asked : List Value := []

variable {types : BoundTypes} {seen : List String -> List Sight}

/-- What host code has seen of the finalization of one userdata. -/
def sightsOf (seen : List String -> List Sight) (w : World) (u : UserDataId) : List Sight :=
  (seen w.events).filter fun x => x.subject = u

/-- What else may happen: work on stacks and tables, scripts and host code.  It
may mark objects for finalization.  It leaves the shared metatable and its place
alone, and the metatables of bound userdata. -/
structure Ordinary (seen : List String -> List Sight) (w w' : World) : Prop where
  registry_eq : w'.registry = w.registry
  registry_live : w.heap.tables.live w.registry.index = true ->
    w'.heap.tables.live w'.registry.index = true
  registry_plain : (w.heap.tables.get w.registry.index).metatable = none ->
    (w'.heap.tables.get w'.registry.index).metatable = none
  shared_eq : w'.shared = w.shared
  ready : forall m, SharedReady w m -> SharedReady w' m
  bound : forall i d b, w.heap.userdata.find? i = some d -> d.payload = .block b ->
    exists d' b', w'.heap.userdata.find? i = some d' ∧ d'.payload = .block b' ∧
      b'.alive = b.alive ∧ d'.metatable = d.metatable
  freed : forall i, i < w.heap.userdata.next -> w.heap.userdata.find? i = none ->
    w'.heap.userdata.find? i = none
  next_le : w.heap.userdata.next ≤ w'.heap.userdata.next
  finalizable : forall v, v ∈ w.collector.finalizable -> v ∈ w'.collector.finalizable
  numbered : forall u, Value.userdata u ∈ w'.collector.finalizable ->
    Value.userdata u ∈ w.collector.finalizable ∨ u.index < w'.heap.userdata.next
  pending_eq : w'.collector.pending = w.collector.pending
  closing_eq : w'.collector.closing = w.collector.closing
  seen_eq : seen w'.events = seen w.events

def withPending (w : World) (vs : List Value) : World :=
  { w with collector := { w.collector with pending := vs } }

/-- The machine begins to close: all noted objects are due. -/
def closed (w : World) : World :=
  { w with collector := { w.collector with
      closing := true
      pending := w.collector.pending ++ w.collector.finalizable
      finalizable := [] } }

/-- One step of a run.  The collector calls the handlers of the objects that are
due in their order, with the object as the argument. -/
inductive Step (types : BoundTypes) (seen : List String -> List Sight) : State -> State -> Prop where
  | push {s : State} {t : ThreadId} {type : HostType} {v : HostValue} {userValues : Nat}
      {E : Engine} {u : UserDataId} {w : World} : s.world.liveThread t = true ->
      pushUserData t type v userValues E s.world = .ok u w ->
      s.world.collector.closing = false ->
      Step types seen s { s with world := w, pushed := u :: s.pushed }
  | pushLate {s : State} {t : ThreadId} {type : HostType} {v : HostValue} {userValues : Nat}
      {E : Engine} {u : UserDataId} {w : World} : s.world.liveThread t = true ->
      pushUserData t type v userValues E s.world = .ok u w ->
      s.world.collector.closing = true ->
      Step types seen s { s with world := w, late := u :: s.late }
  | ask {s : State} {t : ThreadId} {E : Engine} {n : Nat} {w : World} :
      s.world.liveThread t = true -> answerOperation types .gc t E s.world = .ok n w ->
      Step types seen s
        { s with world := w, asked := (s.world.thread t).argument 0 :: s.asked }
  | other {s : State} {w : World} : Ordinary seen s.world w -> Step types seen s { s with world := w }
  | collect {s : State} {t : ThreadId} {w : World} : s.world.collector.closing = false ->
      Collected t s.world w -> Step types seen s { s with world := w }
  | close {s : State} : Step types seen s { s with world := closed s.world }
  | finalize {s : State} {u : UserDataId} {rest : List Value} {w₁ w₂ : World} {t : ThreadId}
      {E : Engine} {n : Nat} : s.world.collector.pending = .userdata u :: rest ->
      Ordinary seen (withPending s.world rest) w₁ -> w₁.liveThread t = true ->
      (w₁.thread t).argument 0 = .userdata u -> answerOperation types .gc t E w₁ = .ok n w₂ ->
      Step types seen s { s with world := w₂ }
  | finalizeOther {s : State} {v : Value} {rest : List Value} :
      s.world.collector.pending = v :: rest ->
      (forall u, v = .userdata u -> u ∉ s.pushed) ->
      Step types seen s { s with world := withPending s.world rest }

abbrev Run (types : BoundTypes) (seen : List String -> List Sight) : State -> State -> Prop :=
  Relation.ReflTransGen (Step types seen)

/-- A machine that was opened, with nothing pushed yet. -/
def State.opened : State := { world := freshWorld }

/-- No finalizer is left to be called after the machine began to close. -/
def State.Closed (s : State) : Prop :=
  s.world.collector.closing = true ∧ s.world.collector.finalizable = [] ∧
    s.world.collector.pending = []

/-- At some point of the run after it was pushed, the userdata was not reachable. -/
def Lost (types : BoundTypes) (seen : List String -> List Sight) (s : State) (u : UserDataId) :
    Prop :=
  exists s₁ t, Run types seen State.opened s₁ ∧ Run types seen s₁ s ∧ u ∈ s₁.pushed ∧
    ¬ s₁.world.heap.Reachable (roots s₁.world t) (.userdata u)

/-!
# The invariant
-/

/-- A pushed value is in its userdata and nothing of its finalization was seen,
or it is gone and its hook and its destructor ran once, in this order. -/
inductive Fate (seen : List String -> List Sight) (w : World) (u : UserDataId) : Prop where
  | living (d : UserData) (b : Block) (m : TableId) :
      w.heap.userdata.find? u.index = some d -> d.payload = .block b -> b.alive = true ->
      d.metatable = some m -> w.shared = .table m -> sightsOf seen w u = [] -> Fate seen w u
  | gone : (forall d, w.heap.userdata.find? u.index = some d ->
        exists b, d.payload = .block b ∧ b.alive = false) ->
      sightsOf seen w u = [.hook u, .drop u] -> Fate seen w u

/-- What every run keeps.  A living value is noted or due, except the one whose
handler is being called; `lost` says of which values it is known that they were
not reachable. -/
structure Inv (seen : List String -> List Sight) (lost : UserDataId -> Prop)
    (called : Option UserDataId) (s : State) : Prop where
  registry_live : s.world.heap.tables.live s.world.registry.index = true
  registry_plain : (s.world.heap.tables.get s.world.registry.index).metatable = none
  ready : s.world.shared = .nil ∨ exists m, SharedReady s.world m
  numbered : forall u, Value.userdata u ∈ s.world.collector.finalizable ++
    s.world.collector.pending -> u.index < s.world.heap.userdata.next
  sighted : forall x, x ∈ seen s.world.events -> x.subject.index < s.world.heap.userdata.next
  known : forall u, u ∈ s.pushed ++ s.late -> u.index < s.world.heap.userdata.next
  nodup : (s.pushed ++ s.late).Nodup
  late : s.late = [] ∨ s.world.collector.closing = true
  fate : forall u, u ∈ s.pushed ++ s.late -> Fate seen s.world u
  noted : forall u, u ∈ s.pushed -> called ≠ some u -> sightsOf seen s.world u = [] ->
    Value.userdata u ∈ s.world.collector.finalizable ++ s.world.collector.pending
  due : forall u, u ∈ s.pushed -> Value.userdata u ∈ s.world.collector.pending ->
    s.world.collector.closing = true ∨ lost u
  cause : forall u, u ∈ s.pushed -> sightsOf seen s.world u ≠ [] ->
    s.world.collector.closing = true ∨ Value.userdata u ∈ s.asked ∨ lost u

variable {lost : UserDataId -> Prop} {called : Option UserDataId} {s : State}

theorem Inv.mono {lost' : UserDataId -> Prop} (h : Inv seen lost called s)
    (hlost : forall u, lost u -> lost' u) : Inv seen lost' called s := by
  refine { h with due := ?_, cause := ?_ }
  · intro u hu hpending
    exact (h.due u hu hpending).imp_right (hlost u)
  · intro u hu hseen
    exact (h.cause u hu hseen).imp_right (Or.imp_right (hlost u))

/-!
# Ordinary steps
-/

theorem sightsOf_eq {w w' : World} (h : seen w'.events = seen w.events) (u : UserDataId) :
    sightsOf seen w' u = sightsOf seen w u := by
  unfold sightsOf
  rw [h]

theorem Fate.ordinary {w w' : World} {u : UserDataId} (h : Fate seen w u)
    (hu : u.index < w.heap.userdata.next) (hw : Ordinary seen w w') : Fate seen w' u := by
  have hsights : sightsOf seen w' u = sightsOf seen w u := sightsOf_eq hw.seen_eq u
  cases h with
  | living d b m hfind hblock halive hmeta hshared hunseen =>
      rcases hw.bound u.index d b hfind hblock with ⟨d', b', hfind', hblock', halive', hmeta'⟩
      exact .living d' b' m hfind' hblock' (halive'.trans halive) (hmeta'.trans hmeta)
        (hw.shared_eq.trans hshared) (hsights.trans hunseen)
  | gone hgone hseen =>
      refine .gone ?_ (hsights.trans hseen)
      intro d hd
      cases hold : w.heap.userdata.find? u.index with
      | none =>
          rw [hw.freed u.index hu hold] at hd
          cases hd
      | some d₀ =>
          rcases hgone d₀ hold with ⟨b, hblock, hdead⟩
          rcases hw.bound u.index d₀ b hold hblock with ⟨d', b', hfind', hblock', halive', _⟩
          rw [hd] at hfind'
          cases hfind'
          exact ⟨b', hblock', halive'.trans hdead⟩

theorem Inv.ordinary (h : Inv seen lost called s) {w : World} (hw : Ordinary seen s.world w) :
    Inv seen lost called { s with world := w } := by
  have hsights : forall u, sightsOf seen w u = sightsOf seen s.world u := sightsOf_eq hw.seen_eq
  constructor
  case registry_live => exact hw.registry_live h.registry_live
  case registry_plain => exact hw.registry_plain h.registry_plain
  case ready =>
    rcases h.ready with hnil | ⟨m, hready⟩
    · exact Or.inl (hw.shared_eq.trans hnil)
    · exact Or.inr ⟨m, hw.ready m hready⟩
  case numbered =>
    intro u hu
    rcases List.mem_append.mp hu with hu | hu
    · rcases hw.numbered u hu with hu | hu
      · exact Nat.lt_of_lt_of_le (h.numbered u (List.mem_append_left _ hu)) hw.next_le
      · exact hu
    · have hpending : Value.userdata u ∈ w.collector.pending := hu
      rw [hw.pending_eq] at hpending
      exact Nat.lt_of_lt_of_le (h.numbered u (List.mem_append_right _ hpending)) hw.next_le
  case sighted =>
    intro x hx
    have hseen : x ∈ seen w.events := hx
    rw [hw.seen_eq] at hseen
    exact Nat.lt_of_lt_of_le (h.sighted x hseen) hw.next_le
  case known =>
    intro u hu
    exact Nat.lt_of_lt_of_le (h.known u hu) hw.next_le
  case nodup => exact h.nodup
  case late => exact h.late.imp_right hw.closing_eq.trans
  case fate =>
    intro u hu
    exact (h.fate u hu).ordinary (h.known u hu) hw
  case noted =>
    intro u hu hcalled hunseen
    rcases List.mem_append.mp (h.noted u hu hcalled ((hsights u).symm.trans hunseen)) with hnoted | hnoted
    · exact List.mem_append_left _ (hw.finalizable _ hnoted)
    · refine List.mem_append_right _ ?_
      show _ ∈ w.collector.pending
      rwa [hw.pending_eq]
  case due =>
    intro u hu hpending
    have hpending : Value.userdata u ∈ w.collector.pending := hpending
    rw [hw.pending_eq] at hpending
    exact (h.due u hu hpending).imp_left hw.closing_eq.trans
  case cause =>
    intro u hu hseen
    refine (h.cause u hu ?_).imp_left hw.closing_eq.trans
    intro hunseen
    exact hseen ((hsights u).trans hunseen)

/-- What happens on the stack of a thread is ordinary: copies of a userdata come
and go. -/
theorem ordinary_setThread (seen : List String -> List Sight) (w : World) (t : ThreadId)
    (th : Thread) : Ordinary seen w (w.setThread t th) := by
  constructor
  case registry_eq => rfl
  case registry_live => exact fun h => h
  case registry_plain => exact fun h => h
  case shared_eq => rfl
  case ready => exact fun m h => ⟨h.shared_eq, h.live, h.handler_eq⟩
  case bound => exact fun i d b hd hb => ⟨d, b, hd, hb, rfl, rfl⟩
  case freed => exact fun i _ h => h
  case next_le => exact Nat.le_refl _
  case finalizable => exact fun v h => h
  case numbered => exact fun u h => Or.inl h
  case pending_eq => rfl
  case closing_eq => rfl
  case seen_eq => rfl

theorem Ordinary.refl (seen : List String -> List Sight) (w : World) : Ordinary seen w w := by
  have hself := ordinary_setThread seen w ⟨0⟩ (w.thread ⟨0⟩)
  rwa [World.setThread_thread] at hself

theorem Ordinary.trans {w w' w'' : World} (h : Ordinary seen w w') (h' : Ordinary seen w' w'') :
    Ordinary seen w w'' := by
  constructor
  case registry_eq => exact h'.registry_eq.trans h.registry_eq
  case registry_live => exact fun hlive => h'.registry_live (h.registry_live hlive)
  case registry_plain => exact fun hplain => h'.registry_plain (h.registry_plain hplain)
  case shared_eq => exact h'.shared_eq.trans h.shared_eq
  case ready => exact fun m hready => h'.ready m (h.ready m hready)
  case bound =>
    intro i d b hd hb
    rcases h.bound i d b hd hb with ⟨d', b', hd', hb', halive, hmeta⟩
    rcases h'.bound i d' b' hd' hb' with ⟨d'', b'', hd'', hb'', halive', hmeta'⟩
    exact ⟨d'', b'', hd'', hb'', halive'.trans halive, hmeta'.trans hmeta⟩
  case freed =>
    exact fun i hi hnone => h'.freed i (Nat.lt_of_lt_of_le hi h.next_le) (h.freed i hi hnone)
  case next_le => exact Nat.le_trans h.next_le h'.next_le
  case finalizable => exact fun v hv => h'.finalizable v (h.finalizable v hv)
  case numbered =>
    intro u hu
    rcases h'.numbered u hu with hu | hu
    · exact (h.numbered u hu).imp_right fun hlt => Nat.lt_of_lt_of_le hlt h'.next_le
    · exact Or.inr hu
  case pending_eq => exact h'.pending_eq.trans h.pending_eq
  case closing_eq => exact h'.closing_eq.trans h.closing_eq
  case seen_eq => exact h'.seen_eq.trans h.seen_eq

/-- Writing to a table is ordinary, unless it is the registry or the shared
metatable: a userdata may be put anywhere else. -/
theorem ordinary_modifyTable (seen : List String -> List Sight) (w : World) {i : TableId}
    (hregistry : i ≠ w.registry) (hshared : w.shared ≠ .table i) (f : Table → Table) :
    Ordinary seen w
      (w.withTables (w.heap.tables.modify i.index f) w.collector.allocated) := by
  have hindex : forall {j : TableId}, i ≠ j -> i.index ≠ j.index := fun hne heq =>
    hne (congrArg TableId.mk heq)
  have hget : (w.heap.tables.modify i.index f).get w.registry.index =
      w.heap.tables.get w.registry.index :=
    Store.get_modify_ne _ (hindex hregistry) f
  constructor
  case registry_eq => rfl
  case registry_live =>
    intro hlive
    exact (Store.live_modify _ _ _ _).trans hlive
  case registry_plain =>
    intro hplain
    exact (congrArg Table.metatable hget).trans hplain
  case shared_eq => exact congrArg (fun T : Table => T.get (.str (cutName sharedMetatable))) hget
  case ready =>
    intro m hready
    have hne : i ≠ m := by
      intro heq
      rw [heq] at hshared
      exact hshared hready.shared_eq
    refine ⟨?_, ?_, ?_⟩
    · refine Eq.trans ?_ hready.shared_eq
      exact congrArg (fun T : Table => T.get (.str (cutName sharedMetatable))) hget
    · exact (Store.live_modify _ _ _ _).trans hready.live
    · refine Eq.trans ?_ hready.handler_eq
      exact congrArg (fun T : Table => T.getStr Event.gc.field)
        (Store.get_modify_ne _ (hindex hne) f)
  case bound => exact fun i d b hd hb => ⟨d, b, hd, hb, rfl, rfl⟩
  case freed => exact fun i _ h => h
  case next_le => exact Nat.le_refl _
  case finalizable => exact fun v h => h
  case numbered => exact fun u h => Or.inl h
  case pending_eq => rfl
  case closing_eq => rfl
  case seen_eq => rfl

theorem ordinary_setHostValue (seen : List String -> List Sight) (w : World) (u : UserDataId)
    (v : HostValue) :
    exists w', Returns (setHostValue u v) w () w' ∧ Ordinary seen w w' := by
  refine ⟨_, fun _ => rfl, ?_⟩
  constructor
  case registry_eq => rfl
  case registry_live => exact fun h => h
  case registry_plain => exact fun h => h
  case shared_eq => rfl
  case ready => exact fun m h => ⟨h.shared_eq, h.live, h.handler_eq⟩
  case bound =>
    intro i d b hd hb
    by_cases heq : u.index = i
    · refine ⟨{ d with payload := .block { b with value := v } }, { b with value := v }, ?_, rfl,
        rfl, rfl⟩
      show (w.heap.userdata.modify u.index _).find? i = _
      rw [Store.find?_modify, if_pos heq, hd, Option.map_some, hb]
    · refine ⟨d, b, ?_, hb, rfl, rfl⟩
      show (w.heap.userdata.modify u.index _).find? i = _
      rw [Store.find?_modify, if_neg heq, hd]
  case freed =>
    intro i _ hnone
    show (w.heap.userdata.modify u.index _).find? i = _
    rw [Store.find?_modify, hnone]
    split <;> rfl
  case next_le => exact Nat.le_of_eq (Store.next_modify _ _ _).symm
  case finalizable => exact fun v h => h
  case numbered => exact fun u h => Or.inl h
  case pending_eq => rfl
  case closing_eq => rfl
  case seen_eq => rfl

/-!
# The handler
-/

theorem userdata_of_find? {w : World} {u : UserDataId} {d : UserData}
    (h : w.heap.userdata.find? u.index = some d) : w.userdata u = d :=
  Store.get_of_find? h

theorem find?_of_block? {w : World} {u : UserDataId} {b : Block} (h : w.block? u = some b) :
    exists d, w.heap.userdata.find? u.index = some d ∧ d.payload = .block b := by
  have hget : w.userdata u = (w.heap.userdata.find? u.index).getD default := rfl
  unfold World.block? at h
  rw [hget] at h
  cases hd : w.heap.userdata.find? u.index with
  | none =>
      rw [hd] at h
      cases h
  | some d =>
      rw [hd] at h
      refine ⟨d, rfl, ?_⟩
      cases hp : d.payload with
      | block b' =>
          simp only [Option.getD_some, hp] at h
          cases h
          rfl
      | stream x =>
          simp only [Option.getD_some, hp] at h
          cases h
      | raw n =>
          simp only [Option.getD_some, hp] at h
          cases h

theorem boundTo_of_living {w : World} {u : UserDataId} {d : UserData} {b : Block} {m : TableId}
    (hfind : w.heap.userdata.find? u.index = some d) (hblock : d.payload = .block b)
    (hmeta : d.metatable = some m) (hshared : w.shared = .table m) :
    w.boundTo (.userdata u) = some (u, b) := by
  have hshare : w.isShared u = true := by
    unfold World.isShared
    rw [userdata_of_find? hfind, hmeta, hshared]
    simp [Value.rawEq]
  have hfound : w.block? u = some b := by
    unfold World.block?
    rw [userdata_of_find? hfind, hblock]
  unfold World.boundTo
  dsimp only
  rw [if_pos hshare, hfound]
  rfl

theorem find?_bury (w : World) (u : UserDataId) (i : Nat) :
    (w.bury u).heap.userdata.find? i =
      if u.index = i then (w.heap.userdata.find? i).map fun d =>
        { d with payload := match d.payload with
          | .block b => .block { b with alive := false }
          | p => p }
      else w.heap.userdata.find? i :=
  Store.find?_modify _ _ _ _

theorem sightsOf_bury {w : World} (w' : World) {u' : UserDataId}
    (hseen : seen w'.events = seen w.events ++ [.hook u', .drop u']) (u : UserDataId) :
    sightsOf seen w' u =
      if u = u' then sightsOf seen w u ++ [.hook u', .drop u'] else sightsOf seen w u := by
  unfold sightsOf
  rw [hseen, List.filter_append]
  by_cases heq : u = u'
  · rw [if_pos heq, heq]
    congr 1
    simp [Sight.subject]
  · rw [if_neg heq]
    simp [Sight.subject, Ne.symm heq]

/-- The value that the handler finalizes is gone, and the others are as they
were. -/
theorem Fate.bury {w : World} {u u' : UserDataId} (h : Fate seen w u) {b : Block}
    (hblock : w.block? u' = some b) (halive : b.alive = true) {events : List String}
    (hseen : seen events = seen w.events ++ [.hook u', .drop u']) (log : List LogRecord)
    (outside : Outside) : Fate seen ((w.bury u').withHost events log outside) u := by
  have hsights := sightsOf_bury ((w.bury u').withHost events log outside) hseen u
  have hfind : ((w.bury u').withHost events log outside).heap.userdata.find? u.index = _ :=
    find?_bury w u' u.index
  rcases find?_of_block? hblock with ⟨d', hfind', hblock'⟩
  by_cases heq : u = u'
  · subst heq
    rw [if_pos rfl] at hsights hfind
    cases h with
    | living d b m hfound hb hlive hmeta hshared hunseen =>
        rw [hunseen] at hsights
        refine .gone ?_ hsights
        intro d₁ hd₁
        rw [hfind, hfound] at hd₁
        cases hd₁
        exact ⟨{ b with alive := false }, by dsimp only; rw [hb], rfl⟩
    | gone hgone _ =>
        rcases hgone d' hfind' with ⟨b', hb', hdead⟩
        rw [hblock'] at hb'
        cases hb'
        rw [halive] at hdead
        cases hdead
  · rw [if_neg heq] at hsights
    rw [if_neg (UserDataId.index_ne (Ne.symm heq))] at hfind
    cases h with
    | living d b m hfound hb hlive hmeta hshared hunseen =>
        exact .living d b m (hfind.trans hfound) hb hlive hmeta hshared (hsights.trans hunseen)
    | gone hgone hgoneSeen =>
        refine .gone ?_ (hsights.trans hgoneSeen)
        intro d hd
        exact hgone d (hfind.symm.trans hd)

/-- A value that is not alive, and whose handler was called, needs no note. -/
theorem Inv.uncalled (h : Inv seen lost called s)
    (hdead : forall u b, called = some u -> s.world.boundTo (.userdata u) = some (u, b) ->
      b.alive = false) : Inv seen lost none s := by
  refine { h with noted := ?_ }
  intro u hu _ hunseen
  by_cases heq : called = some u
  · -- the value whose handler was called would be gone, and its sights seen
    rcases h.fate u (List.mem_append_left _ hu) with
      ⟨d, b, m, hfind, hblock, halive, hmeta, hshared, _⟩ | ⟨_, hseen⟩
    · rw [hdead u b heq (boundTo_of_living hfind hblock hmeta hshared)] at halive
      cases halive
    · rw [hseen] at hunseen
      cases hunseen
  · exact h.noted u hu heq hunseen

/-- The invariant holds after the value that the handler was called for is finalized. -/
theorem Inv.bury (h : Inv seen lost called s) {u' : UserDataId} {b : Block}
    (hblock : s.world.block? u' = some b) (halive : b.alive = true)
    (hcalled : forall u, called = some u -> u = u')
    (hcause : u' ∈ s.pushed ->
      s.world.collector.closing = true ∨ Value.userdata u' ∈ s.asked ∨ lost u')
    {events : List String} (hseen : seen events = seen s.world.events ++ [.hook u', .drop u'])
    (log : List LogRecord) (outside : Outside) :
    Inv seen lost none { s with world := (s.world.bury u').withHost events log outside } := by
  have hsights := sightsOf_bury ((s.world.bury u').withHost events log outside) hseen
  have hnext : (s.world.bury u').heap.userdata.next = s.world.heap.userdata.next :=
    Store.next_modify _ _ _
  constructor
  case registry_live => exact h.registry_live
  case registry_plain => exact h.registry_plain
  case ready =>
    exact h.ready.imp_right fun ⟨m, hm⟩ => ⟨m, hm.shared_eq, hm.live, hm.handler_eq⟩
  case numbered =>
    intro u hu
    exact Nat.lt_of_lt_of_eq (h.numbered u hu) hnext.symm
  case sighted =>
    intro x hx
    have hx : x ∈ seen events := hx
    rw [hseen] at hx
    rcases List.mem_append.mp hx with hx | hx
    · exact Nat.lt_of_lt_of_eq (h.sighted x hx) hnext.symm
    · rcases find?_of_block? hblock with ⟨d, hfind, _⟩
      have hsubject : x.subject = u' := by
        simp only [List.mem_cons, List.not_mem_nil, or_false] at hx
        rcases hx with rfl | rfl <;> rfl
      rw [hsubject]
      exact Nat.lt_of_lt_of_eq (Store.lt_next_of_live (Store.live_of_find? hfind)) hnext.symm
  case known =>
    intro u hu
    exact Nat.lt_of_lt_of_eq (h.known u hu) hnext.symm
  case nodup => exact h.nodup
  case late => exact h.late
  case fate => exact fun u hu => (h.fate u hu).bury hblock halive hseen log outside
  case noted =>
    intro u hu _ hunseen
    have hunseen := (hsights u).symm.trans hunseen
    by_cases heq : u = u'
    · rw [if_pos heq] at hunseen
      exact absurd (List.append_eq_nil_iff.mp hunseen).2 (List.cons_ne_nil _ _)
    · rw [if_neg heq] at hunseen
      exact h.noted u hu (fun hcall => heq (hcalled u hcall)) hunseen
  case due => exact h.due
  case cause =>
    intro u hu hseen'
    by_cases heq : u = u'
    · rw [heq] at hu ⊢
      exact hcause hu
    · refine h.cause u hu fun hunseen => hseen' ((hsights u).trans ?_)
      rw [if_neg heq]
      exact hunseen

/-- The handler was called, with an argument that explains what it finalizes. -/
theorem Inv.answered (h : Inv seen lost called s) (hat : Attentive types seen) {t : ThreadId}
    (hlive : s.world.liveThread t = true) {E : Engine} {n : Nat} {w : World}
    (hanswer : answerOperation types .gc t E s.world = .ok n w)
    (hcalled : forall u, called = some u -> (s.world.thread t).argument 0 = .userdata u)
    {asked : List Value} (hasked : forall v, v ∈ s.asked -> v ∈ asked)
    (hcause : forall u, u ∈ s.pushed -> (s.world.thread t).argument 0 = .userdata u ->
      s.world.collector.closing = true ∨ Value.userdata u ∈ asked ∨ lost u) :
    Inv seen lost none { s with world := w, asked := asked } := by
  have hgrown : Inv seen lost called { s with asked := asked } := by
    refine { h with cause := ?_ }
    intro u hu hseen
    exact (h.cause u hu hseen).imp_right (Or.imp_left (hasked _))
  rcases ok_answerGc hat hlive hanswer with ⟨th, _, hidle | hburied⟩
  · rcases hidle with ⟨rfl, hdead⟩
    refine (hgrown.ordinary (ordinary_setThread seen s.world t th)).uncalled ?_
    intro u b hcall hbound
    rw [← hcalled u hcall] at hbound
    exact hdead u b hbound
  · rcases hburied with ⟨u', b', events, lg, outside, hbound, halive, rfl, hseen⟩
    rcases World.of_boundTo hbound with ⟨hargument, hblock⟩
    refine (hgrown.ordinary (ordinary_setThread seen s.world t th)).bury hblock halive ?_
      (fun hu => hcause u' hu hargument) hseen lg outside
    intro u hcall
    have hargument' := (hcalled u hcall).symm.trans hargument
    cases hargument'
    rfl

/-!
# Pushing
-/

theorem Fate.pushed {w w' : World} {u v : UserDataId} {b : Block} (h : Fate seen w u)
    (hu : u.index < w.heap.userdata.next) (hw : Holds w v b w') : Fate seen w' u := by
  have hsights : sightsOf seen w' u = sightsOf seen w u := sightsOf_eq (congrArg seen hw.events_eq) u
  have hfind := hw.find?_old hu
  cases h with
  | living d b m hfound hblock halive hmeta hshared hunseen =>
      exact .living d b m (hfind.trans hfound) hblock halive hmeta (hw.shared_old hshared)
        (hsights.trans hunseen)
  | gone hgone hseen =>
      refine .gone ?_ (hsights.trans hseen)
      intro d hd
      exact hgone d (hfind.symm.trans hd)

/-- The invariant holds after a push, and the new value is alive. -/
theorem Inv.holds (h : Inv seen lost none s) {u : UserDataId} {b : Block} {w : World}
    (hw : Holds s.world u b w) (halive : b.alive = true) :
    Inv seen lost none { s with world := w } ∧ Fate seen w u ∧ sightsOf seen w u = [] ∧
      u ∉ s.pushed ++ s.late ∧ u.index < w.heap.userdata.next ∧
      Value.userdata u ∉ w.collector.pending := by
  rcases hw.shared with ⟨m, _, hready, _, _⟩
  have hnext := hw.next_eq
  have hold : forall {i}, i < s.world.heap.userdata.next -> i < w.heap.userdata.next := by
    intro i hi
    rw [hnext]
    exact Nat.lt_succ_of_lt hi
  have hself : u.index < w.heap.userdata.next := by
    rw [hnext, hw.fresh]
    exact Nat.lt_succ_self _
  have hnew : forall {i}, i < s.world.heap.userdata.next -> i ≠ u.index := by
    intro i hi
    rw [hw.fresh]
    exact Nat.ne_of_lt hi
  have hsights : forall u', sightsOf seen w u' = sightsOf seen s.world u' :=
    sightsOf_eq (congrArg seen hw.events_eq)
  have hunseen : sightsOf seen w u = [] := by
    rw [hsights]
    apply List.filter_eq_nil_iff.mpr
    intro x hx hsubject
    have hsubject : x.subject = u := of_decide_eq_true hsubject
    exact hnew (h.sighted x hx) (congrArg UserDataId.index hsubject)
  refine ⟨?_, ?_, hunseen, ?_, hself, ?_⟩
  · constructor
    case registry_live => exact hw.registry_live
    case registry_plain => exact hw.registry_metatable.trans h.registry_plain
    case ready => exact Or.inr ⟨m, hready⟩
    case numbered =>
      intro v hv
      have hv : Value.userdata v ∈ w.collector.finalizable ++ w.collector.pending := hv
      rw [hw.pending_eq] at hv
      rcases List.mem_append.mp hv with hv | hv
      · rcases hw.finalizable_eq with heq | heq
        · rw [heq] at hv
          exact hold (h.numbered v (List.mem_append_left _ hv))
        · rw [heq] at hv
          rcases List.mem_cons.mp hv with heq | hv
          · cases heq
            exact hself
          · exact hold (h.numbered v (List.mem_append_left _ hv))
      · exact hold (h.numbered v (List.mem_append_right _ hv))
    case sighted =>
      intro x hx
      have hx : x ∈ seen w.events := hx
      rw [hw.events_eq] at hx
      exact hold (h.sighted x hx)
    case known => exact fun v hv => hold (h.known v hv)
    case nodup => exact h.nodup
    case late => exact h.late.imp_right hw.closing_eq.trans
    case fate => exact fun v hv => (h.fate v hv).pushed (h.known v hv) hw
    case noted =>
      intro v hv hcalled hv'
      exact hw.noted_old (h.noted v hv hcalled ((hsights v).symm.trans hv'))
    case due =>
      intro v hv hpending
      have hpending : Value.userdata v ∈ w.collector.pending := hpending
      rw [hw.pending_eq] at hpending
      exact (h.due v hv hpending).imp_left hw.closing_eq.trans
    case cause =>
      intro v hv hseen
      refine (h.cause v hv ?_).imp_left hw.closing_eq.trans
      intro hv'
      exact hseen ((hsights v).trans hv')
  · rcases hw.find?_new with ⟨m, _, hshared, hfind⟩
    exact .living _ b m hfind rfl halive rfl hshared hunseen
  · intro hu
    exact hnew (h.known u hu) rfl
  · intro hu
    rw [hw.pending_eq] at hu
    exact hnew (h.numbered u (List.mem_append_right _ hu)) rfl

theorem Inv.push (h : Inv seen lost none s) {u : UserDataId} {b : Block} {w : World}
    (hw : Holds s.world u b w) (halive : b.alive = true)
    (hopen : s.world.collector.closing = false) :
    Inv seen lost none { s with world := w, pushed := u :: s.pushed } := by
  rcases h.holds hw halive with ⟨hinv, hfate, hunseen, hnew, hself, hpending⟩
  have hcons : forall {p : UserDataId -> Prop}, p u -> (forall v, v ∈ s.pushed ++ s.late -> p v) ->
      forall v, v ∈ u :: s.pushed ++ s.late -> p v := by
    intro p hu hrest v hv
    rcases List.mem_cons.mp hv with rfl | hv
    · exact hu
    · exact hrest v hv
  constructor
  case registry_live => exact hinv.registry_live
  case registry_plain => exact hinv.registry_plain
  case ready => exact hinv.ready
  case numbered => exact hinv.numbered
  case sighted => exact hinv.sighted
  case known => exact hcons hself hinv.known
  case nodup => exact List.nodup_cons.mpr ⟨hnew, hinv.nodup⟩
  case late => exact hinv.late
  case fate => exact hcons hfate hinv.fate
  case noted =>
    intro v hv hcalled hv'
    rcases List.mem_cons.mp hv with rfl | hv
    · exact List.mem_append.mpr (hw.noted hopen)
    · exact hinv.noted v hv hcalled hv'
  case due =>
    intro v hv hdue
    rcases List.mem_cons.mp hv with rfl | hv
    · exact absurd hdue hpending
    · exact hinv.due v hv hdue
  case cause =>
    intro v hv hseen
    rcases List.mem_cons.mp hv with rfl | hv
    · exact absurd hunseen hseen
    · exact hinv.cause v hv hseen

theorem Inv.pushLate (h : Inv seen lost none s) {u : UserDataId} {b : Block} {w : World}
    (hw : Holds s.world u b w) (halive : b.alive = true)
    (hclosing : s.world.collector.closing = true) :
    Inv seen lost none { s with world := w, late := u :: s.late } := by
  rcases h.holds hw halive with ⟨hinv, hfate, hunseen, hnew, hself, hpending⟩
  have hmiddle : forall {p : UserDataId -> Prop}, p u ->
      (forall v, v ∈ s.pushed ++ s.late -> p v) -> forall v, v ∈ s.pushed ++ u :: s.late -> p v := by
    intro p hu hrest v hv
    rcases List.mem_cons.mp (List.perm_middle.mem_iff.mp hv) with rfl | hv
    · exact hu
    · exact hrest v hv
  constructor
  case registry_live => exact hinv.registry_live
  case registry_plain => exact hinv.registry_plain
  case ready => exact hinv.ready
  case numbered => exact hinv.numbered
  case sighted => exact hinv.sighted
  case known => exact hmiddle hself hinv.known
  case nodup => exact List.perm_middle.nodup_iff.mpr (List.nodup_cons.mpr ⟨hnew, hinv.nodup⟩)
  case late => exact Or.inr (hw.closing_eq.trans hclosing)
  case fate => exact hmiddle hfate hinv.fate
  case noted => exact hinv.noted
  case due => exact hinv.due
  case cause => exact hinv.cause

/-!
# Collecting and closing
-/

/-- What is in a registry without a metatable is reachable. -/
theorem reachable_registry {w : World} {t : ThreadId} {k v : Value} {o : ObjectId}
    (hplain : (w.heap.tables.get w.registry.index).metatable = none)
    (hfind : (w.heap.tables.get w.registry.index).find k = v) (hobject : v.object? = some o) :
    w.heap.Reachable (roots w t) o := by
  have hroot : ObjectId.table w.registry ∈ roots w t := by
    simp [roots]
  refine .held (.root hroot) ?_
  have hvalue : v ≠ .nil := by
    rintro rfl
    cases hobject
  have hentry : (k, v) ∈ (w.heap.tables.get w.registry.index).entries :=
    Table.mem_entries.mpr ⟨hfind, hvalue⟩
  show _ ∈ (w.heap.tableSuccessors (w.heap.tables.get w.registry.index)).filterMap Value.object?
  refine List.mem_filterMap.mpr ⟨v, ?_, hobject⟩
  unfold Heap.tableSuccessors
  rw [Heap.weakness_plain _ hplain, hplain]
  exact List.mem_flatMap.mpr ⟨_, hentry, List.mem_cons_of_mem _ (List.mem_cons_self ..)⟩

theorem reachable_shared {w : World} {t : ThreadId} {m : TableId}
    (hplain : (w.heap.tables.get w.registry.index).metatable = none)
    (hshared : w.shared = .table m) : w.heap.Reachable (roots w t) (.table m) :=
  reachable_registry hplain hshared rfl

/-- The registry and the shared metatable outlive what a collector does. -/
theorem collected_shared {w w' : World} {t : ThreadId} (hw : Collected t w w')
    (hlive : w.heap.tables.live w.registry.index = true)
    (hplain : (w.heap.tables.get w.registry.index).metatable = none) :
    w'.heap.tables.live w'.registry.index = true ∧
      w'.heap.tables.get w'.registry.index = w.heap.tables.get w.registry.index ∧
      w'.shared = w.shared ∧ forall m, SharedReady w m -> SharedReady w' m := by
  have hroot : ObjectId.table w.registry ∈ roots w t := by
    simp [roots]
  rcases hw.table w.registry _ (.root hroot) (Store.find?_of_live hlive) with
    ⟨T, hT, hsame, _⟩
  have hget : w'.heap.tables.get w'.registry.index = w.heap.tables.get w.registry.index := by
    rw [hw.registry_eq, Store.get_of_find? hT, hsame hplain]
  have hshared : w'.shared = w.shared := by
    unfold World.shared
    rw [hget]
  refine ⟨?_, hget, hshared, ?_⟩
  · rw [hw.registry_eq]
    exact Store.live_of_find? hT
  · intro m hready
    rcases hw.table m _ (reachable_shared hplain hready.shared_eq)
      (Store.find?_of_live hready.live) with ⟨T', hT', _, hfind⟩
    refine ⟨hshared.trans hready.shared_eq, ?_, ?_⟩
    · exact Store.live_of_find? hT'
    · rw [Store.get_of_find? hT']
      have hhandler : (w.heap.tables.get m.index).find (.str Event.gc.field) = _ :=
        hready.handler_eq
      exact (hfind _ (by rw [hhandler]; rfl)).trans hhandler

/-- A cycle keeps the fate of a value: a living one is noted, so that it is not freed. -/
theorem Fate.collected {w w' : World} {u : UserDataId} (h : Fate seen w u) {t : ThreadId}
    (hw : Collected t w w') (hshared : w'.shared = w.shared)
    (hnoted : sightsOf seen w u = [] ->
      Value.userdata u ∈ w.collector.finalizable ++ w.collector.pending) : Fate seen w' u := by
  have hsights : sightsOf seen w' u = sightsOf seen w u :=
    sightsOf_eq (congrArg seen hw.events_eq) u
  cases h with
  | living d b m hfind hblock halive hmeta hsh hunseen =>
      exact .living d b m ((hw.userdata_noted u (hnoted hunseen)).trans hfind) hblock halive hmeta
        (hshared.trans hsh) (hsights.trans hunseen)
  | gone hgone hseen =>
      exact .gone (fun d hd => hgone d (hw.find?_userdata hd)) (hsights.trans hseen)

theorem Inv.collect (h : Inv seen lost none s) {t : ThreadId} {w : World}
    (hw : Collected t s.world w) (hopen : s.world.collector.closing = false)
    (hlost : forall u, u ∈ s.pushed ->
      ¬ s.world.heap.Reachable (roots s.world t) (.userdata u) -> lost u) :
    Inv seen lost none { s with world := w } := by
  have hsights : forall u, sightsOf seen w u = sightsOf seen s.world u :=
    sightsOf_eq (congrArg seen hw.events_eq)
  rcases collected_shared hw h.registry_live h.registry_plain with
    ⟨hlive, hget, hshared, hready⟩
  have hlate : s.late = [] := by
    refine h.late.resolve_right ?_
    rw [hopen]
    exact Bool.false_ne_true
  constructor
  case registry_live => exact hlive
  case registry_plain => exact (congrArg Table.metatable hget).trans h.registry_plain
  case ready =>
    rcases h.ready with hnil | ⟨m, hm⟩
    · exact Or.inl (hshared.trans hnil)
    · exact Or.inr ⟨m, hready m hm⟩
  case numbered =>
    intro u hu
    exact Nat.lt_of_lt_of_eq (h.numbered u ((hw.noted_iff _).mp hu)) hw.userdata_next.symm
  case sighted =>
    intro x hx
    have hx : x ∈ seen w.events := hx
    rw [hw.events_eq] at hx
    exact Nat.lt_of_lt_of_eq (h.sighted x hx) hw.userdata_next.symm
  case known =>
    intro u hu
    exact Nat.lt_of_lt_of_eq (h.known u hu) hw.userdata_next.symm
  case nodup => exact h.nodup
  case late => exact Or.inl hlate
  case fate =>
    intro u hu
    refine (h.fate u hu).collected hw hshared fun hunseen => h.noted u ?_ nofun hunseen
    -- a value that was pushed late is one of a machine that closes
    have hu : u ∈ s.pushed ++ s.late := hu
    rwa [hlate, List.append_nil] at hu
  case noted =>
    intro u hu hcalled hunseen
    exact (hw.noted_iff _).mpr (h.noted u hu hcalled ((hsights u).symm.trans hunseen))
  case due =>
    intro u hu hv
    rcases hw.due with ⟨vs, hpending, _, _, hdue⟩
    have hv : Value.userdata u ∈ w.collector.pending := hv
    rw [hpending] at hv
    rcases List.mem_append.mp hv with hv | hv
    · exact (h.due u hu hv).imp_left hw.closing_eq.trans
    · exact Or.inr (hlost u hu ((hdue _ hv).2 _ rfl))
  case cause =>
    intro u hu hseen
    refine (h.cause u hu ?_).imp_left hw.closing_eq.trans
    intro hunseen
    exact hseen ((hsights u).trans hunseen)

theorem Fate.withCollector {w : World} {u : UserDataId} (h : Fate seen w u) (c : Collector) :
    Fate seen { w with collector := c } u := by
  cases h with
  | living d b m hfind hblock halive hmeta hshared hunseen =>
      exact .living d b m hfind hblock halive hmeta hshared hunseen
  | gone hgone hseen => exact .gone hgone hseen

theorem Inv.close (h : Inv seen lost none s) :
    Inv seen lost none { s with world := closed s.world } := by
  have hsame : forall v, v ∈ (closed s.world).collector.finalizable ++
      (closed s.world).collector.pending ↔
      v ∈ s.world.collector.finalizable ++ s.world.collector.pending := by
    intro v
    show v ∈ [] ++ (s.world.collector.pending ++ s.world.collector.finalizable) ↔ _
    rw [List.nil_append, List.mem_append, List.mem_append, or_comm]
  constructor
  case registry_live => exact h.registry_live
  case registry_plain => exact h.registry_plain
  case ready => exact h.ready.imp_right fun ⟨m, hm⟩ => ⟨m, hm.shared_eq, hm.live, hm.handler_eq⟩
  case numbered =>
    intro u hu
    exact h.numbered u ((hsame _).mp hu)
  case sighted => exact h.sighted
  case known => exact h.known
  case nodup => exact h.nodup
  case late => exact Or.inr rfl
  case fate => exact fun u hu => (h.fate u hu).withCollector _
  case noted =>
    intro u hu hcalled hunseen
    exact (hsame _).mpr (h.noted u hu hcalled hunseen)
  case due =>
    intro u _ _
    exact Or.inl rfl
  case cause =>
    intro u _ _
    exact Or.inl rfl

theorem Inv.pop (h : Inv seen lost none s) {v : Value} {rest : List Value}
    (hpending : s.world.collector.pending = v :: rest)
    (hcalled : forall u, u ∈ s.pushed -> v = .userdata u -> called = some u) :
    Inv seen lost called { s with world := withPending s.world rest } := by
  have hrest : forall {v'}, v' ∈ rest -> v' ∈ s.world.collector.pending := by
    intro v' hv'
    rw [hpending]
    exact List.mem_cons_of_mem v hv'
  constructor
  case registry_live => exact h.registry_live
  case registry_plain => exact h.registry_plain
  case ready => exact h.ready.imp_right fun ⟨m, hm⟩ => ⟨m, hm.shared_eq, hm.live, hm.handler_eq⟩
  case numbered =>
    intro u hu
    apply h.numbered u
    rcases List.mem_append.mp hu with hu | hu
    · exact List.mem_append_left _ hu
    · exact List.mem_append_right _ (hrest hu)
  case sighted => exact h.sighted
  case known => exact h.known
  case nodup => exact h.nodup
  case late => exact h.late
  case fate => exact fun u hu => (h.fate u hu).withCollector _
  case noted =>
    intro u hu hne hunseen
    rcases List.mem_append.mp (h.noted u hu nofun hunseen) with hnoted | hnoted
    · exact List.mem_append_left _ hnoted
    · rw [hpending] at hnoted
      rcases List.mem_cons.mp hnoted with heq | hnoted
      · exact absurd (hcalled u hu heq.symm) hne
      · exact List.mem_append_right _ hnoted
  case due =>
    intro u hu hdue
    exact h.due u hu (hrest hdue)
  case cause => exact h.cause

/-!
# Runs keep the invariant
-/

theorem inv_opened (hat : Attentive types seen) (lost : UserDataId -> Prop) :
    Inv seen lost none State.opened := by
  constructor
  case registry_live => rfl
  case registry_plain => exact plain_freshWorld
  case ready => exact Or.inl shared_freshWorld
  case numbered => exact fun u hu => absurd hu List.not_mem_nil
  case sighted =>
    intro x hx
    have hx : x ∈ seen [] := hx
    rw [hat.start] at hx
    cases hx
  case known => exact fun u hu => absurd hu List.not_mem_nil
  case nodup => exact List.nodup_nil
  case late => exact Or.inl rfl
  case fate => exact fun u hu => absurd hu List.not_mem_nil
  case noted => exact fun u hu => absurd hu List.not_mem_nil
  case due => exact fun u hu => absurd hu List.not_mem_nil
  case cause => exact fun u hu => absurd hu List.not_mem_nil

theorem Lost.step {s s' : State} {u : UserDataId} (h : Lost types seen s u)
    (hstep : Step types seen s s') : Lost types seen s' u := by
  rcases h with ⟨s₁, t, hfirst, hrest, hu, hnot⟩
  exact ⟨s₁, t, hfirst, hrest.tail hstep, hu, hnot⟩

theorem inv_run (hat : Attentive types seen) {s : State} (hrun : Run types seen State.opened s) :
    Inv seen (Lost types seen s) none s := by
  induction hrun with
  | refl => exact inv_opened hat _
  | @tail s s' hrun hstep ih =>
      have ih := ih.mono fun u hu => hu.step hstep
      cases hstep with
      | push hlive hpush hopen =>
          exact ih.push (ok_pushUserData hlive ih.registry_live ih.ready hpush) rfl hopen
      | pushLate hlive hpush hclosing =>
          exact ih.pushLate (ok_pushUserData hlive ih.registry_live ih.ready hpush) rfl hclosing
      | ask hlive hanswer =>
          refine ih.answered hat hlive hanswer nofun (fun v hv => List.mem_cons_of_mem _ hv) ?_
          intro u _ hargument
          rw [hargument]
          exact Or.inr (Or.inl (List.mem_cons_self ..))
      | other hother => exact ih.ordinary hother
      | @collect t w hopen hcollect =>
          refine ih.collect hcollect hopen ?_
          intro u hu hnot
          exact ⟨s, t, hrun, .single (.collect hopen hcollect), hu, hnot⟩
      | close => exact ih.close
      | @finalize u rest w₁ w₂ t E n hpending hready hlive hargument hanswer =>
          have hcalled (u' : UserDataId) (heq : Value.userdata u = .userdata u') :
              some u = some u' := by
            cases heq
            rfl
          have hpopped := ih.pop hpending fun u' _ => hcalled u'
          have hcalling := hpopped.ordinary hready
          refine hcalling.answered hat hlive hanswer ?_ (fun v hv => hv) ?_
          · intro u' heq
            cases heq
            exact hargument
          · intro u' hu' hargument'
            have heq : Value.userdata u = .userdata u' := hargument.symm.trans hargument'
            cases heq
            have hdue := ih.due u hu' (by rw [hpending]; exact List.mem_cons_self ..)
            rcases hdue with hclosing | hlost
            · exact Or.inl (hready.closing_eq.trans hclosing)
            · exact Or.inr (Or.inr hlost)
      | finalizeOther hpending hother =>
          refine ih.pop hpending ?_
          intro u hu heq
          exact absurd hu (hother u heq)

/-- A sight in writing: its number is as many dots. -/
def mark : Sight -> String
  | .hook u => String.ofList ('h' :: List.replicate u.index '.')
  | .drop u => String.ofList ('d' :: List.replicate u.index '.')

def readMark (s : String) : Option Sight :=
  match s.toList with
  | 'h' :: rest => some (.hook ⟨rest.length⟩)
  | 'd' :: rest => some (.drop ⟨rest.length⟩)
  | _ => none

def readMarks (events : List String) : List Sight := (events.filterMap readMark).reverse

theorem readMarks_mark (x : Sight) (events : List String) :
    readMarks (mark x :: events) = readMarks events ++ [x] := by
  have hread : readMark (mark x) = some x := by
    cases x <;> simp [readMark, mark]
  unfold readMarks
  rw [List.filterMap_cons, hread]
  exact List.reverse_cons

/-- Types without operations of their own, watched. -/
def plainTypes : BoundTypes := watched (fun _ => { name := "", fullName := "" }) mark

theorem attentive_plainTypes : Attentive plainTypes readMarks := by
  apply attentive_watched
  · refine ⟨?_, ?_⟩
    · intro type u t w
      exact ⟨0, w.events, w.log, w.outside, fun _ => rfl, rfl⟩
    · intro type u v w
      exact ⟨w.events, w.log, w.outside, fun _ => rfl, rfl⟩
  · rfl
  · exact readMarks_mark

/-- A value was pushed. -/
@[irreducible] def pushedWorld : World :=
  after (pushUserData ⟨0⟩ ⟨0⟩ (.counter 7) 0) freshWorld

/-- The handler was called with the new userdata. -/
@[irreducible] def askedWorld : World := after (answerOperation plainTypes .gc ⟨0⟩) pushedWorld

/-- The machine closes, and the collector calls the handler once more. -/
@[irreducible] def closingWorld : World := withPending (closed askedWorld) []

@[irreducible] def closedWorld : World := after (answerOperation plainTypes .gc ⟨0⟩) closingWorld

theorem answered_closedWorld :
    answer? (pushUserData ⟨0⟩ ⟨0⟩ (.counter 7) 0) freshWorld = some ⟨0⟩ ∧
      answer? (answerOperation plainTypes .gc ⟨0⟩) pushedWorld = some 0 ∧
      answer? (answerOperation plainTypes .gc ⟨0⟩) closingWorld = some 0 ∧
      (pushedWorld.thread ⟨0⟩).argument 0 = .userdata ⟨0⟩ := by
  decide +kernel

theorem ok_pushedWorld :
    pushUserData ⟨0⟩ ⟨0⟩ (.counter 7) 0 idle freshWorld = .ok ⟨0⟩ pushedWorld := by
  unfold pushedWorld
  exact ok_after answered_closedWorld.1

end Lifetimes

end LuaHost
