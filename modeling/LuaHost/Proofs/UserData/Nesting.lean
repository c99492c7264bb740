import LuaHost.Interface.Opening
import LuaHost.Proofs.UserData.Finding
import LuaHost.Stock.Host

/-!
# Hooks that fail and hooks that nest

A block dies only when its hook and the destructor have returned.  The hook may
end with a panic or an error, and scripts that it calls may ask for the
finalization of the same value once more.  Every call of the handler that finds
the value alive runs the hook, and every hook that returns is followed by the
destructor: the hooks of a value all begin before its destructor runs, which
runs as often as a hook has returned.
-/

namespace LuaHost

namespace Nesting

open Interface Machine
open Lifetimes (sightsOf sightsOf_eq Ordinary withPending closed)

/-!
# Runs
-/

/-- A machine, with the userdata into which values were pushed before it began
to close, and while it was closing, and the calls of the handler of finalization
that found a value alive: those that scripts made, all that began, those that
run, the innermost first, and how the others ended.  Some began while another
for the same value was running. -/
structure State where
  world : World
  pushed : List UserDataId := []
  late : List UserDataId := []
  asked : List UserDataId := []
  entered : List UserDataId := []
  active : List UserDataId := []
  returned : List UserDataId := []
  failed : List UserDataId := []
  crossed : List UserDataId := []

/-- A hook begins. -/
def State.enter (s : State) (u : UserDataId) (w : World) : State :=
  { s with
    world := w
    entered := u :: s.entered
    active := u :: s.active
    crossed := if u ∈ s.active then u :: s.crossed else s.crossed }

variable {types : BoundTypes} {seen : List String -> List Sight}

/-- The handler of finalization finds a living value in its first argument, and
the hook begins. -/
structure Entered (seen : List String -> List Sight) (t : ThreadId) (w : World) (u : UserDataId)
    (w' : World) : Prop where
  living : exists b, w.livingTo (w.valueAt t 1) = some (u, b)
  began : exists th events log outside, (w.thread t).Alike th ∧
    w' = (w.setThread t th).withHost events log outside ∧ seen events = seen w.events ++ [.hook u]

/-- One step of a run.  A hook may do anything before it returns or fails, and
what follows a hook that returned is the destructor.  The collector calls the
handlers of the objects that are due in their order; a call may fail before it
gets to the hook. -/
inductive Step (types : BoundTypes) (seen : List String -> List Sight) : State -> State -> Prop where
  | push {s : State} {t : ThreadId} {type : HostType} {v : HostValue} {userValues : Nat}
      {E : Engine} {u : UserDataId} {w : World} : s.world.liveThread t = true ->
      pushUserData t type v userValues E s.world = .ok u w ->
      s.world.collector.closing = false ->
      Step types seen s { s with world := w, pushed := u :: s.pushed }
  | pushLate {s : State} {t : ThreadId} {type : HostType} {v : HostValue} {userValues : Nat}
      {E : Engine} {u : UserDataId} {w : World} : s.world.liveThread t = true ->
      pushUserData t type v userValues E s.world = .ok u w ->
      s.world.collector.closing = true ->
      Step types seen s { s with world := w, late := u :: s.late }
  | other {s : State} {w : World} : Ordinary seen s.world w -> Step types seen s { s with world := w }
  | collect {s : State} {t : ThreadId} {w : World} : Swept t s.world w ->
      Step types seen s { s with world := w }
  | close {s : State} : Step types seen s { s with world := closed s.world }
  | ask {s : State} {t : ThreadId} {u : UserDataId} {w : World} :
      Entered seen t s.world u w ->
      Step types seen s { s.enter u w with asked := u :: s.asked }
  | finalize {s : State} {u : UserDataId} {rest : List Value} {w₁ w₂ : World} {t : ThreadId} :
      s.world.collector.pending = .userdata u :: rest ->
      Ordinary seen (withPending s.world rest) w₁ -> w₁.valueAt t 1 = .userdata u ->
      Entered seen t w₁ u w₂ -> Step types seen s (s.enter u w₂)
  | skip {s : State} {v : Value} {rest : List Value} : s.world.collector.pending = v :: rest ->
      (forall u b, s.world.livingTo v = some (u, b) -> u ∉ s.pushed) ->
      Step types seen s { s with world := withPending s.world rest }
  | refuse {s : State} {u : UserDataId} {rest : List Value} :
      s.world.collector.pending = .userdata u :: rest ->
      Step types seen s { s with world := withPending s.world rest, failed := u :: s.failed }
  | leave {s : State} {u : UserDataId} {rest : List UserDataId} {type : HostType} {E : Engine}
      {w : World} : s.active = u :: rest -> dropBound types u type E s.world = .ok () w ->
      Step types seen s { s with world := w, active := rest, returned := u :: s.returned }
  | fail {s : State} {u : UserDataId} {rest : List UserDataId} : s.active = u :: rest ->
      Step types seen s { s with active := rest, failed := u :: s.failed }

abbrev Run (types : BoundTypes) (seen : List String -> List Sight) : State -> State -> Prop :=
  Relation.ReflTransGen (Step types seen)

/-- A machine that was opened, with nothing pushed yet. -/
def State.opened : State := { world := freshWorld }

/-- No finalizer is left to be called after the machine began to close, and none
is running. -/
def State.Closed (s : State) : Prop :=
  s.world.collector.closing = true ∧ s.world.collector.finalizable = [] ∧
    s.world.collector.pending = [] ∧ s.active = []

/-- Bound types whose destructors return without calling back into the machine,
and write down that they ran, so that `seen` reads it.  Their hooks may do
anything. -/
structure Dropping (types : BoundTypes) (seen : List String -> List Sight) : Prop where
  start : seen [] = []
  drop : forall type u v w, exists events log outside,
    Returns ((types type).drop u v) w () (w.withHost events log outside) ∧
      seen events = seen w.events ++ [.drop u]

/-- The destructor runs, and the block is dead from then on. -/
theorem ok_dropBound (hdrop : Dropping types seen) {u : UserDataId} {type : HostType} {E : Engine}
    {w w' : World} (h : dropBound types u type E w = .ok () w') :
    exists events log outside, w' = (w.bury u).withHost events log outside ∧
      seen events = seen w.events ++ [.drop u] := by
  unfold dropBound at h
  rcases ok_bind h with ⟨v, w₁, hvalue, h⟩
  cases hvalue
  rcases ok_bind h with ⟨_, w₂, hdropped, h⟩
  rcases hdrop.drop type u _ w with ⟨events, lg, outside, hrun, hseen⟩
  rcases hrun.ok_eq hdropped with ⟨_, rfl⟩
  rcases ok_bind h with ⟨_, w₃, hmodify, h⟩
  cases hmodify
  cases h
  exact ⟨events, _, outside, rfl, hseen⟩

/-!
# The invariant
-/

/-- The block of a userdata that is in the heap is alive until a hook of it has
returned. -/
def Blocked (w : World) (u : UserDataId) (returned : Nat) : Prop :=
  forall d, w.heap.userdata.find? u.index = some d ->
    exists b m, d.payload = .block b ∧ (b.alive = true ↔ returned = 0) ∧
      d.metatable = some m ∧ w.shared = .table m

/-- What host code has seen of a value of which some hooks have begun and some
have returned. -/
def sightsAfter (u : UserDataId) (begun returned : Nat) : List Sight :=
  List.replicate begun (.hook u) ++ List.replicate returned (.drop u)

/-- What every run keeps.  A value whose hook has not begun is noted or due,
except the one whose handler is being called and those whose handler failed. -/
structure Inv (seen : List String -> List Sight) (called : Option UserDataId) (s : State) :
    Prop where
  registry_live : s.world.heap.tables.live s.world.registry.index = true
  registry_plain : (s.world.heap.tables.get s.world.registry.index).metatable = none
  ready : s.world.shared = .nil ∨ exists m, SharedReady s.world m
  sighted : forall x, x ∈ seen s.world.events -> x.subject.index < s.world.heap.userdata.next
  known : forall u, u ∈ s.pushed ++ s.late -> u.index < s.world.heap.userdata.next
  begun : forall u, u ∈ s.entered -> u.index < s.world.heap.userdata.next
  nodup : (s.pushed ++ s.late).Nodup
  late : s.late = [] ∨ s.world.collector.closing = true
  balanced : forall u, s.returned.count u + s.active.count u ≤ s.entered.count u
  settled : forall u, u ∉ s.failed -> s.entered.count u = s.returned.count u + s.active.count u
  calm : forall u, u ∈ s.pushed ++ s.late -> u ∉ s.failed -> u ∉ s.crossed ->
    s.entered.count u ≤ 1
  sights : forall u, u ∈ s.pushed ++ s.late ->
    sightsOf seen s.world u = sightsAfter u (s.entered.count u) (s.returned.count u)
  blocked : forall u, u ∈ s.pushed ++ s.late -> Blocked s.world u (s.returned.count u)
  noted : forall u, u ∈ s.pushed -> called ≠ some u -> u ∉ s.entered -> u ∉ s.failed ->
    s.world.heap.userdata.live u.index = true ∧
      Value.userdata u ∈ s.world.collector.finalizable ++ s.world.collector.pending

variable {called : Option UserDataId} {s : State}

/-!
# Ordinary steps
-/

theorem Blocked.ordinary {w w' : World} {u : UserDataId} {n : Nat} (h : Blocked w u n)
    (hu : u.index < w.heap.userdata.next) (hw : Ordinary seen w w') : Blocked w' u n := by
  intro d hd
  cases hold : w.heap.userdata.find? u.index with
  | none =>
      rw [hw.freed u.index hu hold] at hd
      cases hd
  | some d₀ =>
      rcases h d₀ hold with ⟨b, m, hblock, halive, hmeta, hshared⟩
      rcases hw.bound u.index d₀ b hold hblock with ⟨d', b', hd', hblock', halive', hmeta'⟩
      rw [hd] at hd'
      cases hd'
      refine ⟨b', m, hblock', ?_, hmeta'.trans hmeta, hw.shared_eq.trans hshared⟩
      rw [halive']
      exact halive

theorem Inv.ordinary (h : Inv seen called s) {w : World} (hw : Ordinary seen s.world w) :
    Inv seen called { s with world := w } := by
  constructor
  case registry_live => exact hw.registry_live h.registry_live
  case registry_plain => exact hw.registry_plain h.registry_plain
  case ready =>
    rcases h.ready with hnil | ⟨m, hready⟩
    · exact Or.inl (hw.shared_eq.trans hnil)
    · exact Or.inr ⟨m, hw.ready m hready⟩
  case sighted =>
    intro x hx
    have hx : x ∈ seen w.events := hx
    rw [hw.seen_eq] at hx
    exact Nat.lt_of_lt_of_le (h.sighted x hx) hw.next_le
  case known => exact fun u hu => Nat.lt_of_lt_of_le (h.known u hu) hw.next_le
  case begun => exact fun u hu => Nat.lt_of_lt_of_le (h.begun u hu) hw.next_le
  case nodup => exact h.nodup
  case late => exact h.late.imp_right hw.closing_eq.trans
  case balanced => exact h.balanced
  case settled => exact h.settled
  case calm => exact h.calm
  case sights => exact fun u hu => (sightsOf_eq hw.seen_eq u).trans (h.sights u hu)
  case blocked => exact fun u hu => (h.blocked u hu).ordinary (h.known u hu) hw
  case noted =>
    intro u hu hcalled hentered hfailed
    rcases h.noted u hu hcalled hentered hfailed with ⟨hlive, hnoted⟩
    refine ⟨?_, ?_⟩
    · have hfound := Store.find?_of_live hlive
      rcases h.blocked u (List.mem_append_left _ hu) _ hfound with ⟨b, _, hblock, _⟩
      rcases hw.bound u.index _ b hfound hblock with ⟨d', _, hd', _⟩
      show (w.heap.userdata.find? u.index).isSome = true
      rw [hd']
      rfl
    · show _ ∈ w.collector.finalizable ++ w.collector.pending
      rw [hw.pending_eq]
      rcases List.mem_append.mp hnoted with hnoted | hnoted
      · exact List.mem_append_left _ (hw.finalizable _ hnoted)
      · exact List.mem_append_right _ hnoted

/-!
# The handler
-/

theorem sightsOf_append {w : World} (w' : World) {x : Sight}
    (h : seen w'.events = seen w.events ++ [x]) (u : UserDataId) :
    sightsOf seen w' u = sightsOf seen w u ++ if x.subject = u then [x] else [] := by
  unfold sightsOf
  rw [h, List.filter_append, List.filter_singleton, Bool.cond_decide]

theorem find?_of_living {w : World} {v : Value} {u : UserDataId} {b : Block}
    (h : w.livingTo v = some (u, b)) :
    exists d, w.heap.userdata.find? u.index = some d ∧ d.payload = .block b ∧ b.alive = true := by
  rcases World.livingTo_eq_some.mp h with ⟨_, _, hblock, halive⟩
  rcases Lifetimes.find?_of_block? hblock with ⟨d, hfind, hpayload⟩
  exact ⟨d, hfind, hpayload, halive⟩

/-- As long as a value is alive, no hook of it has returned. -/
theorem Blocked.unreturned {w : World} {v : Value} {u : UserDataId} {b : Block} {n : Nat}
    (h : Blocked w u n) (hliving : w.livingTo v = some (u, b)) : n = 0 := by
  rcases find?_of_living hliving with ⟨d, hfind, hpayload, halive⟩
  rcases h d hfind with ⟨b', _, hpayload', halive', _⟩
  rw [hpayload] at hpayload'
  cases hpayload'
  exact halive'.mp halive

theorem sightsAfter_hook (u : UserDataId) (begun : Nat) :
    sightsAfter u begun 0 ++ [.hook u] = sightsAfter u (begun + 1) 0 := by
  unfold sightsAfter
  rw [List.replicate_zero, List.append_nil, List.append_nil, List.replicate_succ']

theorem sightsAfter_drop (u : UserDataId) (begun returned : Nat) :
    sightsAfter u begun returned ++ [.drop u] = sightsAfter u begun (returned + 1) := by
  unfold sightsAfter
  rw [List.append_assoc, List.replicate_succ']

/-- A hook that begins is the first of its value, unless another one has failed or
is running. -/
theorem Inv.calm_enter (h : Inv seen called s) {u v : UserDataId}
    (hunreturned : v = u -> s.returned.count v = 0) (hv : v ∈ s.pushed ++ s.late)
    (hfailed : v ∉ s.failed)
    (hcrossed : v ∉ if u ∈ s.active then u :: s.crossed else s.crossed) :
    (u :: s.entered).count v ≤ 1 := by
  have hold : v ∉ s.crossed := by
    intro hmem
    apply hcrossed
    split
    · exact List.mem_cons_of_mem _ hmem
    · exact hmem
  by_cases heq : v = u
  · have hidle : v ∉ s.active := by
      intro hactive
      rw [heq] at hactive hcrossed
      rw [if_pos hactive] at hcrossed
      exact hcrossed (List.mem_cons_self ..)
    have hsettled := h.settled v hfailed
    rw [hunreturned heq, List.count_eq_zero_of_not_mem hidle] at hsettled
    rw [← heq, List.count_cons_self, hsettled]
  · rw [List.count_cons_of_ne (Ne.symm heq)]
    exact h.calm v hv hfailed hold

theorem Inv.enter (h : Inv seen called s) {t : ThreadId} {u : UserDataId} {w : World}
    (hw : Entered seen t s.world u w) (hcalled : forall v, called = some v -> v = u) :
    Inv seen none (s.enter u w) := by
  rcases hw with ⟨⟨b, hliving⟩, th, events, lg, outside, _, rfl, hseen⟩
  have hstack := h.ordinary (Lifetimes.ordinary_setThread seen s.world t th)
  have hnumber : u.index < s.world.heap.userdata.next := by
    rcases find?_of_living hliving with ⟨d, hfind, _⟩
    exact Store.lt_next_of_live (Store.live_of_find? hfind)
  have hunreturned : forall {v}, v ∈ s.pushed ++ s.late -> v = u -> s.returned.count v = 0 := by
    rintro v hv rfl
    exact (h.blocked v hv).unreturned hliving
  have hsights := sightsOf_append ((s.world.setThread t th).withHost events lg outside) hseen
  constructor
  case registry_live => exact hstack.registry_live
  case registry_plain => exact hstack.registry_plain
  case ready =>
    exact hstack.ready.imp_right fun ⟨m, hm⟩ => ⟨m, hm.shared_eq, hm.live, hm.handler_eq⟩
  case sighted =>
    intro x hx
    have hx : x ∈ seen events := hx
    rw [hseen] at hx
    rcases List.mem_append.mp hx with hx | hx
    · exact h.sighted x hx
    · cases List.mem_singleton.mp hx
      exact hnumber
  case known => exact h.known
  case begun =>
    intro v hv
    rcases List.mem_cons.mp hv with rfl | hv
    · exact hnumber
    · exact h.begun v hv
  case nodup => exact h.nodup
  case late => exact h.late
  case balanced =>
    intro v
    have hbalanced := h.balanced v
    show s.returned.count v + (u :: s.active).count v ≤ (u :: s.entered).count v
    rw [List.count_cons, List.count_cons]
    omega
  case settled =>
    intro v hv
    have hsettled := h.settled v hv
    show (u :: s.entered).count v = s.returned.count v + (u :: s.active).count v
    rw [List.count_cons, List.count_cons]
    omega
  case calm => exact fun v hv => h.calm_enter (hunreturned hv) hv
  case sights =>
    intro v hv
    refine (hsights v).trans ?_
    rw [h.sights v hv]
    show _ = sightsAfter v ((u :: s.entered).count v) (s.returned.count v)
    by_cases heq : v = u
    · rw [hunreturned hv heq, if_pos (show (Sight.hook u).subject = v from heq.symm), heq,
        List.count_cons_self]
      exact sightsAfter_hook u _
    · rw [List.count_cons_of_ne (Ne.symm heq),
        if_neg (show (Sight.hook u).subject ≠ v from Ne.symm heq), List.append_nil]
  case blocked => exact fun v hv => h.blocked v hv
  case noted =>
    intro v hv _ hentered hfailed
    refine h.noted v hv ?_ (List.not_mem_of_not_mem_cons hentered) hfailed
    exact fun hcall => List.ne_of_not_mem_cons hentered (hcalled v hcall)

/-- The block of the value that is dropped dies, and the others are as they were. -/
theorem Blocked.bury {w : World} {v : UserDataId} {returned : List UserDataId}
    (h : Blocked w v (returned.count v)) (u : UserDataId) (events : List String)
    (log : List LogRecord) (outside : Outside) :
    Blocked ((w.bury u).withHost events log outside) v ((u :: returned).count v) := by
  intro d hd
  have hd : (w.bury u).heap.userdata.find? v.index = some d := hd
  rw [Lifetimes.find?_bury] at hd
  by_cases heq : v = u
  · subst heq
    rw [if_pos rfl] at hd
    rcases Option.map_eq_some_iff.mp hd with ⟨d₀, hd₀, rfl⟩
    rcases h d₀ hd₀ with ⟨b, m, hpayload, _, hmeta, hshared⟩
    refine ⟨{ b with alive := false }, m, by dsimp only; rw [hpayload], ?_, hmeta, hshared⟩
    rw [List.count_cons_self]
    exact ⟨nofun, nofun⟩
  · rw [if_neg (UserDataId.index_ne (Ne.symm heq))] at hd
    rw [List.count_cons_of_ne (Ne.symm heq)]
    exact h d hd

/-- A hook that was running has returned, and the value is dropped. -/
theorem Inv.leave (h : Inv seen none s) (hdrop : Dropping types seen) {u : UserDataId}
    {rest : List UserDataId} {type : HostType} {E : Engine} {w : World}
    (hactive : s.active = u :: rest) (hrun : dropBound types u type E s.world = .ok () w) :
    Inv seen none { s with world := w, active := rest, returned := u :: s.returned } := by
  rcases ok_dropBound hdrop hrun with ⟨events, lg, outside, rfl, hseen⟩
  have hsights := sightsOf_append ((s.world.bury u).withHost events lg outside) hseen
  have hnext : (s.world.bury u).heap.userdata.next = s.world.heap.userdata.next :=
    Store.next_modify _ _ _
  have hentered : u ∈ s.entered := by
    have hbalanced := h.balanced u
    rw [hactive, List.count_cons_self] at hbalanced
    exact List.count_pos_iff.mp (by omega)
  constructor
  case registry_live => exact h.registry_live
  case registry_plain => exact h.registry_plain
  case ready => exact h.ready.imp_right fun ⟨m, hm⟩ => ⟨m, hm.shared_eq, hm.live, hm.handler_eq⟩
  case sighted =>
    intro x hx
    refine Nat.lt_of_lt_of_eq ?_ hnext.symm
    have hx : x ∈ seen events := hx
    rw [hseen] at hx
    rcases List.mem_append.mp hx with hx | hx
    · exact h.sighted x hx
    · cases List.mem_singleton.mp hx
      exact h.begun u hentered
  case known => exact fun v hv => Nat.lt_of_lt_of_eq (h.known v hv) hnext.symm
  case begun => exact fun v hv => Nat.lt_of_lt_of_eq (h.begun v hv) hnext.symm
  case nodup => exact h.nodup
  case late => exact h.late
  case balanced =>
    intro v
    have hbalanced := h.balanced v
    show (u :: s.returned).count v + rest.count v ≤ s.entered.count v
    rw [hactive, List.count_cons] at hbalanced
    rw [List.count_cons]
    omega
  case settled =>
    intro v hv
    have hsettled := h.settled v hv
    show s.entered.count v = (u :: s.returned).count v + rest.count v
    rw [hactive, List.count_cons] at hsettled
    rw [List.count_cons]
    omega
  case calm => exact h.calm
  case sights =>
    intro v hv
    refine (hsights v).trans ?_
    rw [h.sights v hv]
    show _ = sightsAfter v (s.entered.count v) ((u :: s.returned).count v)
    by_cases heq : v = u
    · subst heq
      rw [List.count_cons_self, if_pos (show (Sight.drop v).subject = v from rfl)]
      exact sightsAfter_drop v _ _
    · rw [List.count_cons_of_ne (Ne.symm heq),
        if_neg (show (Sight.drop u).subject ≠ v from Ne.symm heq), List.append_nil]
  case blocked => exact fun v hv => (h.blocked v hv).bury u events lg outside
  case noted =>
    intro v hv hcalled hentered' hfailed
    rcases h.noted v hv hcalled hentered' hfailed with ⟨hlive, hnoted⟩
    exact ⟨(Store.live_modify _ _ _ _).trans hlive, hnoted⟩

theorem Inv.failed (h : Inv seen called s) (u : UserDataId) :
    Inv seen called { s with failed := u :: s.failed } :=
  { h with
    settled := fun v hv => h.settled v (List.not_mem_of_not_mem_cons hv)
    calm := fun v hv hfailed => h.calm v hv (List.not_mem_of_not_mem_cons hfailed)
    noted := fun v hv hcalled hentered hfailed =>
      h.noted v hv hcalled hentered (List.not_mem_of_not_mem_cons hfailed) }

theorem Inv.fail (h : Inv seen none s) {u : UserDataId} {rest : List UserDataId}
    (hactive : s.active = u :: rest) :
    Inv seen none { s with active := rest, failed := u :: s.failed } := by
  refine { h.failed u with balanced := fun v => ?_, settled := fun v hv => ?_ }
  · have hbalanced := h.balanced v
    show s.returned.count v + rest.count v ≤ s.entered.count v
    rw [hactive, List.count_cons] at hbalanced
    omega
  · have hsettled := h.settled v (List.not_mem_of_not_mem_cons hv)
    rw [hactive, List.count_cons_of_ne (List.ne_of_not_mem_cons hv).symm] at hsettled
    exact hsettled

/-!
# Pushing
-/

theorem Blocked.pushed {w w' : World} {u v : UserDataId} {b : Block} {n : Nat} (h : Blocked w u n)
    (hu : u.index < w.heap.userdata.next) (hw : Holds w v b w') : Blocked w' u n := by
  intro d hd
  rw [hw.find?_old hu] at hd
  rcases h d hd with ⟨b', m, hpayload, halive, hmeta, hshared⟩
  exact ⟨b', m, hpayload, halive, hmeta, hw.shared_old hshared⟩

/-- The invariant holds after a push, and the new value is alive. -/
theorem Inv.holds (h : Inv seen none s) {u : UserDataId} {b : Block} {w : World}
    (hw : Holds s.world u b w) (halive : b.alive = true) :
    Inv seen none { s with world := w } ∧ u ∉ s.pushed ++ s.late ∧ u ∉ s.entered ∧
      u.index < w.heap.userdata.next ∧ sightsOf seen w u = [] ∧ Blocked w u 0 ∧
      w.heap.userdata.live u.index = true := by
  rcases hw.find?_new with ⟨m, _, hshared, hfind⟩
  have hnext := hw.next_eq
  have hold : forall {i}, i < s.world.heap.userdata.next -> i < w.heap.userdata.next := by
    intro i hi
    rw [hnext]
    exact Nat.lt_succ_of_lt hi
  have hnew : ¬ u.index < s.world.heap.userdata.next := by
    rw [hw.fresh]
    exact Nat.lt_irrefl _
  refine ⟨?_, fun hu => hnew (h.known u hu), fun hu => hnew (h.begun u hu), ?_, ?_, ?_, ?_⟩
  · constructor
    case registry_live => exact hw.registry_live
    case registry_plain => exact hw.registry_metatable.trans h.registry_plain
    case ready => exact Or.inr (hw.shared.imp fun m ⟨_, hready, _⟩ => hready)
    case sighted =>
      intro x hx
      have hx : x ∈ seen w.events := hx
      rw [hw.events_eq] at hx
      exact hold (h.sighted x hx)
    case known => exact fun v hv => hold (h.known v hv)
    case begun => exact fun v hv => hold (h.begun v hv)
    case nodup => exact h.nodup
    case late => exact h.late.imp_right hw.closing_eq.trans
    case balanced => exact h.balanced
    case settled => exact h.settled
    case calm => exact h.calm
    case sights =>
      exact fun v hv => (sightsOf_eq (congrArg seen hw.events_eq) v).trans (h.sights v hv)
    case blocked => exact fun v hv => (h.blocked v hv).pushed (h.known v hv) hw
    case noted =>
      intro v hv hcalled hentered hfailed
      rcases h.noted v hv hcalled hentered hfailed with ⟨hlive, hnoted⟩
      refine ⟨?_, hw.noted_old hnoted⟩
      show (w.heap.userdata.find? v.index).isSome = true
      rw [hw.find?_old (h.known v (List.mem_append_left _ hv))]
      exact hlive
  · rw [hnext, hw.fresh]
    exact Nat.lt_succ_self _
  · apply List.filter_eq_nil_iff.mpr
    intro x hx hsubject
    rw [hw.events_eq] at hx
    have hnumber := h.sighted x hx
    rw [of_decide_eq_true hsubject] at hnumber
    exact hnew hnumber
  · intro d hd
    rw [hfind] at hd
    cases hd
    exact ⟨b, m, rfl, ⟨fun _ => rfl, fun _ => halive⟩, rfl, hshared⟩
  · exact Store.live_of_find? hfind

/-- What holds of a value that was pushed, in whatever place of the list. -/
theorem Inv.hold (h : Inv seen none s) {u : UserDataId} {b : Block} {w : World}
    (hw : Holds s.world u b w) (halive : b.alive = true) {pushed late : List UserDataId}
    (hperm : (pushed ++ late).Perm (u :: (s.pushed ++ s.late)))
    (hpushed : forall v, v ∈ pushed -> v ∈ s.pushed ∨
      v = u ∧ Value.userdata u ∈ w.collector.finalizable ++ w.collector.pending)
    (hlate : late = [] ∨ w.collector.closing = true) :
    Inv seen none { s with world := w, pushed := pushed, late := late } := by
  rcases h.holds hw halive with ⟨hinv, hnew, hunentered, hself, hunseen, hblocked, hlive⟩
  have hentered : s.entered.count u = 0 := List.count_eq_zero_of_not_mem hunentered
  have hreturned : s.returned.count u = 0 := by
    have hbalanced := h.balanced u
    omega
  have hcons : forall {p : UserDataId -> Prop}, p u -> (forall v, v ∈ s.pushed ++ s.late -> p v) ->
      forall v, v ∈ pushed ++ late -> p v := by
    intro p hu hrest v hv
    rcases List.mem_cons.mp (hperm.mem_iff.mp hv) with rfl | hv
    · exact hu
    · exact hrest v hv
  refine { hinv with
    known := hcons hself hinv.known
    nodup := hperm.nodup_iff.mpr (List.nodup_cons.mpr ⟨hnew, hinv.nodup⟩)
    late := hlate
    calm := hcons (fun _ _ => ?_) hinv.calm
    sights := hcons ?_ hinv.sights
    blocked := hcons ?_ hinv.blocked
    noted := ?_ }
  · show s.entered.count u ≤ 1
    rw [hentered]
    exact Nat.zero_le 1
  · show sightsOf seen w u = sightsAfter u (s.entered.count u) (s.returned.count u)
    rw [hunseen, hentered, hreturned]
    rfl
  · show Blocked w u (s.returned.count u)
    rw [hreturned]
    exact hblocked
  · intro v hv hcalled hunentered hfailed
    rcases hpushed v hv with hv | ⟨rfl, hnoted⟩
    · exact hinv.noted v hv hcalled hunentered hfailed
    · exact ⟨hlive, hnoted⟩

theorem Inv.push (h : Inv seen none s) {u : UserDataId} {b : Block} {w : World}
    (hw : Holds s.world u b w) (halive : b.alive = true)
    (hopen : s.world.collector.closing = false) :
    Inv seen none { s with world := w, pushed := u :: s.pushed } := by
  refine h.hold hw halive (List.Perm.refl _) ?_ (h.late.imp_right hw.closing_eq.trans)
  intro v hv
  rcases List.mem_cons.mp hv with rfl | hv
  · exact Or.inr ⟨rfl, List.mem_append.mpr (hw.noted hopen)⟩
  · exact Or.inl hv

theorem Inv.pushLate (h : Inv seen none s) {u : UserDataId} {b : Block} {w : World}
    (hw : Holds s.world u b w) (halive : b.alive = true)
    (hclosing : s.world.collector.closing = true) :
    Inv seen none { s with world := w, late := u :: s.late } :=
  h.hold hw halive List.perm_middle (fun _ hv => Or.inl hv)
    (Or.inr (hw.closing_eq.trans hclosing))

/-!
# Collecting and closing
-/

theorem Inv.collect (h : Inv seen none s) {t : ThreadId} {w : World}
    (hw : Collected t s.world w) : Inv seen none { s with world := w } := by
  rcases Lifetimes.collected_shared hw h.registry_live h.registry_plain with
    ⟨hlive, hget, hshared, hready⟩
  have hnext {i : Nat} (hi : i < s.world.heap.userdata.next) : i < w.heap.userdata.next :=
    Nat.lt_of_lt_of_eq hi hw.userdata_next.symm
  constructor
  case registry_live => exact hlive
  case registry_plain => exact (congrArg Table.metatable hget).trans h.registry_plain
  case ready =>
    rcases h.ready with hnil | ⟨m, hm⟩
    · exact Or.inl (hshared.trans hnil)
    · exact Or.inr ⟨m, hready m hm⟩
  case sighted =>
    intro x hx
    have hx : x ∈ seen w.events := hx
    rw [hw.events_eq] at hx
    exact hnext (h.sighted x hx)
  case known => exact fun u hu => hnext (h.known u hu)
  case begun => exact fun u hu => hnext (h.begun u hu)
  case nodup => exact h.nodup
  case late => exact h.late.imp_right hw.closing_eq.trans
  case balanced => exact h.balanced
  case settled => exact h.settled
  case calm => exact h.calm
  case sights =>
    exact fun u hu => (sightsOf_eq (congrArg seen hw.events_eq) u).trans (h.sights u hu)
  case blocked =>
    intro u hu d hd
    rcases h.blocked u hu d (hw.find?_userdata hd) with ⟨b, m, hpayload, halive, hmeta, hsh⟩
    exact ⟨b, m, hpayload, halive, hmeta, hshared.trans hsh⟩
  case noted =>
    intro u hu hcalled hentered hfailed
    rcases h.noted u hu hcalled hentered hfailed with ⟨hlive, hv⟩
    refine ⟨?_, (hw.noted_iff _).mpr hv⟩
    show (w.heap.userdata.find? u.index).isSome = true
    rw [hw.userdata_noted u hv]
    exact hlive

/-- The lists of the collector change, and what is noted or due still is, if its
handler has yet to be called. -/
theorem Inv.withCollector (h : Inv seen none s) {c : Collector}
    (hclosing : s.world.collector.closing = true -> c.closing = true)
    (hnoted : forall u, u ∈ s.pushed -> called ≠ some u -> u ∉ s.entered -> u ∉ s.failed ->
      Value.userdata u ∈ s.world.collector.finalizable ++ s.world.collector.pending ->
      Value.userdata u ∈ c.finalizable ++ c.pending) :
    Inv seen called { s with world := { s.world with collector := c } } :=
  { h with
    ready := h.ready.imp_right fun ⟨m, hm⟩ => ⟨m, hm.shared_eq, hm.live, hm.handler_eq⟩
    late := h.late.imp_right hclosing
    blocked := fun u hu => h.blocked u hu
    noted := fun u hu hcalled hentered hfailed =>
      have hold := h.noted u hu nofun hentered hfailed
      ⟨hold.1, hnoted u hu hcalled hentered hfailed hold.2⟩ }

theorem Inv.close (h : Inv seen none s) : Inv seen none { s with world := closed s.world } := by
  refine h.withCollector (fun _ => rfl) ?_
  intro u _ _ _ _ hv
  refine List.mem_append_right _ ?_
  rcases List.mem_append.mp hv with hv | hv
  · exact List.mem_append_right _ hv
  · exact List.mem_append_left _ hv

theorem Inv.pop (h : Inv seen none s) {v : Value} {rest : List Value}
    (hpending : s.world.collector.pending = v :: rest)
    (hfirst : forall u, v = .userdata u -> u ∈ s.pushed -> u ∉ s.entered -> u ∉ s.failed ->
      called = some u) :
    Inv seen called { s with world := withPending s.world rest } := by
  refine h.withCollector (fun hclosing => hclosing) ?_
  intro u hu hne hentered hfailed hv
  rcases List.mem_append.mp hv with hv | hv
  · exact List.mem_append_left _ hv
  · rw [hpending] at hv
    rcases List.mem_cons.mp hv with heq | hv
    · exact absurd (hfirst u heq.symm hu hentered hfailed) hne
    · exact List.mem_append_right _ hv

/-- A pushed value whose hook has not begun is alive. -/
theorem Inv.living (h : Inv seen called s) {u : UserDataId} (hu : u ∈ s.pushed ++ s.late)
    (hreturned : s.returned.count u = 0) (hlive : s.world.heap.userdata.live u.index = true) :
    exists b, s.world.livingTo (.userdata u) = some (u, b) := by
  have hfind := Store.find?_of_live hlive
  rcases h.blocked u hu _ hfind with ⟨b, m, hpayload, halive, hmeta, hshared⟩
  refine ⟨b, ?_⟩
  unfold World.livingTo
  rw [Lifetimes.boundTo_of_living hfind hpayload hmeta hshared, Option.filter_some,
    if_pos (halive.mpr hreturned)]

/-!
# Runs keep the invariant
-/

theorem inv_opened (hdrop : Dropping types seen) : Inv seen none State.opened := by
  constructor
  case registry_live => rfl
  case registry_plain => exact plain_freshWorld
  case ready => exact Or.inl shared_freshWorld
  case sighted =>
    intro x hx
    have hx : x ∈ seen [] := hx
    rw [hdrop.start] at hx
    cases hx
  case known => exact fun u hu => absurd hu List.not_mem_nil
  case begun => exact fun u hu => absurd hu List.not_mem_nil
  case nodup => exact List.nodup_nil
  case late => exact Or.inl rfl
  case balanced => exact fun u => Nat.le_refl 0
  case settled => exact fun u _ => rfl
  case calm => exact fun u hu => absurd hu List.not_mem_nil
  case sights => exact fun u hu => absurd hu List.not_mem_nil
  case blocked => exact fun u hu => absurd hu List.not_mem_nil
  case noted => exact fun u hu => absurd hu List.not_mem_nil

theorem Inv.step (hdrop : Dropping types seen) (h : Inv seen none s) {s' : State}
    (hstep : Step types seen s s') : Inv seen none s' := by
  cases hstep with
  | push hlive hpush hopen =>
      exact h.push (ok_pushUserData hlive h.registry_live h.ready hpush) rfl hopen
  | pushLate hlive hpush hclosing =>
      exact h.pushLate (ok_pushUserData hlive h.registry_live h.ready hpush) rfl hclosing
  | other hother => exact h.ordinary hother
  | collect hcollect => exact h.collect hcollect.toCollected
  | close => exact h.close
  | ask henter => exact { h.enter henter nofun with }
  | @finalize u rest w₁ w₂ t hpending hready _ henter =>
      have hpopped : Inv seen (some u) { s with world := withPending s.world rest } := by
        refine h.pop hpending fun u' heq _ _ _ => ?_
        cases heq
        rfl
      refine (hpopped.ordinary hready).enter henter fun v heq => ?_
      cases heq
      rfl
  | skip hpending hother =>
      refine h.pop hpending fun u heq hu hentered hfailed => ?_
      -- a value whose hook has not begun is alive
      have hlive := (h.noted u hu nofun hentered hfailed).1
      have hreturned : s.returned.count u = 0 := by
        have hbalanced := h.balanced u
        rw [List.count_eq_zero_of_not_mem hentered] at hbalanced
        omega
      rcases h.living (List.mem_append_left _ hu) hreturned hlive with ⟨b, hliving⟩
      rw [← heq] at hliving
      exact absurd hu (hother u b hliving)
  | @refuse u rest hpending =>
      refine (h.failed u).pop hpending fun u' heq _ _ hfailed => ?_
      cases heq
      exact absurd (List.mem_cons_self ..) hfailed
  | leave hactive hrun => exact h.leave hdrop hactive hrun
  | fail hactive => exact h.fail hactive

theorem inv_run (hdrop : Dropping types seen) (hrun : Run types seen State.opened s) :
    Inv seen none s := by
  induction hrun with
  | refl => exact inv_opened hdrop
  | tail _ hstep ih => exact ih.step hdrop hstep

/-- The hooks of a value all begin before its destructor runs, and its destructor
runs as often as a hook of it has returned.  If no hook of it failed, and none
began while another was running, there is at most one hook; after the machine
closed, hook and destructor then ran exactly once. -/
theorem run_balanced (hdrop : Dropping types seen) (hrun : Run types seen State.opened s) :
    (s.pushed ++ s.late).Nodup ∧
    (forall u, u ∈ s.pushed ++ s.late -> exists begun, s.returned.count u ≤ begun ∧
      sightsOf seen s.world u =
        List.replicate begun (.hook u) ++ List.replicate (s.returned.count u) (.drop u)) ∧
    (forall u, u ∈ s.pushed ++ s.late -> u ∉ s.failed -> u ∉ s.crossed ->
      sightsOf seen s.world u = [] ∨ sightsOf seen s.world u = [.hook u] ∧ u ∈ s.active ∨
        sightsOf seen s.world u = [.hook u, .drop u]) ∧
    (s.Closed -> forall u, u ∈ s.pushed -> u ∉ s.failed -> u ∉ s.crossed ->
      sightsOf seen s.world u = [.hook u, .drop u]) := by
  have hinv := inv_run hdrop hrun
  have hcalm : forall u, u ∈ s.pushed ++ s.late -> u ∉ s.failed -> u ∉ s.crossed ->
      u ∉ s.entered ∧ sightsOf seen s.world u = [] ∨
        sightsOf seen s.world u = [.hook u] ∧ u ∈ s.active ∨
        sightsOf seen s.world u = [.hook u, .drop u] := by
    intro u hu hfailed hcrossed
    have hsettled := hinv.settled u hfailed
    have hone := hinv.calm u hu hfailed hcrossed
    rw [hinv.sights u hu]
    by_cases hentered : u ∈ s.entered
    · have hpos := List.count_pos_iff.mpr hentered
      by_cases hactive : u ∈ s.active
      · have hrunning := List.count_pos_iff.mpr hactive
        rw [show s.entered.count u = 1 by omega, show s.returned.count u = 0 by omega]
        exact Or.inr (Or.inl ⟨rfl, hactive⟩)
      · rw [List.count_eq_zero_of_not_mem hactive] at hsettled
        rw [show s.entered.count u = 1 by omega, show s.returned.count u = 1 by omega]
        exact Or.inr (Or.inr rfl)
    · rw [List.count_eq_zero_of_not_mem hentered] at hsettled ⊢
      rw [show s.returned.count u = 0 by omega]
      exact Or.inl ⟨hentered, rfl⟩
  refine ⟨hinv.nodup, ?_, ?_, ?_⟩
  · intro u hu
    have hbalanced := hinv.balanced u
    exact ⟨s.entered.count u, by omega, hinv.sights u hu⟩
  · intro u hu hfailed hcrossed
    exact (hcalm u hu hfailed hcrossed).imp_left And.right
  · rintro ⟨_, hfinalizable, hpending, hactive⟩ u hu hfailed hcrossed
    rcases hcalm u (List.mem_append_left _ hu) hfailed hcrossed with
      ⟨hentered, _⟩ | ⟨_, hrunning⟩ | hseen
    · have hnoted := (hinv.noted u hu nofun hentered hfailed).2
      rw [hfinalizable, hpending] at hnoted
      cases hnoted
    · rw [hactive] at hrunning
      cases hrunning
    · exact hseen

/-!
# Calls of the handler
-/

section Calls

variable {inner : BoundTypes} {mark : Sight -> String} {t : ThreadId} {E : Engine}

/-- The handler that finds a living value, and room to look at it, begins the hook;
when that returns the value is dropped. -/
theorem enters_answerGc (inner : BoundTypes)
    (hmark : forall x events, seen (mark x :: events) = seen events ++ [x]) {w : World}
    (hlive : w.liveThread t = true) (hready : (w.thread t).Ready 2) {u : UserDataId}
    {b : Block} (hliving : w.livingTo (w.valueAt t 1) = some (u, b)) :
    exists w₁ body, answerOperation (watched inner mark) .gc t = guarded t body ∧
      Entered seen t w u w₁ ∧ forall E, body E w = (do
        let _ ← (inner b.type).perform .gc u t
        dropBound (watched inner mark) u b.type
        return 0 : M Nat) E w₁ := by
  rcases looks_answerGc (watched inner mark) hlive with ⟨body, hanswer, hlooks⟩
  rw [hliving] at hlooks
  rcases hlooks with ⟨th, hlooked, hrun⟩ | ⟨hnot, _⟩
  · exact ⟨_, body, hanswer, ⟨⟨b, hliving⟩, th, _, w.log, w.outside, hlooked.toAlike, rfl,
      hmark (.hook u) w.events⟩, hrun⟩
  · exact absurd hready hnot

/-- If what a hook does is a run, then so is what the handler does. -/
theorem run_of_answer (hmark : forall x events, seen (mark x :: events) = seen events ++ [x])
    (hlive : s.world.liveThread t = true)
    (hhook : forall u b w₁ n w₂, s.world.livingTo (s.world.valueAt t 1) = some (u, b) ->
      Entered seen t s.world u w₁ -> (inner b.type).perform .gc u t E w₁ = .ok n w₂ ->
      exists s₂, Run (watched inner mark) seen { s.enter u w₁ with asked := u :: s.asked } s₂ ∧
        s₂.world = w₂ ∧ s₂.active = u :: s.active)
    {n : Nat} {w' : World} (h : answerOperation (watched inner mark) .gc t E s.world = .ok n w') :
    exists s', Run (watched inner mark) seen s s' ∧ s'.world = w' ∧ s'.active = s.active := by
  rcases looks_answerGc (watched inner mark) hlive with ⟨body, hanswer, hlooks⟩
  rw [hanswer] at h
  have h := ok_guarded h
  rcases hlooks with ⟨th, hlooked, hrun⟩ | ⟨_, _, _, _, hfails⟩
  · rw [hrun E] at h
    cases hliving : s.world.livingTo (s.world.valueAt t 1) with
    | none =>
        rw [hliving] at h
        cases h
        exact ⟨{ s with world := s.world.setThread t th },
          .single (.other (Lifetimes.ordinary_setThread seen s.world t th)), rfl, rfl⟩
    | some ub =>
        rcases ub with ⟨u, b⟩
        rw [hliving] at h
        have hbegins : (watched inner mark b.type).perform .gc u t = (do
          recordEvent (mark (.hook u))
          (inner b.type).perform .gc u t) := rfl
        dsimp only at h
        rw [hbegins, bind_assoc] at h
        rcases ok_bind h with ⟨_, w₁, hrecord, h⟩
        cases hrecord
        rcases ok_bind h with ⟨m, w₂, hperform, h⟩
        rcases ok_bind h with ⟨_, w₃, hdropped, hpure⟩
        cases hpure
        have hentered : Entered seen t s.world u
            ((s.world.setThread t th).withHost (mark (.hook u) :: s.world.events) s.world.log
              s.world.outside) :=
          ⟨⟨b, hliving⟩, th, _, _, _, hlooked.toAlike, rfl, hmark _ _⟩
        rcases hhook u b _ m w₂ hliving hentered hperform with ⟨s₂, hinner, rfl, hactive⟩
        exact ⟨{ s₂ with world := w', active := s.active, returned := u :: s₂.returned },
          ((Relation.ReflTransGen.single (.ask hentered)).trans hinner).tail
            (.leave hactive hdropped), rfl, rfl⟩
  · rw [hfails E] at h
    cases h

/-- If what a hook does before it fails is a run, then so is what the handler does:
nothing comes after the hook. -/
theorem run_of_failure (hmark : forall x events, seen (mark x :: events) = seen events ++ [x])
    (hlive : s.world.liveThread t = true) (hready : (s.world.thread t).Ready 2) {u : UserDataId}
    {b : Block} (hliving : s.world.livingTo (s.world.valueAt t 1) = some (u, b)) {r : Raise}
    (hhook : forall w₁, Entered seen t s.world u w₁ -> exists s₂,
      Run (watched inner mark) seen { s.enter u w₁ with asked := u :: s.asked } s₂ ∧
        (inner b.type).perform .gc u t E w₁ = .error r s₂.world ∧ s₂.active = u :: s.active) :
    exists s' body, Run (watched inner mark) seen s s' ∧ s'.active = s.active ∧ u ∈ s'.failed ∧
      answerOperation (watched inner mark) .gc t = guarded t body ∧
      body E s.world = .error r s'.world := by
  rcases enters_answerGc inner hmark hlive hready hliving with
    ⟨w₁, body, hanswer, hentered, hbody⟩
  rcases hhook w₁ hentered with ⟨s₂, hinner, hperform, hactive⟩
  refine ⟨{ s₂ with active := s.active, failed := u :: s₂.failed }, body,
    ((Relation.ReflTransGen.single (.ask hentered)).trans hinner).tail (.fail hactive), rfl,
    List.mem_cons_self .., hanswer, ?_⟩
  exact (hbody E).trans (bind_of_error hperform _)

end Calls

/-!
# Runs with hooks that do not return
-/

theorem dropping_plainTypes : Dropping Lifetimes.plainTypes Lifetimes.readMarks :=
  ⟨Lifetimes.attentive_plainTypes.start, Lifetimes.attentive_plainTypes.drop⟩

/-- The hook of the first userdata begins. -/
def hooked (w : World) : World := w.withHost (Lifetimes.mark (.hook ⟨0⟩) :: w.events) w.log w.outside

theorem entered_hooked {w : World}
    (hliving : (w.livingTo (w.valueAt ⟨0⟩ 1)).map Prod.fst = some ⟨0⟩) :
    Entered Lifetimes.readMarks ⟨0⟩ w ⟨0⟩ (hooked w) := by
  rcases Option.map_eq_some_iff.mp hliving with ⟨⟨u, b⟩, hliving, rfl⟩
  refine ⟨⟨b, hliving⟩, w.thread ⟨0⟩, _, w.log, w.outside, Thread.Alike.refl _, ?_,
    Lifetimes.readMarks_mark _ _⟩
  rw [World.setThread_thread]
  rfl

/-- A hook asked for its own finalization, and the inner one has returned. -/
@[irreducible] def crossedWorld : World :=
  after (dropBound Lifetimes.plainTypes ⟨0⟩ ⟨0⟩) (hooked (hooked Lifetimes.pushedWorld))

theorem living_pushedWorld :
    (Lifetimes.pushedWorld.livingTo (Lifetimes.pushedWorld.valueAt ⟨0⟩ 1)).map Prod.fst =
        some ⟨0⟩ ∧
      answer? (dropBound Lifetimes.plainTypes ⟨0⟩ ⟨0⟩)
        (hooked (hooked Lifetimes.pushedWorld)) = some () := by
  decide +kernel

theorem closed_crossedWorld :
    (closed crossedWorld).collector.pending = [.userdata ⟨0⟩] ∧
      ((closed crossedWorld).livingTo (.userdata ⟨0⟩)).isNone = true ∧
      sightsOf Lifetimes.readMarks crossedWorld ⟨0⟩ = [.hook ⟨0⟩, .hook ⟨0⟩, .drop ⟨0⟩] := by
  decide +kernel

theorem run_balanced_crossed :
    exists s, Run Lifetimes.plainTypes Lifetimes.readMarks State.opened s ∧ s.Closed ∧
      s.pushed = [⟨0⟩] ∧ s.returned = [⟨0⟩] ∧ s.failed = [⟨0⟩] ∧
      (exists begun, 1 ≤ begun ∧ sightsOf Lifetimes.readMarks s.world ⟨0⟩ =
        List.replicate begun (.hook ⟨0⟩) ++ [.drop ⟨0⟩]) ∧
      sightsOf Lifetimes.readMarks s.world ⟨0⟩ = [.hook ⟨0⟩, .hook ⟨0⟩, .drop ⟨0⟩] := by
  rcases living_pushedWorld with ⟨hliving, hanswer⟩
  rcases closed_crossedWorld with ⟨hdue, hdead, hseen⟩
  have hdropped : dropBound Lifetimes.plainTypes ⟨0⟩ ⟨0⟩ idle
      (hooked (hooked Lifetimes.pushedWorld)) = .ok () crossedWorld := by
    unfold crossedWorld
    exact ok_after hanswer
  let s₁ : State := { world := Lifetimes.pushedWorld, pushed := [⟨0⟩] }
  let s₂ : State := { s₁.enter ⟨0⟩ (hooked s₁.world) with asked := [⟨0⟩] }
  let s₃ : State := { s₂.enter ⟨0⟩ (hooked s₂.world) with asked := [⟨0⟩, ⟨0⟩] }
  let s₄ : State := { s₃ with world := crossedWorld, active := [⟨0⟩], returned := [⟨0⟩] }
  let s₅ : State := { s₄ with active := [], failed := [⟨0⟩] }
  let s₆ : State := { s₅ with world := closed crossedWorld }
  let s₇ : State := { s₆ with world := withPending (closed crossedWorld) [] }
  have hpush : Step Lifetimes.plainTypes Lifetimes.readMarks State.opened s₁ :=
    .push (by decide +kernel) Lifetimes.ok_pushedWorld rfl
  have hask : Step Lifetimes.plainTypes Lifetimes.readMarks s₁ s₂ := .ask (entered_hooked hliving)
  -- the value is still alive while its hook runs
  have hcross : Step Lifetimes.plainTypes Lifetimes.readMarks s₂ s₃ := .ask (entered_hooked hliving)
  have hleave : Step Lifetimes.plainTypes Lifetimes.readMarks s₃ s₄ := .leave rfl hdropped
  have hfail : Step Lifetimes.plainTypes Lifetimes.readMarks s₄ s₅ := .fail rfl
  have hskip : Step Lifetimes.plainTypes Lifetimes.readMarks s₆ s₇ := by
    refine .skip hdue fun u b hliving => ?_
    have hliving : (closed crossedWorld).livingTo (.userdata ⟨0⟩) = some (u, b) := hliving
    rw [hliving] at hdead
    cases hdead
  have hrun : Run Lifetimes.plainTypes Lifetimes.readMarks State.opened s₇ :=
    ((((((Relation.ReflTransGen.single hpush).tail hask).tail hcross).tail hleave).tail
      hfail).tail .close).tail hskip
  refine ⟨s₇, hrun, ⟨rfl, rfl, rfl, rfl⟩, rfl, rfl, rfl, ?_, hseen⟩
  exact (run_balanced dropping_plainTypes hrun).2.1 ⟨0⟩ (List.mem_cons_self ..)

/-- A machine is opened, a value is pushed, and the machine closes. -/
def wholeLife (type : HostType) (v : HostValue) : M Unit := do
  openMachine false
  let _ ← pushUserData ⟨0⟩ type v 0
  closeMachine

/-- What a computation has returned in a new machine, and what host code has noted. -/
def outcome {α : Type} (host : Host) (x : M α) : Option (α × List String) :=
  match Machine.exec host x freshWorld with
  | .ok a w => some (a, w.events)
  | .error _ _ => none

/-- A type whose hook, the first time, calls the handler in the metatable of its
userdata. -/
def askingTypes : BoundTypes := fun _ =>
  { name := ""
    fullName := ""
    perform := fun m u t => do
      match m, ← hostValue u with
      | .gc, .counter 1 =>
        setHostValue u (.counter 0)
        let _ ← getMetatable t 1
        let _ ← getField t (-1) MetaMethod.gc.field
        Interface.pushValue t 1
        Interface.call t 1 0
        return 0
      | _, _ => return 0 }

def askingHost : Host :=
  { Stock.embedding with types := watched askingTypes Lifetimes.mark : Embedding }.host

/-- A value whose hook ends with a panic is never dropped, and one whose hook asks
for its finalization has two hooks, and is dropped twice. -/
theorem not_dropped_once :
    outcome Stock.host (wholeLife Stock.StockType.bad.type .bad) = some ((), ["gc Bad"]) ∧
    (outcome askingHost (wholeLife ⟨0⟩ (.counter 1))).map (fun r => Lifetimes.readMarks r.2) =
      some [.hook ⟨0⟩, .hook ⟨0⟩, .drop ⟨0⟩, .drop ⟨0⟩] := by
  decide +kernel

end Nesting

end LuaHost
