import LuaHost.Proofs.UserData.Nesting

/-!
# Values on loan

Host code borrows the value in a userdata through a handle, or in a hook that
it is passed to.  Both keep the userdata reachable, so that no cycle finds it
due.  Nothing else guards the value: what is due already, and what a script or
the host asks the handler of finalization for, is dropped on loan or not.
-/

namespace LuaHost

namespace Borrowing

open Interface Machine Nesting
open Lifetimes (sightsOf Ordinary withPending closed)

variable {types : BoundTypes} {seen : List String -> List Sight}

/-!
# Registering is ordinary
-/

/-- Writing to the registry is ordinary where its metatable and what it holds
under names are left alone. -/
theorem ordinary_setRegistry (seen : List String -> List Sight) {w : World}
    (hlive : w.registryLive = true) {T : Table}
    (hplain : T.metatable = w.registryTable.metatable)
    (hnames : forall s, T.find (.str s) = w.registryTable.find (.str s)) :
    Ordinary seen w (w.setRegistry T) := by
  have htable := World.registryTable_setRegistry hlive T
  have hshared : (w.setRegistry T).shared = w.shared := by
    show (w.setRegistry T).registryTable.find _ = w.registryTable.find _
    rw [htable]
    exact hnames _
  constructor
  case registry_eq => rfl
  case registry_live => exact fun _ => (World.registryLive_setRegistry w T).trans hlive
  case registry_plain =>
    exact fun hnone => (congrArg Table.metatable htable).trans (hplain.trans hnone)
  case shared_eq => exact hshared
  case ready =>
    intro m hready
    refine ⟨hshared.trans hready.shared_eq, (Store.live_modify _ _ _ _).trans hready.live,
      Eq.trans ?_ hready.handler_eq⟩
    show ((w.heap.tables.modify w.registry.index fun _ => T).get m.index).getStr _ = _
    by_cases hself : w.registry.index = m.index
    · have hget : (w.heap.tables.modify w.registry.index fun _ => T).get w.registry.index = T :=
        htable
      rw [← hself, hget]
      exact hnames _
    · rw [Store.get_modify_ne _ hself]
  case bound => exact fun i d b hd hb => ⟨d, b, hd, hb, rfl, rfl⟩
  case freed => exact fun i _ h => h
  case next_le => exact Nat.le_refl _
  case finalizable => exact fun v h => h
  case numbered => exact fun u h => Or.inl h
  case pending_eq => rfl
  case closing_eq => rfl
  case seen_eq => rfl

/-- A computation that does what is ordinary, when it returns. -/
structure Ordinarily {α : Type} (seen : List String -> List Sight) (x : M α) : Prop where
  ok : forall {E : Engine} {w : World} {a : α} {w' : World}, w.registryLive = true ->
    x E w = .ok a w' -> Ordinary seen w w'

section Ordinarily

variable {α β : Type} {t : ThreadId}

theorem Ordinarily.bind {x : M α} {f : α → M β} (hx : Ordinarily seen x)
    (hf : forall a, Ordinarily seen (f a)) : Ordinarily seen (x >>= f) := by
  refine ⟨fun hlive h => ?_⟩
  rcases ok_bind h with ⟨a, w₁, hfirst, hrest⟩
  have hordinary := hx.ok hlive hfirst
  exact hordinary.trans ((hf a).ok (hordinary.registry_live hlive) hrest)

theorem ordinarily_reads {x : M α} (hx : forall w, Reads x w) : Ordinarily seen x := by
  refine ⟨fun {E w a w'} _ h => ?_⟩
  rcases hx w with ⟨a', hreturns⟩
  rcases hreturns.ok_eq h with ⟨_, rfl⟩
  exact Ordinary.refl seen w

theorem ordinarily_pure (a : α) : Ordinarily seen (pure a : M α) :=
  ordinarily_reads fun w => Reads.pure a w

theorem ordinarily_modifyThread (f : Thread → Thread) : Ordinarily seen (modifyThread t f) := by
  refine ⟨fun {E w a w'} _ h => ?_⟩
  rcases (returns_modifyThread w t f).ok_eq h with ⟨_, rfl⟩
  exact Lifetimes.ordinary_setThread seen w t _

theorem ordinarily_log (level : LogLevel) (text : String) :
    Ordinarily seen (log level text) := by
  refine ⟨fun {E w a w'} _ h => ?_⟩
  cases h
  have hself := Ordinary.refl seen w
  exact { hself with ready := fun m hm => ⟨hm.shared_eq, hm.live, hm.handler_eq⟩ }

theorem ordinarily_setRegistryValue (i : Int64) (v : Value) :
    Ordinarily seen (setRegistryValue (.int i) v) := by
  refine ⟨fun {E w a w'} hlive h => ?_⟩
  rcases (returns_setRegistryValue w (.int i) v).ok_eq h with ⟨_, rfl⟩
  refine ordinary_setRegistry seen hlive (Table.metatable_put _ _ _) fun s => ?_
  exact (Table.find_put _ _ _ _).trans (if_neg nofun)

theorem ordinarily_registryLength : Ordinarily seen (do tableLength (← get).registry) := by
  refine ⟨fun {E w a w'} hlive h => ?_⟩
  rcases (returns_tableLength w).ok_eq ((returns_get w).ok_bind h) with ⟨_, rfl⟩
  exact ordinary_setRegistry seen hlive rfl fun _ => rfl

theorem ordinarily_register (v : Value) : Ordinarily seen (register v) := by
  have hread (k : Value) : Ordinarily seen (registryValue k) :=
    ordinarily_reads fun w => ⟨_, returns_registryValue w k⟩
  have hfirst : Ordinarily seen firstFree := by
    refine (hread _).bind fun first => ?_
    cases first with
    | int i => exact ordinarily_pure _
    | _ => exact (ordinarily_setRegistryValue _ _).bind fun _ => ordinarily_pure _
  have hrest (id : RefId) : Ordinarily seen (do
      setRegistryValue (refKey id) v
      return id) :=
    (ordinarily_setRegistryValue _ _).bind fun _ => ordinarily_pure id
  unfold register
  refine hfirst.bind fun id => ?_
  dsimp only
  split
  · refine (hread _).bind fun next => ?_
    exact (ordinarily_setRegistryValue _ _).bind fun _ => hrest id
  · have hlength : Ordinarily seen (do
        let n ← (do tableLength (← get).registry)
        setRegistryValue (refKey (n + 1 : Nat)) v
        return ((n + 1 : Nat) : RefId)) :=
      ordinarily_registryLength.bind fun n => hrest (n + 1 : Nat)
    simpa only [bind_assoc, pure_bind] using hlength

theorem ordinarily_registryRef : Ordinarily seen (registryRef t) := by
  have hheight : Ordinarily seen (height t) :=
    ordinarily_reads fun w => ⟨_, returns_height w t⟩
  have hpop : Ordinarily seen (Machine.pop t) := by
    refine (ordinarily_reads (reads_thread t)).bind fun th => ?_
    exact (ordinarily_modifyThread _).bind fun _ => ordinarily_pure _
  have hrest (id : RefId) : Ordinarily seen (do
      log .trace ("ref " ++ toString id)
      return id) :=
    (ordinarily_log _ _).bind fun _ => ordinarily_pure id
  unfold registryRef
  refine hheight.bind fun n => ?_
  dsimp only
  split
  · refine ⟨fun _ h => ?_⟩
    rcases ok_bind h with ⟨_, _, h, _⟩
    cases h
  · refine hpop.bind fun v => ?_
    split
    · exact hrest nilRef
    · exact (ordinarily_register v).bind hrest

end Ordinarily

/-!
# Loans
-/

/-- A value is lent out, with what holds of the states as long as the loan lasts.
A handle from which the value was recovered lends it as long as its place in the
registry is not given up.  A handler that passes an operation on lends it until
the hook returns: until then the operand is reachable, and no hook returns that
was running before. -/
inductive Lent (seen : List String -> List Sight) (s : State) (u : UserDataId) :
    (State -> Prop) -> Prop where
  | handle {r : OwnedRef} {type : HostType} {E : Engine} {v : HostValue} {w : World} :
      s.world.liveThread r.thread = true ->
      (s.world.thread r.thread).base ≤ (s.world.thread r.thread).top ->
      UserDataRef.downcast r type E s.world = .ok (some v) w ->
      behind s.world r.id = .userdata u -> u ∉ s.active ->
      Lent seen s u fun x => behind x.world r.id = .userdata u
  | operand {t : ThreadId} {b : Block} : s.world.firstLiving t = some (u, b) ->
      Lent seen s u fun x => s.active.IsSuffix x.active ∧
        forall t', x.world.heap.Reachable (roots x.world t') (.userdata u)
  | finalizer {t : ThreadId} {w : World} : Entered seen t w u s.world ->
      Lent seen s u fun x => s.active.IsSuffix x.active ∧
        forall t', x.world.heap.Reachable (roots x.world t') (.userdata u)

/-- A run during which a loan lasts. -/
abbrev During (types : BoundTypes) (seen : List String -> List Sight) (Lasts : State -> Prop) :
    State -> State -> Prop :=
  Relation.ReflTransGen fun x y => Lasts x ∧ Step types seen x y ∧ Lasts y

variable {s x y : State} {u : UserDataId} {called : Option UserDataId} {Lasts : State -> Prop}

theorem During.run (h : During types seen Lasts s x) : Run types seen s x :=
  h.lift id fun _ _ hstep => hstep.2.1

theorem Lent.living (h : Lent seen s u Lasts) :
    exists b, s.world.livingTo (.userdata u) = some (u, b) := by
  cases h with
  | @handle r type E v w hlive hbase hrun hbehind _ =>
      rcases looks_downcast hlive hbase type with ⟨th, _, _, hreturns⟩ | ⟨_, th, p, hfails⟩
      · have hrecovered := (hreturns.ok_eq hrun).1
        rcases Option.map_eq_some_iff.mp hrecovered with ⟨⟨u', v'⟩, hrecovered, _⟩
        rcases World.recovered_eq_some.mp hrecovered with ⟨b, hliving, _⟩
        rw [hbehind] at hliving
        cases (World.livingTo_eq_some.mp hliving).1
        exact ⟨b, hliving⟩
      · rw [hfails E] at hrun
        cases hrun
  | @operand t b hfirst =>
      rcases List.exists_of_findSome?_eq_some hfirst with ⟨i, _, hliving⟩
      rw [(World.livingTo_eq_some.mp hliving).1] at hliving
      exact ⟨b, hliving⟩
  | @finalizer t w hentered =>
      rcases hentered with ⟨⟨b, hliving⟩, th, events, lg, outside, _, hworld, _⟩
      rw [(World.livingTo_eq_some.mp hliving).1] at hliving
      rw [hworld]
      exact ⟨b, hliving⟩

theorem Lent.reachable (h : Lent seen s u Lasts) (hinv : Inv seen none x) (hlasts : Lasts x)
    (t : ThreadId) : x.world.heap.Reachable (roots x.world t) (.userdata u) := by
  cases h with
  | @handle r _ _ _ _ _ _ _ _ _ =>
      have hbehind : behind x.world r.id = .userdata u := hlasts
      unfold behind at hbehind
      split at hbehind
      · cases hbehind
      · exact Lifetimes.reachable_registry hinv.registry_plain hbehind rfl
  | operand _ => exact hlasts.2 t
  | finalizer _ => exact hlasts.2 t

/-- No hook of what is lent out returns, of those that ran when the loan began. -/
theorem Lent.count_active_le (h : Lent seen s u Lasts) (hlasts : Lasts x) :
    s.active.count u ≤ x.active.count u := by
  cases h with
  | handle _ _ _ _ hidle =>
      rw [List.count_eq_zero_of_not_mem hidle]
      exact Nat.zero_le _
  | operand _ => exact hlasts.1.sublist.count_le u
  | finalizer _ => exact hlasts.1.sublist.count_le u

/-!
# What a loan protects
-/

/-- Since the loan began in `s`, no hook of the value has begun and none has
returned; the value is in the heap, and not due. -/
structure Spared (s x : State) (u : UserDataId) : Prop where
  pushed : u ∈ x.pushed ++ x.late
  live : x.world.heap.userdata.live u.index = true
  due : Value.userdata u ∉ x.world.collector.pending
  unreturned : x.returned.count u = 0
  entered_eq : x.entered.count u = s.entered.count u
  active_le : x.active.count u ≤ s.active.count u

/-- A machine that is open has been open all the time. -/
theorem open_before_step (hdrop : Dropping types seen) (hinv : Inv seen none x) (hstep : Step types seen x y)
    (hopen : y.world.collector.closing = false) : x.world.collector.closing = false := by
  cases hstep with
  | push hlive hpush hclosing => exact hclosing
  | pushLate hlive hpush _ =>
      have hholds := ok_pushUserData hlive hinv.registry_live hinv.ready hpush
      exact hholds.closing_eq.symm.trans hopen
  | other hother => exact hother.closing_eq.symm.trans hopen
  | collect hcollect => exact hcollect.closing_eq.symm.trans hopen
  | close => cases hopen
  | ask hentered =>
      rcases hentered with ⟨_, th, events, lg, outside, _, rfl, _⟩
      exact hopen
  | finalize _ hready _ hentered =>
      rcases hentered with ⟨_, th, events, lg, outside, _, rfl, _⟩
      exact hready.closing_eq.symm.trans hopen
  | skip _ _ => exact hopen
  | refuse _ => exact hopen
  | leave _ hrun =>
      rcases ok_dropBound hdrop hrun with ⟨events, lg, outside, rfl, _⟩
      exact hopen
  | fail _ => exact hopen

theorem count_asked_le_step (hstep : Step types seen x y) (u : UserDataId) :
    x.asked.count u ≤ y.asked.count u := by
  cases hstep with
  | ask _ => exact List.count_le_count_cons
  | _ => exact Nat.le_refl _

theorem count_asked_le_run (hrun : Run types seen x y) (u : UserDataId) :
    x.asked.count u ≤ y.asked.count u := by
  induction hrun with
  | refl => exact Nat.le_refl _
  | tail _ hstep ih => exact Nat.le_trans ih (count_asked_le_step hstep u)

theorem Lent.spared (h : Lent seen s u Lasts) (hinv : Inv seen none s) (hu : u ∈ s.pushed ++ s.late)
    (hdue : Value.userdata u ∉ s.world.collector.pending) : Spared s s u := by
  rcases h.living with ⟨b, hliving⟩
  rcases find?_of_living hliving with ⟨d, hfind, _⟩
  exact ⟨hu, Store.live_of_find? hfind, hdue, (hinv.blocked u hu).unreturned hliving, rfl,
    Nat.le_refl _⟩

theorem Spared.ordinary (h : Spared s x u) (hinv : Inv seen called x) {w : World}
    (hw : Ordinary seen x.world w) : Spared s { x with world := w } u := by
  refine { h with live := ?_, due := ?_ }
  · have hfind := Store.find?_of_live h.live
    rcases hinv.blocked u h.pushed _ hfind with ⟨b, _, hpayload, _⟩
    rcases hw.bound u.index _ b hfind hpayload with ⟨d', _, hfind', _⟩
    show (w.heap.userdata.find? u.index).isSome = true
    rw [hfind']
    rfl
  · show _ ∉ w.collector.pending
    rw [hw.pending_eq]
    exact h.due

theorem Spared.enter (h : Spared s x u) {t : ThreadId} {v : UserDataId} {w : World}
    (hw : Entered seen t x.world v w) (hne : v ≠ u) : Spared s (x.enter v w) u := by
  rcases hw with ⟨_, th, events, lg, outside, _, rfl, _⟩
  refine ⟨h.pushed, h.live, h.due, h.unreturned, ?_, ?_⟩
  · exact (List.count_cons_of_ne hne).trans h.entered_eq
  · exact Nat.le_trans (Nat.le_of_eq (List.count_cons_of_ne hne)) h.active_le

theorem Spared.pop (h : Spared s x u) {v : Value} {rest : List Value}
    (hpending : x.world.collector.pending = v :: rest) :
    Spared s { x with world := withPending x.world rest } u := by
  refine { h with due := fun hdue => h.due ?_ }
  rw [hpending]
  exact List.mem_cons_of_mem v hdue

theorem Spared.holds (h : Spared s x u) (hinv : Inv seen called x) {u' : UserDataId} {b : Block}
    {w : World} (hw : Holds x.world u' b w) : Spared s { x with world := w } u := by
  refine { h with live := ?_, due := ?_ }
  · show (w.heap.userdata.find? u.index).isSome = true
    rw [hw.find?_old (hinv.known u h.pushed)]
    exact h.live
  · show _ ∉ w.collector.pending
    rw [hw.pending_eq]
    exact h.due

theorem Spared.collect (h : Spared s x u) {t : ThreadId} {w : World} (hw : Swept t x.world w)
    (hreachable : x.world.heap.Reachable (roots x.world t) (.userdata u)) :
    Spared s { x with world := w } u := by
  rcases hw.due with ⟨vs, hpending, _, _, hdead⟩
  refine { h with live := ?_, due := ?_ }
  · show (w.heap.userdata.find? u.index).isSome = true
    rw [hw.userdata_reachable u hreachable]
    exact h.live
  · show _ ∉ w.collector.pending
    rw [hpending]
    intro hdue
    rcases List.mem_append.mp hdue with hdue | hdue
    · exact h.due hdue
    · exact (hdead _ hdue).2 _ rfl hreachable

/-- The hook of another value has returned. -/
theorem Spared.leave (hdrop : Dropping types seen) (h : Spared s x u) {u' : UserDataId}
    {rest : List UserDataId} {type : HostType} {E : Engine} {w : World}
    (hrunning : x.active = u' :: rest) (hrun : dropBound types u' type E x.world = .ok () w)
    (hne : u' ≠ u) :
    Spared s { x with world := w, active := rest, returned := u' :: x.returned } u := by
  rcases ok_dropBound hdrop hrun with ⟨events, lg, outside, rfl, _⟩
  refine ⟨h.pushed, (Store.live_modify _ _ _ _).trans h.live, h.due,
    (List.count_cons_of_ne hne).trans h.unreturned, h.entered_eq, ?_⟩
  have hold := h.active_le
  rw [hrunning, List.count_cons_of_ne hne] at hold
  exact hold

/-- What is spared stays so, as long as it is reachable, no hook of it returns that
was running, and its handler is not called for it. -/
theorem Spared.step (hdrop : Dropping types seen) (hinv : Inv seen none x) (h : Spared s x u)
    (hreachable : forall t, x.world.heap.Reachable (roots x.world t) (.userdata u))
    (hstep : Step types seen x y) (hactive : s.active.count u ≤ y.active.count u)
    (hopen : y.world.collector.closing = false) (hasked : y.asked.count u ≤ x.asked.count u) :
    Spared s y u := by
  cases hstep with
  | @push t type v userValues E u' w hlive hrun _ =>
      have hkept := h.holds hinv (ok_pushUserData hlive hinv.registry_live hinv.ready hrun)
      exact { hkept with pushed := List.mem_cons_of_mem u' h.pushed }
  | @pushLate t type v userValues E u' w hlive hrun _ =>
      have hkept := h.holds hinv (ok_pushUserData hlive hinv.registry_live hinv.ready hrun)
      exact { hkept with
        pushed := List.perm_middle.mem_iff.mpr (List.mem_cons_of_mem u' h.pushed) }
  | other hother => exact h.ordinary hinv hother
  | collect hcollect => exact h.collect hcollect (hreachable _)
  | close => cases hopen
  | @ask t u' w hentered =>
      have hne : u' ≠ u := by
        rintro rfl
        have hmore : (u' :: x.asked).count u' ≤ x.asked.count u' := hasked
        rw [List.count_cons_self] at hmore
        omega
      exact { h.enter hentered hne with }
  | @finalize u' rest w₁ w₂ t hpending hready _ hentered =>
      have hne : u' ≠ u := by
        rintro rfl
        apply h.due
        rw [hpending]
        exact List.mem_cons_self ..
      have hcalled : Inv seen (some u') { x with world := withPending x.world rest } :=
        hinv.pop hpending fun v heq _ _ _ => by
          cases heq
          rfl
      exact ((h.pop hpending).ordinary hcalled hready).enter hentered hne
  | skip hpending _ => exact h.pop hpending
  | refuse hpending => exact { h.pop hpending with }
  | @leave u' rest type E w hrunning hrun =>
      -- if it were the hook of the value itself, fewer would run now than when the loan began
      have hne : u' ≠ u := by
        rintro rfl
        have hold := h.active_le
        rw [hrunning, List.count_cons_self] at hold
        have hleft : s.active.count u' ≤ rest.count u' := hactive
        omega
      exact h.leave hdrop hrunning hrun hne
  | @fail u' rest hrunning =>
      refine { h with active_le := ?_ }
      have hold := h.active_le
      rw [hrunning] at hold
      exact Nat.le_trans List.count_le_count_cons hold

/-- A value on loan is not dropped, and nothing of its finalization is seen, as long
as the loan lasts and the machine is open.  This is promised only for a value that
was not due when the loan began, and that nobody calls the handler for: the loan
itself keeps no one from doing so. -/
theorem lent_spared (hdrop : Dropping types seen) (hrun : Run types seen State.opened s)
    (hu : u ∈ s.pushed ++ s.late) (hlent : Lent seen s u Lasts)
    (hdue : Value.userdata u ∉ s.world.collector.pending)
    (hduring : During types seen Lasts s x) (hopen : x.world.collector.closing = false)
    (hasked : x.asked.count u ≤ s.asked.count u) :
    sightsOf seen x.world u = sightsOf seen s.world u ∧
      exists b, x.world.livingTo (.userdata u) = some (u, b) := by
  have hbegin := inv_run hdrop hrun
  have hspared : Spared s x u := by
    induction hduring with
    | refl => exact hlent.spared hbegin hu hdue
    | @tail y z hmiddle hlast ih =>
        rcases hlast with ⟨hbefore, hstep, hafter⟩
        have hfirst : Run types seen s y := During.run hmiddle
        have hinv := inv_run hdrop (hrun.trans hfirst)
        have hless := count_asked_le_step hstep u
        have hmore := count_asked_le_run hfirst u
        exact (ih (open_before_step hdrop hinv hstep hopen) (by omega)).step hdrop hinv
          (hlent.reachable hinv hbefore) hstep (hlent.count_active_le hafter) hopen (by omega)
  have hinv := inv_run hdrop (hrun.trans hduring.run)
  have hbefore := hlent.spared hbegin hu hdue
  refine ⟨?_, hinv.living hspared.pushed hspared.unreturned hspared.live⟩
  rw [hinv.sights u hspared.pushed, hbegin.sights u hu, hspared.entered_eq, hspared.unreturned,
    hbefore.unreturned]

/-!
# Runs with loans
-/

/-- The pushed value was given a number, and the stack is empty again. -/
@[irreducible] def heldWorld : World := after (registryRef ⟨0⟩) Lifetimes.pushedWorld

/-- What a counter counts. -/
def counted : Option HostValue → Option Int64
  | some (.counter n) => some n
  | _ => none

theorem answered_heldWorld :
    Lifetimes.pushedWorld.registryLive = true ∧
      answer? (registryRef ⟨0⟩) Lifetimes.pushedWorld = some 4 ∧
      (answer? (UserDataRef.downcast ⟨⟨0⟩, 4, false⟩ ⟨0⟩) heldWorld).map counted =
        some (some 7) := by
  decide +kernel

theorem held_heldWorld :
    heldWorld.liveThread ⟨0⟩ = true ∧
      (heldWorld.thread ⟨0⟩).base ≤ (heldWorld.thread ⟨0⟩).top ∧
      behind heldWorld 4 = .userdata ⟨0⟩ ∧
      Value.userdata ⟨0⟩ ∉ heldWorld.collector.pending ∧
      SoundWorld ⟨0⟩ heldWorld ∧ behind (cycle heldWorld ⟨0⟩) 4 = .userdata ⟨0⟩ ∧
      (cycle heldWorld ⟨0⟩).collector.closing = false := by
  decide +kernel

/-- The value was recovered through a handle with the number. -/
theorem lent_heldWorld : Lent Lifetimes.readMarks { world := heldWorld, pushed := [⟨0⟩] } ⟨0⟩
    fun x => behind x.world 4 = .userdata ⟨0⟩ := by
  rcases held_heldWorld with ⟨hlive, hbase, hbehind, _⟩
  rcases Option.map_eq_some_iff.mp answered_heldWorld.2.2 with ⟨recovered, hanswer, hcounted⟩
  cases recovered with
  | none => cases hcounted
  | some v =>
      exact .handle (r := ⟨⟨0⟩, 4, false⟩) hlive hbase (ok_after hanswer) hbehind
        List.not_mem_nil

/-- The handle alone keeps the value on loan through a cycle. -/
theorem lent_spared_heldWorld :
    sightsOf Lifetimes.readMarks (cycle heldWorld ⟨0⟩) ⟨0⟩ =
      sightsOf Lifetimes.readMarks heldWorld ⟨0⟩ ∧
    exists b, (cycle heldWorld ⟨0⟩).livingTo (.userdata ⟨0⟩) = some (⟨0⟩, b) := by
  rcases answered_heldWorld with ⟨hregistry, hregistered, _⟩
  rcases held_heldWorld with ⟨_, _, hbehind, hdue, hsound, hbehind', hopen⟩
  let s₁ : State := { world := Lifetimes.pushedWorld, pushed := [⟨0⟩] }
  let s₂ : State := { s₁ with world := heldWorld }
  let s₃ : State := { s₂ with world := cycle heldWorld ⟨0⟩ }
  have hpush : Step Lifetimes.plainTypes Lifetimes.readMarks State.opened s₁ :=
    .push (by decide +kernel) Lifetimes.ok_pushedWorld rfl
  have hregister : registryRef ⟨0⟩ idle Lifetimes.pushedWorld = .ok 4 heldWorld := by
    unfold heldWorld
    exact ok_after hregistered
  have hrun : Run Lifetimes.plainTypes Lifetimes.readMarks State.opened s₂ :=
    (Relation.ReflTransGen.single hpush).tail (.other (ordinarily_registryRef.ok hregistry hregister))
  have hcollect : Step Lifetimes.plainTypes Lifetimes.readMarks s₂ s₃ := .collect (cycle_swept hsound)
  have hduring : During Lifetimes.plainTypes Lifetimes.readMarks
      (fun x => behind x.world 4 = .userdata ⟨0⟩) s₂ s₃ :=
    .single ⟨hbehind, hcollect, hbehind'⟩
  exact lent_spared dropping_plainTypes hrun (List.mem_cons_self ..) lent_heldWorld hdue hduring
    hopen (Nat.le_refl _)

/-- A handle lends a value out before and after a script, and is not dropped. -/
def lending (script : String) : M (List (Option Int64)) := do
  openMachine true
  let type := Stock.StockType.counter.type
  let _ ← pushUserData ⟨0⟩ type (.counter 7) 0
  let r ← OwnedRef.fromIndex ⟨0⟩ (-1)
  setGlobal ⟨0⟩ "u"
  let before ← UserDataRef.downcast r type
  let _ ← doString ⟨0⟩ script
  let after ← UserDataRef.downcast r type
  return [counted before, counted after]

/-- A script calls the handler of finalization, and the value on loan is dropped. -/
theorem lent_dropped :
    outcome Stock.host (lending "getmetatable(u).__gc(u)") =
      some ([some 7, none], ["drop Counter 7", "gc Counter 7"]) := by
  decide +kernel

end Borrowing

end LuaHost
