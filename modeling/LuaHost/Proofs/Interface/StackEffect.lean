import LuaHost.Handle.Typed
import LuaHost.Proofs.Interface.Room
import LuaHost.Proofs.UserData.Pushing

/-!
# Effects on stacks

What a computation does to the height of a stack, with everything below the
values that it works on left as it is.  Handlers that are called on the way are
taken to do the same: to leave what lies below their call, and the stacks of some
other threads.
-/

namespace LuaHost

/-!
# Stacks that are carried along
-/

namespace Thread

/-- Two states of a thread with the same stack. -/
structure SameStack (th th' : Thread) : Prop where
  stack_eq : th'.stack = th.stack
  top_eq : th'.top = th.top

theorem SameStack.refl (th : Thread) : th.SameStack th := ⟨rfl, rfl⟩

theorem SameStack.trans {th th' th'' : Thread} (h : th.SameStack th') (h' : th'.SameStack th'') :
    th.SameStack th'' :=
  ⟨h'.stack_eq.trans h.stack_eq, h'.top_eq.trans h.top_eq⟩

instance (th th' : Thread) : Decidable (th.SameStack th') :=
  decidable_of_iff (th'.stack = th.stack ∧ th'.top = th.top)
    ⟨fun h => ⟨h.1, h.2⟩, fun h => ⟨h.stack_eq, h.top_eq⟩⟩

/-- Two states of a thread with the same running call, whose values in the slots
below `n` are the same.  The calls below it may have changed theirs. -/
structure SameUpTo (n : Nat) (th th' : Thread) : Prop where
  base_eq : th'.base = th.base
  slot_eq : forall i, i < n -> th.base ≤ i -> th'.slot i = th.slot i

theorem SameUpTo.refl (n : Nat) (th : Thread) : th.SameUpTo n th := ⟨rfl, fun _ _ _ => rfl⟩

theorem SameUpTo.trans {n : Nat} {th th' th'' : Thread} (h : th.SameUpTo n th')
    (h' : th'.SameUpTo n th'') : th.SameUpTo n th'' := by
  refine ⟨h'.base_eq.trans h.base_eq, fun i hi hbase => ?_⟩
  rw [h'.slot_eq i hi (by rw [h.base_eq]; exact hbase), h.slot_eq i hi hbase]

theorem SameUpTo.mono {m n : Nat} {th th' : Thread} (h : th.SameUpTo n th') (hmn : m ≤ n) :
    th.SameUpTo m th' :=
  ⟨h.base_eq, fun i hi => h.slot_eq i (Nat.lt_of_lt_of_le hi hmn)⟩

theorem SameBelow.sameUpTo {n : Nat} {th th' : Thread} (h : th.SameBelow n th') :
    th.SameUpTo n th' :=
  ⟨h.base_eq, fun i hi _ => h.slot_eq i hi⟩

theorem sameUpTo_setSlot (th : Thread) {n i : Nat} (hi : n ≤ i) (v : Value) :
    th.SameUpTo n (th.setSlot i v) := by
  refine ⟨base_setSlot th i v, fun k hk _ => ?_⟩
  rw [slot_setSlot, if_neg (by omega)]

theorem sameUpTo_putSlots (vs : List Value) : forall (th : Thread) {n i : Nat}, n ≤ i ->
    th.SameUpTo n (th.putSlots i vs) := by
  induction vs with
  | nil => exact fun th _ _ _ => SameUpTo.refl _ th
  | cons v vs ih =>
      intro th n i hi
      exact (th.sameUpTo_setSlot hi v).trans (ih _ (Nat.le_succ_of_le hi))

theorem top_putSlots (vs : List Value) : forall (th : Thread) (i : Nat),
    (th.putSlots i vs).top = th.top := by
  induction vs with
  | nil => exact fun _ _ => rfl
  | cons v vs ih =>
      intro th i
      exact (ih _ _).trans (top_setSlot th i v)

instance (n : Nat) (th th' : Thread) : Decidable (th.SameUpTo n th') :=
  decidable_of_iff (th'.base = th.base ∧
      forall i, i < n -> th.base ≤ i -> th'.slot i = th.slot i)
    ⟨fun h => ⟨h.1, h.2⟩, fun h => ⟨h.base_eq, h.slot_eq⟩⟩

end Thread

namespace World

/-- The values of the running call of a live thread in the slots below `n`, and the
stacks of some other threads, are as they were. -/
structure Carried (os : List ThreadId) (t : ThreadId) (n : Nat) (w w' : World) : Prop where
  live : w'.liveThread t = true
  below : (w.thread t).SameUpTo n (w'.thread t)
  others : forall o, o ∈ os -> o ≠ t -> (w.thread o).SameStack (w'.thread o)

variable {os : List ThreadId} {t : ThreadId} {n : Nat} {w w' w'' : World}

instance (os : List ThreadId) (t : ThreadId) (n : Nat) (w w' : World) :
    Decidable (Carried os t n w w') :=
  decidable_of_iff (w'.liveThread t = true ∧ (w.thread t).SameUpTo n (w'.thread t) ∧
      forall o, o ∈ os -> o ≠ t -> (w.thread o).SameStack (w'.thread o))
    ⟨fun h => ⟨h.1, h.2.1, h.2.2⟩, fun h => ⟨h.live, h.below, h.others⟩⟩

theorem Carried.refl (os : List ThreadId) (n : Nat) (hlive : w.liveThread t = true) :
    Carried os t n w w :=
  ⟨hlive, Thread.SameUpTo.refl n _, fun _ _ _ => Thread.SameStack.refl _⟩

theorem Carried.trans (h : Carried os t n w w') (h' : Carried os t n w' w'') :
    Carried os t n w w'' :=
  ⟨h'.live, h.below.trans h'.below,
    fun o ho hne => (h.others o ho hne).trans (h'.others o ho hne)⟩

theorem Carried.mono {m : Nat} (h : Carried os t n w w') (hmn : m ≤ n) : Carried os t m w w' :=
  ⟨h.live, h.below.mono hmn, h.others⟩

theorem carried_setThread (hlive : w.liveThread t = true) {th : Thread}
    (h : (w.thread t).SameUpTo n th) : Carried os t n w (w.setThread t th) := by
  refine ⟨(liveThread_setThread w t t th).trans hlive, ?_, fun o _ hne => ?_⟩
  · rw [thread_setThread hlive]
    exact h
  · rw [thread_setThread_ne hne]
    exact Thread.SameStack.refl _

theorem carried_of_threads (hlive : w.liveThread t = true)
    (h : w'.heap.threads = w.heap.threads) : Carried os t n w w' := by
  have hthread : forall o, w'.thread o = w.thread o := by
    intro o
    unfold thread
    rw [h]
  refine ⟨?_, ?_, fun o _ _ => ?_⟩
  · unfold liveThread
    rw [h]
    exact hlive
  · rw [hthread]
    exact Thread.SameUpTo.refl n _
  · rw [hthread]
    exact Thread.SameStack.refl _

end World

/-!
# Calls
-/

namespace Engine

/-- A call has put its results, `n` of them unless the caller wants all, in the
place of the function in slot `f` and its arguments, and has left the rest alone. -/
def Called (os : List ThreadId) (t : ThreadId) (f : Nat) (n : Int) (w w' : World) : Prop :=
  (0 ≤ n -> (w'.thread t).top = f + n.toNat) ∧ World.Carried os t f w w'

instance (os : List ThreadId) (t : ThreadId) (f : Nat) (n : Int) (w w' : World) :
    Decidable (Called os t f n w w') :=
  inferInstanceAs (Decidable (_ ∧ _))

/-- All calls leave alone what lies below them, and the stacks of some other
threads. -/
def Disciplined (os : List ThreadId) (E : Engine) : Prop :=
  forall {t f n y w w'}, w.liveThread t = true -> E.call t f n y w = .ok () w' ->
    Called os t f n w w'

/-- The engine that gives up after a call that has touched something else. -/
def within (os : List ThreadId) (E : Engine) : Engine where
  call t f n y w :=
    match E.call t f n y w with
    | .ok () w' => if Called os t f n w w' then .ok () w' else .error .exhausted w'
    | .error r w' => .error r w'
  resume := E.resume

theorem within_within (os : List ThreadId) (E : Engine) :
    (E.within os).within os = E.within os := by
  have hcall : ((E.within os).within os).call = (E.within os).call := by
    funext t f n y w
    unfold within
    dsimp only
    cases E.call t f n y w with
    | ok u w' =>
        dsimp only
        by_cases hcalled : Called os t f n w w'
        · rw [if_pos hcalled]
          exact if_pos hcalled
        · rw [if_neg hcalled]
    | error r w' => rfl
  exact congrArg (fun call => { E with call }) hcall

theorem disciplined_within (os : List ThreadId) (E : Engine) : (E.within os).Disciplined os := by
  intro t f n y w w' _ h
  unfold within at h
  dsimp only at h
  cases hcall : E.call t f n y w with
  | ok u w₁ =>
      rw [hcall] at h
      dsimp only at h
      by_cases hcalled : Called os t f n w w₁
      · rw [if_pos hcalled] at h
        cases h
        exact hcalled
      · rw [if_neg hcalled] at h
        cases h
  | error r w₁ =>
      rw [hcall] at h
      cases h

end Engine

/-!
# Computations that touch no stack
-/

namespace Machine

/-- When the computation returns, every thread is as it was. -/
structure Still {α : Type} (x : M α) : Prop where
  threads_eq : forall {E w a w'}, x E w = .ok a w' -> w'.heap.threads = w.heap.threads

variable {α β : Type}

theorem Still.bind {x : M α} {f : α → M β} (hx : Still x) (hf : forall a, Still (f a)) :
    Still (x >>= f) := by
  refine ⟨fun h => ?_⟩
  rcases ok_bind h with ⟨a, w₁, hfirst, h⟩
  exact ((hf a).threads_eq h).trans (hx.threads_eq hfirst)

theorem Still.pure (a : α) : Still (pure a) := by
  refine ⟨fun h => ?_⟩
  cases h
  rfl

theorem still_reads {x : M α} (h : forall w, Reads x w) : Still x := by
  refine ⟨fun {E w a w'} hx => ?_⟩
  rcases h w with ⟨b, hb⟩
  rw [(hb.ok_eq hx).2]

theorem still_modify {f : World → World} (h : forall w : World, (f w).heap.threads = w.heap.threads) :
    Still (modify f : M Unit) := by
  refine ⟨fun {E w a w'} hx => ?_⟩
  rcases (returns_modify f w).ok_eq hx with ⟨_, rfl⟩
  exact h w

/-- A computation that does not return touches nothing that anyone could see. -/
theorem still_throws {x : M α} (h : forall E w a w', x E w ≠ .ok a w') : Still x :=
  ⟨fun hx => absurd hx (h _ _ _ _)⟩

/-!
# Computations on one stack
-/

/-- On a stack with `j` values on top of any others, the computation leaves `k`
in their place, and touches neither the others nor the stacks of the threads
`os`. -/
structure Shifts (os : List ThreadId) (t : ThreadId) (x : M α) (j : Nat) (k : α → Nat) : Prop where
  run : forall {E n w a w'}, E.Disciplined os -> w.liveThread t = true ->
    (w.thread t).top = n + j -> x E w = .ok a w' ->
    (w'.thread t).top = n + k a ∧ World.Carried os t n w w'

variable {os : List ThreadId} {t : ThreadId} {x : M α} {j : Nat} {k : α → Nat}

/-- What the first part answered is known in the second one. -/
theorem Shifts.bind_of {f : α → M β} {l : β → Nat} {P : α → Prop} (hx : Shifts os t x j k)
    (hP : forall {E w a w'}, x E w = .ok a w' -> P a)
    (hf : forall a, P a -> Shifts os t (f a) (k a) l) : Shifts os t (x >>= f) j l := by
  refine ⟨fun hE hlive htop h => ?_⟩
  rcases ok_bind h with ⟨a, w₁, hfirst, h⟩
  rcases hx.run hE hlive htop hfirst with ⟨htop₁, hcarried⟩
  rcases (hf a (hP hfirst)).run hE hcarried.live htop₁ h with ⟨htop₂, hcarried'⟩
  exact ⟨htop₂, hcarried.trans hcarried'⟩

theorem Shifts.bind {f : α → M β} {l : β → Nat} (hx : Shifts os t x j k)
    (hf : forall a, Shifts os t (f a) (k a) l) : Shifts os t (x >>= f) j l :=
  hx.bind_of (fun _ => trivial) fun a _ => hf a

theorem Still.shifts (h : Still x) : Shifts os t x j fun _ => j := by
  refine ⟨fun {E n w a w'} _ hlive htop hx => ?_⟩
  have hthreads := h.threads_eq hx
  refine ⟨?_, World.carried_of_threads hlive hthreads⟩
  unfold World.thread
  rw [hthreads]
  exact htop

theorem Shifts.pure (a : α) : Shifts os t (pure a) j fun _ => j := (Still.pure a).shifts

theorem Shifts.imp {l : α → Nat} (h : Shifts os t x j k)
    (hkl : forall {E w a w'}, x E w = .ok a w' -> k a = l a) : Shifts os t x j l := by
  refine ⟨fun {E n w a w'} hE hlive htop hx => ?_⟩
  rw [← hkl hx]
  exact h.run hE hlive htop hx

theorem Shifts.answer {a : α} (h : k a = j) : Shifts os t (Pure.pure a) j k :=
  (Shifts.pure a).imp fun hx => by cases hx; exact h.symm

/-- More values below are not touched either. -/
theorem Shifts.over (h : Shifts os t x j k) (i : Nat) :
    Shifts os t x (i + j) fun a => i + k a := by
  refine ⟨fun {E n w a w'} hE hlive htop hx => ?_⟩
  rcases h.run hE hlive (htop.trans (Nat.add_assoc n i j).symm) hx with ⟨htop', hcarried⟩
  exact ⟨htop'.trans (Nat.add_assoc n i (k a)), hcarried.mono (Nat.le_add_right n i)⟩

theorem shifts_throws (h : forall E w a w', x E w ≠ .ok a w') : Shifts os t x j k :=
  ⟨fun _ _ _ hx => absurd hx (h _ _ _ _)⟩

theorem shifts_modifyThread {f : Thread → Thread} {l : Nat}
    (h : forall n th, th.top = n + j -> (f th).top = n + l ∧ th.SameUpTo n (f th)) :
    Shifts os t (modifyThread t f) j fun _ => l := by
  refine ⟨fun {E n w a w'} _ hlive htop hx => ?_⟩
  rcases (returns_modifyThread w t f).ok_eq hx with ⟨_, rfl⟩
  rcases h n (w.thread t) htop with ⟨htop', hbelow⟩
  rw [World.thread_setThread hlive]
  exact ⟨htop', World.carried_setThread hlive hbelow⟩

theorem shifts_alike (h : forall {E w a w'}, x E w = .ok a w' ->
    exists th, (w.thread t).Alike th ∧ w' = w.setThread t th) : Shifts os t x j fun _ => j := by
  refine ⟨fun {E n w a w'} _ hlive htop hx => ?_⟩
  rcases h hx with ⟨th, halike, rfl⟩
  rw [World.thread_setThread hlive]
  exact ⟨halike.top_eq.trans htop, World.carried_setThread hlive (halike.sameBelow n).sameUpTo⟩

/-!
# Slots
-/

theorem carried_setSlot {E : Engine} {w w' : World} (hlive : w.liveThread t = true) {n i : Nat}
    (hi : n ≤ i) {v : Value} {u : Unit} (h : setSlot t i v E w = .ok u w') :
    (w'.thread t).top = (w.thread t).top ∧ World.Carried os t n w w' := by
  rcases (returns_modifyThread w t _).ok_eq h with ⟨_, rfl⟩
  rw [World.thread_setThread hlive]
  exact ⟨Thread.top_setSlot _ i v,
    World.carried_setThread hlive ((w.thread t).sameUpTo_setSlot hi v)⟩

theorem shifts_push (v : Value) : Shifts os t (push t v) j fun _ => j + 1 := by
  refine shifts_modifyThread fun n th htop => ⟨?_, Thread.base_push th v, fun i hi _ => ?_⟩
  · rw [Thread.top_push, htop, Nat.add_assoc]
  · rw [Thread.slot_push, if_neg (by omega)]

theorem shifts_pushAll (vs : List Value) :
    Shifts os t (pushAll t vs) j fun _ => j + vs.length := by
  unfold pushAll
  induction vs generalizing j with
  | nil => exact Shifts.pure _
  | cons v vs ih =>
      have hrest := ih (j := j + 1)
      rw [Nat.add_assoc, Nat.add_comm 1] at hrest
      exact (shifts_push v).bind fun _ => hrest

theorem shifts_drop (i : Nat) : Shifts os t (drop t i) (j + i) fun _ => j := by
  refine shifts_modifyThread fun n th htop => ⟨?_, rfl, fun _ _ _ => rfl⟩
  show th.top - i = _
  omega

theorem shifts_pop : Shifts os t (Machine.pop t) (j + 1) fun _ => j :=
  (still_reads (reads_thread t)).shifts.bind fun _ => (shifts_drop 1).bind fun _ => Shifts.pure _

/-!
# Reading
-/

theorem still_get : Still (get : M World) := still_reads fun w => ⟨w, returns_get w⟩

theorem still_thread (t : ThreadId) : Still (thread t) := still_reads (reads_thread t)

theorem still_table (i : TableId) : Still (table i) := still_reads fun _ => ⟨_, fun _ => rfl⟩

theorem still_userdata (u : UserDataId) : Still (userdata u) :=
  still_reads fun _ => ⟨_, fun _ => rfl⟩

theorem still_modifyTable (i : TableId) (f : Table → Table) : Still (modifyTable i f) :=
  still_modify fun _ => rfl

theorem still_registryValue (k : Value) : Still (registryValue k) :=
  still_reads fun w => ⟨_, returns_registryValue w k⟩

theorem still_setRegistryValue (k v : Value) : Still (setRegistryValue k v) :=
  still_get.bind fun _ => still_modifyTable _ _

theorem still_tableLength (i : TableId) : Still (tableLength i) :=
  (still_table i).bind fun _ => (still_modifyTable i _).bind fun _ => Still.pure _

theorem still_metatableOf (v : Value) : Still (metatableOf v) := by
  unfold metatableOf
  split
  · exact (still_table _).bind fun _ => Still.pure _
  · exact (still_userdata _).bind fun _ => Still.pure _
  · exact still_get.bind fun _ => Still.pure _

theorem still_metaEvent (v : Value) (e : Event) : Still (metaEvent v e) := by
  refine (still_metatableOf v).bind fun m => ?_
  cases m with
  | none => exact Still.pure _
  | some m => exact (still_table m).bind fun _ => Still.pure _

theorem still_value (t : ThreadId) (idx : Int) : Still (value t idx) :=
  (still_reads (reads_place t idx)).bind fun p => still_reads (reads_valueAt t p)

theorem still_value? (t : ThreadId) (idx : Int) : Still (value? t idx) := by
  refine (still_reads (reads_place t idx)).bind fun p => ?_
  cases p with
  | nowhere => exact Still.pure _
  | _ => exact (still_reads (reads_valueAt t _)).bind fun _ => Still.pure _

theorem still_kindAt (t : ThreadId) (idx : Int) : Still (kindAt t idx) := by
  refine (still_value? t idx).bind fun v => ?_
  cases v <;> exact Still.pure _

theorem still_absIndex (t : ThreadId) (idx : Int) : Still (absIndex t idx) := by
  unfold absIndex
  split
  · exact Still.pure _
  · exact ((still_thread t).bind fun _ => Still.pure _).bind fun _ => Still.pure _

theorem still_mayYield (t : ThreadId) : Still (mayYield t) :=
  ((still_thread t).bind fun _ => Still.pure _).bind fun _ => Still.pure _

/-!
# Errors
-/

theorem runError_ne_ok {α : Type} (t : ThreadId) (msg : Bytes) (E : Engine) (w : World) (a : α)
    (w' : World) : runError t msg E w ≠ .ok a w' := by
  intro h
  rcases ok_bind h with ⟨_, _, _, h⟩
  rcases ok_bind h with ⟨_, _, _, h⟩
  exact throwTop_ne_ok t E _ a w' h

theorem shifts_runError (t : ThreadId) (msg : Bytes) : Shifts os t (runError t msg : M α) j k :=
  shifts_throws fun E w a w' => runError_ne_ok t msg E w a w'

theorem shifts_typeError (t : ThreadId) (v : Value) (o : Origin) (op : String) :
    Shifts os t (typeError t v o op : M α) j k := by
  refine shifts_throws fun E w a w' h => ?_
  rcases ok_bind h with ⟨_, _, _, h⟩
  rcases ok_bind h with ⟨_, _, _, h⟩
  exact runError_ne_ok t _ E _ a w' h

theorem shifts_memoryError (t : ThreadId) : Shifts os t (memoryError t : M α) j k := by
  refine shifts_throws fun E w a w' h => ?_
  rcases ok_bind h with ⟨_, _, _, h⟩
  exact throwStatus_ne_ok t _ E _ a w' h

/-!
# Handlers
-/

/-- A handler is called above everything else. -/
theorem carried_call {E : Engine} {w w₁ w₂ w₃ : World} {vs : List Value} {y : Bool} {n : Int}
    (hE : E.Disciplined os) (hlive : w.liveThread t = true) (hn : 0 ≤ n)
    (hpush : pushAll t vs E w = .ok () w₁) (hyield : mayYield t E w₁ = .ok y w₂)
    (hcall : E.call t (w.thread t).top n y w₂ = .ok () w₃) :
    (w₃.thread t).top = (w.thread t).top + n.toNat ∧
      World.Carried os t (w.thread t).top w w₃ := by
  rcases (shifts_pushAll vs).run (j := 0) hE hlive rfl hpush with ⟨htop₁, hpushed⟩
  rcases (still_mayYield t).shifts.run hE hpushed.live htop₁ hyield with ⟨_, hread⟩
  rcases hE hread.live hcall with ⟨htop, hcalled⟩
  exact ⟨htop hn, (hpushed.trans hread).trans hcalled⟩

theorem shifts_callHandler (f : Value) (args : List Value) :
    Shifts os t (callHandler t f args) j fun _ => j := by
  refine ⟨fun {E n w a w'} hE hlive htop h => ?_⟩
  have htops : Returns (Machine.top t) w (w.thread t).top w := fun _ => rfl
  have h := htops.ok_bind h
  rcases ok_bind h with ⟨_, w₁, hpush, h⟩
  rcases ok_bind h with ⟨E', w₂, hread, h⟩
  cases hread
  rcases ok_bind h with ⟨y, w₃, hyield, h⟩
  rcases ok_bind h with ⟨_, w₄, hcall, hpop⟩
  rcases carried_call hE hlive (by decide) hpush hyield hcall with ⟨htop₄, hcalled⟩
  rcases shifts_pop.run (j := 0 + 1) hE hcalled.live htop₄ hpop with ⟨htop', hpopped⟩
  rw [htop', htop]
  exact ⟨rfl, (hcalled.trans hpopped).mono (by omega)⟩

theorem shifts_callHandlerNoResult (f : Value) (args : List Value) :
    Shifts os t (callHandlerNoResult t f args) j fun _ => j := by
  refine ⟨fun {E n w a w'} hE hlive htop h => ?_⟩
  have htops : Returns (Machine.top t) w (w.thread t).top w := fun _ => rfl
  have h := htops.ok_bind h
  rcases ok_bind h with ⟨_, w₁, hpush, h⟩
  rcases ok_bind h with ⟨E', w₂, hread, h⟩
  cases hread
  rcases ok_bind h with ⟨y, w₃, hyield, hcall⟩
  rcases carried_call hE hlive (by decide) hpush hyield hcall with ⟨htop', hcalled⟩
  rw [htop', htop]
  exact ⟨rfl, hcalled.mono (by omega)⟩

/-- However long the chain of handlers is, looking up a value leaves the stack. -/
theorem shifts_indexLoop (fuel : Nat) : forall (v key : Value) (o : Origin),
    Shifts os t (indexLoop t v key o fuel) j fun _ => j := by
  induction fuel with
  | zero => exact fun _ _ _ => shifts_runError t _
  | succ fuel ih =>
      intro v key o
      have hcall : forall h, Shifts os t
          (if isFunction h then callHandler t h [v, key] else indexLoop t h key .unknown fuel) j
          fun _ => j := by
        intro h
        split
        · exact shifts_callHandler h _
        · exact ih h key _
      unfold indexLoop
      split
      · refine (still_table _).shifts.bind fun tb => ?_
        dsimp only
        split
        · exact Shifts.pure _
        · split
          · exact Shifts.pure _
          · refine (still_table _).shifts.bind fun mt => ?_
            split
            · exact Shifts.pure _
            · exact hcall _
      · refine (still_metaEvent v _).shifts.bind fun h => ?_
        dsimp only
        split
        · exact (shifts_typeError t v o _).bind fun _ => hcall h
        · exact hcall h

theorem shifts_index (v key : Value) : Shifts os t (index t v key) j fun _ => j :=
  shifts_indexLoop maxChain v key .unknown

theorem shifts_rawSet (i : TableId) (key v : Value) :
    Shifts os t (rawSet t i key v) j fun _ => j := by
  have hset : forall key : Value, Shifts os t (modifyTable i (·.set key v)) j fun _ => j :=
    fun _ => (still_modifyTable i _).shifts
  unfold rawSet
  split
  · exact shifts_runError t _
  · split
    · exact (shifts_runError t _).bind fun _ => hset _
    · exact hset _
  · exact hset key

theorem shifts_assignLoop (fuel : Nat) : forall (v key x : Value) (o : Origin),
    Shifts os t (assignLoop t v key x o fuel) j fun _ => j := by
  induction fuel with
  | zero => exact fun _ _ _ _ => shifts_runError t _
  | succ fuel ih =>
      intro v key x o
      have hcall : forall h, Shifts os t
          (if isFunction h then callHandlerNoResult t h [v, key, x]
            else assignLoop t h key x .unknown fuel) j
          fun _ => j := by
        intro h
        split
        · exact shifts_callHandlerNoResult h _
        · exact ih h key x _
      unfold assignLoop
      split
      · refine (still_table _).shifts.bind fun tb => ?_
        dsimp only
        split
        · exact (still_modifyTable _ _).shifts
        · split
          · exact shifts_rawSet _ key x
          · refine (still_table _).shifts.bind fun mt => ?_
            split
            · exact shifts_rawSet _ key x
            · exact hcall _
      · refine (still_metaEvent v _).shifts.bind fun h => ?_
        dsimp only
        split
        · exact (shifts_typeError t v o _).bind fun _ => hcall h
        · exact hcall h

theorem shifts_lengthOf (v : Value) (o : Origin) :
    Shifts os t (lengthOf t v o) j fun _ => j := by
  unfold lengthOf
  split
  · exact Shifts.pure _
  · refine (still_metaEvent v _).shifts.bind fun h => ?_
    split
    · exact shifts_callHandler h _
    · split
      · exact (still_tableLength _).shifts.bind fun _ => Shifts.pure _
      · exact shifts_typeError t v o _

end Machine

end LuaHost
