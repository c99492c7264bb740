import LuaHost.Interface.Functions
import LuaHost.Proofs.Machine.Unwinding

/-!
# How errors are reported

An error leaves the calls of its thread one after the other, and the sections
that protect other threads, until it comes to a section that protects its own:
a protected call, or the resumption of the thread.  There the variables of the
calls that are given up are closed, and the error object is put in its place.
-/

namespace LuaHost

namespace Thread

theorem errorObject_congr {th th' : Thread} (hstack : th'.stack = th.stack)
    (htop : th'.top = th.top) (s : Status) : th'.errorObject s = th.errorObject s := by
  unfold errorObject slot
  rw [hstack, htop]

theorem Alike.errorObject_eq {th th' : Thread} (h : th.Alike th') (s : Status) :
    th'.errorObject s = th.errorObject s :=
  errorObject_congr h.stack_eq h.top_eq s

theorem Alike.setSlot {th th' : Thread} (h : th.Alike th') (i : Nat) (v : Value) :
    (th.setSlot i v).Alike (th'.setSlot i v) := by
  refine ⟨?_, ?_, ?_⟩
  · unfold Thread.setSlot
    rw [h.stack_eq]
    split <;> rfl
  · unfold Thread.setSlot
    split <;> split <;> exact h.top_eq
  · rw [base_setSlot, base_setSlot]
    exact h.base_eq

theorem Alike.placing {th th' : Thread} (h : th.Alike th') (s : Status) (i : Nat) :
    (th.placing s i).Alike (th'.placing s i) := by
  unfold Thread.placing
  rw [h.errorObject_eq]
  have hset := h.setSlot i (th.errorObject s)
  exact ⟨hset.stack_eq, rfl, hset.base_eq⟩

/-- The thread whose calls behind the `n`-th one are given up. -/
def cutTo (th : Thread) (n : Nat) (allowed : Bool) : Thread :=
  { th with frames := th.frames.take n, hook := { th.hook with allowed } }

/-- The `i`-th call of a thread. -/
def callAt (th : Thread) (i : Nat) : Frame := th.frames.getD i default

/-- The thread whose `i`-th call is to recover from an error. -/
def backTo (th : Thread) (i : Nat) (s : Status) : Thread :=
  Thread.modifyFrame { th with frames := th.frames.take (i + 1) } fun f =>
    { f with recovering := s }

theorem size_backTo (th : Thread) {i : Nat} (h : i < th.frames.size) (s : Status) :
    (th.backTo i s).frames.size = i + 1 := by
  unfold backTo modifyFrame
  rw [Array.size_modify, Array.take_eq_extract, Array.size_extract]
  omega

theorem frame_backTo (th : Thread) {i : Nat} (h : i < th.frames.size) (s : Status) :
    (th.backTo i s).frame = { th.callAt i with recovering := s } := by
  have hsize : (th.frames.take (i + 1)).size = i + 1 := by
    rw [Array.take_eq_extract, Array.size_extract]
    omega
  have hcut : Thread.frame { th with frames := th.frames.take (i + 1) } = th.callAt i := by
    unfold frame callAt Array.back?
    rw [hsize, Array.getD_eq_getD_getElem?, Array.take_eq_extract, Array.getElem?_extract,
      if_pos (by omega), Nat.zero_add, Nat.add_sub_cancel, Array.getElem?_eq_getElem h]
    rfl
  unfold backTo
  rw [frame_modifyFrame (by rw [hsize]; exact Nat.succ_pos i), hcut]

end Thread

namespace Machine

/-!
# What stands around a computation
-/

/-- The computation that comes to a known outcome. -/
def known {α : Type} (r : Outcome α) : M α := fun _ _ => r

/-- What stands around a computation in the thread `t`, as the change that it makes to an outcome:
code that would go on with a result, host code that was called, and the protected sections of other
threads. -/
inductive Around (t : ThreadId) {α : Type} : {β : Type} → (Outcome α → Outcome β) → Prop where
  | here : Around t fun r => r
  | andThen {β γ : Type} {L : Outcome α → Outcome β} (f : β → M γ) (E : Engine) (w : World) :
      Around t L → Around t fun r => (known (L r) >>= f) E w
  | guarded {L : Outcome α → Outcome Nat} (t' : ThreadId) (E : Engine) (w : World) :
      Around t L → Around t fun r => Interface.guarded t' (known (L r)) E w
  | attempt {β : Type} {L : Outcome α → Outcome β} {t' : ThreadId} (E : Engine) (w : World) :
      t' ≠ t → Around t L → Around t fun r => Machine.attempt t' (known (L r)) E w
  | untilYield {L : Outcome α → Outcome Unit} {t' : ThreadId} (E : Engine) (w : World) :
      t' ≠ t → Around t L → Around t fun r => Machine.untilYield t' (known (L r)) E w

/-- The world `w'` has the thread as `w` has it. -/
structure SameThread (t : ThreadId) (w w' : World) : Prop where
  thread_eq : w'.thread t = w.thread t
  live_eq : w'.liveThread t = w.liveThread t

section Around

variable {α β : Type} {t t' : ThreadId} {w w' : World} {E : Engine} {s : Status}

theorem SameThread.refl (t : ThreadId) (w : World) : SameThread t w w := ⟨rfl, rfl⟩

theorem SameThread.setThread (h : SameThread t w w') (hne : t' ≠ t) (th : Thread) :
    SameThread t w (w'.setThread t' th) :=
  ⟨(World.thread_setThread_ne hne.symm th).trans h.thread_eq,
    (World.liveThread_setThread w' t' t th).trans h.live_eq⟩

/-- A section that protects another thread lets an error through. -/
theorem attempt_of_foreign {body : M α} (hne : t' ≠ t)
    (h : body E (w.setThread t' (w.thread t').guarding) = .error (.error t s) w') :
    attempt t' body E w =
      .error (.error t s) (w'.setThread t' ((w'.thread t').nestedAs (w.thread t'))) := by
  refine (returns_thread w t').andThen ?_
  refine (returns_modifyThread w t' _).andThen ?_
  refine catch_of_error (bind_of_error h _) ?_
  refine (returns_modifyThread w' t' _).andThen ?_
  rw [if_neg hne.symm]
  rfl

theorem untilYield_of_foreign {body : M Unit} (hne : t' ≠ t)
    (h : body E (w.setThread t' (w.thread t').guarding) = .error (.error t s) w') :
    untilYield t' body E w =
      .error (.error t s) (w'.setThread t' ((w'.thread t').nestedAs (w.thread t'))) := by
  refine (returns_thread w t').andThen ?_
  exact catch_of_error (bind_of_error (attempt_of_foreign hne h) _) rfl

/-- An error of the thread goes through all that stands around it. -/
theorem Around.passes {L : Outcome α → Outcome β} (h : Around t L) (s : Status) (w : World) :
    exists w', SameThread t w w' ∧ L (.error (.error t s) w) = .error (.error t s) w' := by
  induction h with
  | here => exact ⟨w, .refl t w, rfl⟩
  | andThen f E w₀ _ ih =>
      rcases ih with ⟨w', hkeeps, hpass⟩
      exact ⟨w', hkeeps, bind_of_error hpass f⟩
  | guarded t' E w₀ _ ih =>
      rcases ih with ⟨w', hkeeps, hpass⟩
      exact ⟨w', hkeeps, catch_of_error hpass rfl⟩
  | attempt E w₀ hne _ ih =>
      rcases ih with ⟨w', hkeeps, hpass⟩
      exact ⟨_, hkeeps.setThread hne _, attempt_of_foreign hne hpass⟩
  | untilYield E w₀ hne _ ih =>
      rcases ih with ⟨w', hkeeps, hpass⟩
      exact ⟨_, hkeeps.setThread hne _, untilYield_of_foreign hne hpass⟩

end Around

/-!
# Variables that are closed
-/

section Closing

variable {t : ThreadId} {v u : World} {E : Engine} {s : Status} {level : Nat}

/-- The variables at or above a slot are closed for an error: all closing methods return, and leave
the error object where it is. -/
structure Closes (E : Engine) (t : ThreadId) (level : Nat) (s : Status) (yieldable : Bool)
    (v u : World) : Prop where
  returns : closeFrom t level (some s) yieldable E v = .ok () u
  live : u.liveThread t = true
  object_eq : (u.thread t).errorObject s = (v.thread t).errorObject s

theorem returns_closeUpvaluesIn (t : ThreadId) (level : Nat) (us : List UpvalueId) (v : World) :
    exists left u, Returns (closeUpvaluesIn t level us) v left u ∧
      u.heap.threads = v.heap.threads := by
  induction us generalizing v with
  | nil => exact ⟨[], v, Returns.pure [] v, rfl⟩
  | cons o us ih =>
      have hread : Returns (upvalue o) v (v.heap.upvalues.get o.index) v := fun _ => rfl
      cases ho : v.heap.upvalues.get o.index with
      | closed x =>
          rcases ih v with ⟨left, u, hrun, hthreads⟩
          refine ⟨left, u, Returns.bind hread ?_, hthreads⟩
          rw [ho]
          exact hrun
      | opened owner i =>
          by_cases hi : i < level
          · refine ⟨o :: us, v, Returns.bind hread ?_, rfl⟩
            rw [ho]
            dsimp only
            rw [if_pos hi]
            exact Returns.pure _ v
          · have hslot := returns_slot v t i
            have hmove : exists v', v'.heap.threads = v.heap.threads ∧
                Returns (modifyUpvalue o fun _ => .closed ((v.thread t).slot i)) v () v' :=
              ⟨_, by rfl, returns_modify _ v⟩
            rcases hmove with ⟨v', hkept, hmove⟩
            rcases ih v' with ⟨left, u, hrun, hthreads⟩
            refine ⟨left, u, Returns.bind hread ?_, hthreads.trans hkept⟩
            rw [ho]
            dsimp only
            rw [if_neg hi]
            exact Returns.bind hslot (Returns.bind hmove hrun)

theorem returns_closeUpvalues (hlive : v.liveThread t = true) (level : Nat) :
    exists u ups, Returns (closeUpvalues t level) v () u ∧ u.liveThread t = true ∧
      u.thread t = { v.thread t with openUpvalues := ups } := by
  rcases returns_closeUpvaluesIn t level (v.thread t).openUpvalues v with
    ⟨left, u, hrun, hthreads⟩
  have hlive' : u.liveThread t = true := by
    unfold World.liveThread
    rw [hthreads]
    exact hlive
  have hthread : u.thread t = v.thread t := by
    unfold World.thread
    rw [hthreads]
  refine ⟨u.setThread t { u.thread t with openUpvalues := left }, left,
    Returns.bind (returns_thread v t) (Returns.bind hrun (returns_modifyThread u t _)),
    (World.liveThread_setThread u t t _).trans hlive', ?_⟩
  rw [World.thread_setThread hlive', hthread]

theorem closes_nothing (hlive : v.liveThread t = true)
    (hnone : forall i, i ∈ (v.thread t).toClose → i < level) (E : Engine) (s : Status)
    (yieldable : Bool) :
    exists u, Closes E t level s yieldable v u ∧ (v.thread t).Alike (u.thread t) := by
  rcases returns_closeUpvalues hlive level with ⟨u, ups, hclose, hlive', hthread⟩
  have halike : (v.thread t).Alike (u.thread t) := by
    rw [hthread]
    exact ⟨rfl, rfl, rfl⟩
  have hpending : Returns (closePending t level (some s) yieldable (u.thread t).toClose.length)
      u () u := by
    have hpend : (u.thread t).toClose = (v.thread t).toClose := by
      rw [hthread]
    cases hlist : (v.thread t).toClose with
    | nil =>
        rw [hpend, hlist]
        exact Returns.pure () u
    | cons i rest =>
        have hi : ¬ level ≤ i := Nat.not_le_of_lt (hnone i (by rw [hlist]; exact .head rest))
        rw [hpend, hlist]
        refine Returns.bind (returns_thread u t) ?_
        rw [hpend, hlist]
        dsimp only
        rw [if_neg hi]
        exact Returns.pure () u
  refine ⟨u, ⟨?_, hlive', halike.errorObject_eq s⟩, halike⟩
  exact (Returns.bind hclose (Returns.bind (returns_thread u t) hpending)) E

/-- In a protected section nothing more comes of it. -/
theorem Closes.closeProtected (h : Closes E t level s false (v.setThread t (v.thread t).guarding) u) :
    closeProtected t level s E v = .ok s (backFrom t v u) := by
  have hprotect : protect t (closeFrom t level (some s) false) E v = .ok .ok (backFrom t v u) :=
    ok_andThen (attempt_of_ok h.returns) rfl
  refine (returns_thread v t).andThen ?_
  unfold closeProtectedLoop
  exact ok_andThen hprotect rfl

end Closing

/-!
# Reports
-/

/-- In the world `w'` an error is reported: the stack of its thread ends with the error object `x`, in
slot `i`, and nothing else has changed since `w` in any slot of any thread. -/
structure Reports (t : ThreadId) (i : Nat) (x : Value) (w w' : World) : Prop where
  live : w'.liveThread t = true
  top_eq : (w'.thread t).top = i + 1
  slot_eq : (w'.thread t).slot i = x
  below : forall j, j < i → (w'.thread t).slot j = (w.thread t).slot j
  others : forall o, o ≠ t → w'.thread o = w.thread o

/-- The world in which a protected call closes the variables of the calls that are given up: the call
began in the world `w`, and the error left its section in `w'`. -/
def unwound (t : ThreadId) (w w' : World) : World :=
  w'.setThread t (((w'.thread t).nestedAs (w.thread t)).cutTo (w.thread t).frames.size
    (w.thread t).hook.allowed)

section Reports

variable {host : Host} {α : Type} {t : ThreadId} {caller : Option ThreadId} {nargs fuel : Nat}
  {u v w : World} {E : Engine} {s : Status}

theorem reports_setThread (hlive : w.liveThread t = true) {i : Nat} {th : Thread}
    (h : ((w.thread t).placing s i).Alike th) :
    Reports t i ((w.thread t).errorObject s) w (w.setThread t th) := by
  have hslot : forall j, th.slot j = if i = j then (w.thread t).errorObject s else
      (w.thread t).slot j := by
    intro j
    exact (h.slot_eq j).trans (Thread.slot_setSlot (w.thread t) i j _)
  constructor
  case live => exact (World.liveThread_setThread w t t th).trans hlive
  case top_eq =>
    rw [World.thread_setThread hlive]
    exact h.top_eq
  case slot_eq => rw [World.thread_setThread hlive, hslot, if_pos rfl]
  case below =>
    intro j hj
    rw [World.thread_setThread hlive, hslot, if_neg (Nat.ne_of_gt hj)]
  case others =>
    intro o hne
    exact World.thread_setThread_ne hne th

/-- A protected call reports the error in the place of the function. -/
theorem runProtected_reports {body : M Unit} {oldTop handler : Nat} (hlive : w.liveThread t = true)
    (hlive' : u.liveThread t = true)
    (h : body E (w.setThread t ((w.thread t).withHandler handler).guarding) =
      .error (.error t s) u)
    (hcloses : Closes E t oldTop s false
      ((unwound t w u).setThread t ((unwound t w u).thread t).guarding) v) :
    exists w', runProtected t oldTop handler body E w = .ok s w' ∧
      Reports t oldTop ((u.thread t).errorObject s) v w' := by
  have hcut := returns_modifyThread (backFrom t w u) t
    (·.cutTo (w.thread t).frames.size (w.thread t).hook.allowed)
  -- first the calls of the failed section go, then its variables are closed, and only then the
  -- error object is placed
  have hunwind : Returns (unwindTo t (w.thread t).frames.size (w.thread t).hook.allowed)
      (backFrom t w u) () (unwound t w u) := by
    unfold backFrom at hcut
    rw [World.thread_setThread hlive', World.setThread_setThread] at hcut
    exact hcut
  have hclosed := hcloses.closeProtected
  have hclose : (do
      unwindTo t (w.thread t).frames.size (w.thread t).hook.allowed
      closeProtected t oldTop s : M Status) E (backFrom t w u) = .ok s _ :=
    hunwind.andThen hclosed
  have hlast : (backFrom t (unwound t w u) v).liveThread t = true :=
    (World.liveThread_setThread v t t _).trans hcloses.live
  have halike : (v.thread t).Alike ((backFrom t (unwound t w u) v).thread t) := by
    unfold backFrom
    rw [World.thread_setThread hcloses.live]
    exact ⟨rfl, rfl, rfl⟩
  have hobject : ((backFrom t (unwound t w u) v).thread t).errorObject s =
      (u.thread t).errorObject s := by
    have hunwound : (unwound t w u).liveThread t = true :=
      (World.liveThread_setThread u t t _).trans hlive'
    rw [halike.errorObject_eq s, hcloses.object_eq, World.thread_setThread hunwound]
    unfold unwound
    rw [World.thread_setThread hlive']
    rfl
  rcases runProtected_of_error hlive hlast h hclose with ⟨th, hplaced, hrun⟩
  have hreports := reports_setThread hlast hplaced
  rw [hobject] at hreports
  refine ⟨_, hrun, hreports.live, hreports.top_eq, hreports.slot_eq, ?_, ?_⟩
  · intro j hj
    exact (hreports.below j hj).trans (halike.slot_eq j)
  · intro o hne
    exact (hreports.others o hne).trans (World.thread_setThread_ne hne _)

theorem recover_of_none (hs : s.isError = true)
    (hnone : findRecovery (w.thread t).frames (w.thread t).frames.size = none) :
    recover host t s (fuel + 1) E w = .ok s w := by
  rw [recover, if_neg (by rw [hs]; exact Bool.noConfusion)]
  refine (returns_thread w t).andThen ?_
  rw [hnone]
  rfl

theorem returns_failing (hlive : w.liveThread t = true) (s : Status) :
    exists th, ((w.thread t).placing s (w.thread t).top).Alike th ∧ Returns (do
      modifyThread t fun th => { th with status := s }
      placeError t s (← top t)
      modifyThread t fun th =>
        let n := th.top
        th.modifyFrame fun f => { f with top := n }) w () (w.setThread t th) := by
  have hstatus := returns_modifyThread w t fun th => { th with status := s }
  have htop := returns_top (w.setThread t { w.thread t with status := s }) t
  have hplace := returns_placeError (w.setThread t { w.thread t with status := s }) t s
    (w.thread t).top ((World.liveThread_setThread w t t _).trans hlive)
  have hend := returns_modifyThread (w.setThread t
    (Thread.placing s (w.thread t).top { w.thread t with status := s })) t fun th =>
      let n := th.top
      th.modifyFrame fun f => { f with top := n }
  rw [World.thread_setThread hlive, World.setThread_setThread] at hplace hend
  rw [World.thread_setThread hlive] at htop
  refine ⟨_, ?_, Returns.bind hstatus (Returns.bind htop (Returns.bind hplace hend))⟩
  have halike : (w.thread t).Alike { w.thread t with status := s } := ⟨rfl, rfl, rfl⟩
  exact (halike.placing s _).trans (Thread.alike_modifyFrame _ fun _ => rfl)

/-- A resumption reports the error on top of the stack, if no call of the thread recovers from it. -/
theorem ComesTo.reports {w₁ : World}
    (h : ComesTo host t caller nargs E w₁ ⟨fuel + 1, v, .error (.error t s) u⟩)
    (hlive : u.liveThread t = true) (hs : s.isError = true)
    (hnone : findRecovery (u.thread t).frames (u.thread t).frames.size = none) :
    exists n w', resumeThread host t caller nargs E w₁ = .ok (s, n) w' ∧
      Reports t (u.thread t).top ((u.thread t).errorObject s) u w' := by
  rcases h with ⟨body, hbody, hresume⟩
  have hthread : (backFrom t v u).thread t = (u.thread t).nestedAs (v.thread t) :=
    World.thread_setThread hlive _
  have hlive' : (backFrom t v u).liveThread t = true :=
    (World.liveThread_setThread u t t _).trans hlive
  have hrecover : recover host t s (fuel + 1) E (backFrom t v u) = .ok s (backFrom t v u) := by
    refine recover_of_none hs ?_
    rw [hthread]
    exact hnone
  have halike : (u.thread t).Alike ((u.thread t).nestedAs (v.thread t)) := ⟨rfl, rfl, rfl⟩
  rcases returns_failing hlive' s with ⟨th, hplaced, hfailing⟩
  rw [hthread] at hplaced
  unfold backFrom at hfailing
  rw [World.setThread_setThread] at hfailing
  refine ⟨th.height, u.setThread t th, hresume.trans ?_,
    reports_setThread hlive ((halike.placing s _).trans hplaced)⟩
  refine ok_andThen (untilYield_of_error hbody.symm) ?_
  refine ok_andThen hrecover ?_
  refine (run_congr (if_pos hs)).trans ?_
  -- the status is that of an error, so that the answer is the height of the stack
  have hyield : ¬ (s == Status.yield) = true := by
    cases s <;> first | exact Bool.false_ne_true | cases hs
  have hanswer : (do
      let th ← thread t
      return (s, if s == .yield then th.frame.yieldCount else th.height) : M (Status × Nat)) E
      (u.setThread t th) = .ok (s, th.height) (u.setThread t th) := by
    refine (returns_thread (u.setThread t th) t).andThen ?_
    rw [World.thread_setThread hlive, if_neg hyield]
    rfl
  have hend := ok_andThen (f := fun _ => _) (hfailing E) hanswer
  simp only [bind_assoc] at hend
  exact hend

/-- The innermost call that can recover from an error is one that makes a protected call. -/
theorem findRecovery_some {fs : Array Frame} {n i : Nat} (h : findRecovery fs n = some i) :
    i < n ∧ (fs.getD i default).protectedCall = true := by
  induction n with
  | zero => cases h
  | succ n ih =>
      rw [findRecovery] at h
      split at h
      · next hcall =>
          cases h
          exact ⟨Nat.lt_succ_self _, hcall⟩
      · rcases ih h with ⟨hlt, hcall⟩
        exact ⟨Nat.lt_succ_of_lt hlt, hcall⟩

/-- A native call whose protected call was interrupted reports the error to its continuation. -/
theorem unroll_reports {k : Continuation} (host : Host) (hlive : w.liveThread t = true)
    (hpending : Pending (w.thread t) k s) (hs : s.isError = true)
    (hcloses : Closes E t (w.thread t).frame.protectedSlot s true
      (w.setThread t ((w.thread t).allowing (w.thread t).frame.hooksAllowed)) v) (m : Nat) :
    exists w', unroll host t (m + 1) E w = (do
        let n ← host.continue_ k t s (w.thread t).frame.context
        finishCall host t n
        unroll host t m : M Unit) E w' ∧
      Reports t (w.thread t).frame.protectedSlot ((w.thread t).errorObject s) v w' := by
  rcases finishProtected_failed hcloses.live hpending hs hcloses.returns with
    ⟨th, hplaced, hfinish⟩
  rcases unroll_pending host hpending hfinish m with ⟨th', halike, hunroll⟩
  rw [World.thread_setThread hcloses.live] at halike
  rw [World.setThread_setThread] at hunroll
  have hobject : (v.thread t).errorObject s = (w.thread t).errorObject s := by
    rw [hcloses.object_eq, World.thread_setThread hlive]
    rfl
  have hreports := reports_setThread hcloses.live (hplaced.trans halike)
  rw [hobject] at hreports
  exact ⟨_, hunroll, hreports⟩

/-- The world in which a resumption goes on with the `i`-th call of its thread, which is to recover
from an error: the section began in the world `v`, and the error left it in `u`. -/
def reentered (t : ThreadId) (i : Nat) (s : Status) (v u : World) : World :=
  u.setThread t (((u.thread t).nestedAs (v.thread t)).backTo i s).guarding

theorem reentered_eq (hlive : u.liveThread t = true) (i : Nat) (s : Status) (v : World) :
    (recovered t i s (backFrom t v u)).setThread t
      ((recovered t i s (backFrom t v u)).thread t).guarding = reentered t i s v u := by
  have hback : recovered t i s (backFrom t v u) = u.setThread t
      (((u.thread t).nestedAs (v.thread t)).backTo i s) := by
    unfold recovered backFrom
    rw [World.thread_setThread hlive, World.setThread_setThread]
    rfl
  rw [hback, World.thread_setThread hlive, World.setThread_setThread]
  rfl

theorem thread_reentered (hlive : u.liveThread t = true) (i : Nat) (s : Status) (v : World) :
    (reentered t i s v u).thread t =
      (((u.thread t).nestedAs (v.thread t)).backTo i s).guarding :=
  World.thread_setThread hlive _

theorem frame_reentered (hlive : u.liveThread t = true) {i : Nat}
    (hi : i < (u.thread t).frames.size) (s : Status) (v : World) :
    ((reentered t i s v u).thread t).frame = { (u.thread t).callAt i with recovering := s } := by
  rw [thread_reentered hlive]
  exact Thread.frame_backTo ((u.thread t).nestedAs (v.thread t)) hi s

theorem errorObject_reentered (hlive : u.liveThread t = true) (i : Nat) (s : Status) (v : World) :
    ((reentered t i s v u).thread t).errorObject s = (u.thread t).errorObject s := by
  have hstack : (((u.thread t).nestedAs (v.thread t)).backTo i s).guarding.stack =
      (u.thread t).stack := rfl
  have htop : (((u.thread t).nestedAs (v.thread t)).backTo i s).guarding.top =
      (u.thread t).top := rfl
  rw [thread_reentered hlive]
  exact Thread.errorObject_congr hstack htop s

theorem pending_reentered (hlive : u.liveThread t = true) {i : Nat} {k : Continuation}
    (hfind : findRecovery (u.thread t).frames (u.thread t).frames.size = some i) (hi : 0 < i)
    (hnative : ((u.thread t).callAt i).isScript = false)
    (hk : ((u.thread t).callAt i).continuation = some k) (s : Status) (v : World) :
    Pending ((reentered t i s v u).thread t) k s := by
  rcases findRecovery_some hfind with ⟨hlt, hcall⟩
  refine ⟨?_, ?_, ?_, ?_, ?_⟩
  · rw [thread_reentered hlive]
    have hsize := Thread.size_backTo ((u.thread t).nestedAs (v.thread t)) hlt s
    exact Nat.le_trans (Nat.succ_le_succ hi) (Nat.le_of_eq hsize.symm)
  all_goals rw [frame_reentered hlive hlt]
  · exact hnative
  · exact hcall
  · exact hk

/-- A resumption reports the error to the continuation of the innermost call that can recover from
it. -/
theorem ComesTo.reports_pending {w₁ v' : World} {i : Nat} {k : Continuation}
    (h : ComesTo host t caller nargs E w₁ ⟨fuel + 1, v, .error (.error t s) u⟩)
    (hlive : u.liveThread t = true) (hs : s.isError = true)
    (hfind : findRecovery (u.thread t).frames (u.thread t).frames.size = some i) (hi : 0 < i)
    (hnative : ((u.thread t).callAt i).isScript = false)
    (hk : ((u.thread t).callAt i).continuation = some k)
    (hcloses : Closes E t ((u.thread t).callAt i).protectedSlot s true
      ((reentered t i s v u).setThread t (((reentered t i s v u).thread t).allowing
        ((u.thread t).callAt i).hooksAllowed)) v') :
    exists w', ComesTo host t caller nargs E w₁ ⟨fuel, recovered t i s (backFrom t v u), (do
        let n ← host.continue_ k t s ((u.thread t).callAt i).context
        finishCall host t n
        unroll host t (budget - 1) : M Unit) E w'⟩ ∧
      Reports t ((u.thread t).callAt i).protectedSlot ((u.thread t).errorObject s) v' w' := by
  have hframe := frame_reentered hlive (findRecovery_some hfind).1 s v
  have hclosed : Closes E t ((reentered t i s v u).thread t).frame.protectedSlot s true
      ((reentered t i s v u).setThread t (((reentered t i s v u).thread t).allowing
        ((reentered t i s v u).thread t).frame.hooksAllowed)) v' := by
    rw [hframe]
    exact hcloses
  have hlive' : (reentered t i s v u).liveThread t = true :=
    (World.liveThread_setThread u t t _).trans hlive
  have hreports := unroll_reports host hlive'
    (pending_reentered hlive hfind hi hnative hk s v) hs hclosed (budget - 1)
  -- The section begins with the whole budget, of which the recovered call takes one turn.
  have hbudget : budget - 1 + 1 = budget := rfl
  rw [hbudget, errorObject_reentered hlive, hframe] at hreports
  rcases hreports with ⟨w', hunroll, hreports⟩
  have hcomes := h.recovers hlive hs hfind
  unfold Stage.ofBody at hcomes
  rw [reentered_eq hlive, hunroll] at hcomes
  exact ⟨w', hcomes, hreports⟩

/-- What becomes of an error with status `s` that has left some code of the thread with the outcome
`r`, in the world `u`: nothing on its way catches it, and the innermost section that protects the thread
reports it. -/
structure Reported (host : Host) (t : ThreadId) (s : Status) (u : World) (r : Outcome α) :
    Prop where
  passes : forall {β : Type} {L : Outcome α → Outcome β}, Around t L →
    exists u', SameThread t u u' ∧ L r = .error (.error t s) u'
  called : forall {L : Outcome α → Outcome Unit} {run : M Unit} {E : Engine} {w : World}
    {oldTop handler : Nat}, Around t L → w.liveThread t = true →
    run E (w.setThread t ((w.thread t).withHandler handler).guarding) = L r →
    exists u', SameThread t u u' ∧ forall v, Closes E t oldTop s false
        ((unwound t w u').setThread t ((unwound t w u').thread t).guarding) v →
      exists w', runProtected t oldTop handler run E w = .ok s w' ∧
        Reports t oldTop ((u.thread t).errorObject s) v w'
  resumed : forall {L : Outcome α → Outcome Unit} {caller : Option ThreadId} {nargs fuel : Nat}
    {E : Engine} {w v : World}, Around t L →
    ComesTo host t caller nargs E w ⟨fuel + 1, v, L r⟩ →
    findRecovery (u.thread t).frames (u.thread t).frames.size = none →
    exists n u' w', SameThread t u u' ∧ resumeThread host t caller nargs E w = .ok (s, n) w' ∧
      Reports t (u.thread t).top ((u.thread t).errorObject s) u' w'
  continued : forall {L : Outcome α → Outcome Unit} {caller : Option ThreadId} {nargs fuel i : Nat}
    {k : Continuation} {E : Engine} {w v : World}, Around t L →
    ComesTo host t caller nargs E w ⟨fuel + 1, v, L r⟩ →
    findRecovery (u.thread t).frames (u.thread t).frames.size = some i → 0 < i →
    ((u.thread t).callAt i).isScript = false → ((u.thread t).callAt i).continuation = some k →
    exists u', SameThread t u u' ∧ forall v', Closes E t ((u.thread t).callAt i).protectedSlot s true
        ((reentered t i s v u').setThread t (((reentered t i s v u').thread t).allowing
          ((u.thread t).callAt i).hooksAllowed)) v' →
      exists w', ComesTo host t caller nargs E w ⟨fuel, recovered t i s (backFrom t v u'), (do
          let n ← host.continue_ k t s ((u.thread t).callAt i).context
          finishCall host t n
          unroll host t (budget - 1) : M Unit) E w'⟩ ∧
        Reports t ((u.thread t).callAt i).protectedSlot ((u.thread t).errorObject s) v' w'

theorem reported_error (host : Host) (hlive : u.liveThread t = true) (hs : s.isError = true) :
    Reported (α := α) host t s u (.error (.error t s) u) := by
  constructor
  · intro β L hL
    exact hL.passes s u
  · intro L run E w oldTop handler hL hlive₀ hrun
    rcases hL.passes s u with ⟨u', hkeeps, hpass⟩
    refine ⟨u', hkeeps, fun v hcloses => ?_⟩
    rw [← hkeeps.thread_eq]
    exact runProtected_reports hlive₀ (hkeeps.live_eq.trans hlive) (hrun.trans hpass) hcloses
  · intro L caller nargs fuel E w v hL hcomes hnone
    rcases hL.passes s u with ⟨u', hkeeps, hpass⟩
    rw [hpass] at hcomes
    rw [← hkeeps.thread_eq] at hnone ⊢
    rcases hcomes.reports (hkeeps.live_eq.trans hlive) hs hnone with ⟨n, w', hresume, hreports⟩
    exact ⟨n, u', w', hkeeps, hresume, hreports⟩
  · intro L caller nargs fuel i k E w v hL hcomes hfind hi hnative hk
    rcases hL.passes s u with ⟨u', hkeeps, hpass⟩
    rw [hpass] at hcomes
    refine ⟨u', hkeeps, fun v' hcloses => ?_⟩
    rw [← hkeeps.thread_eq] at hfind hnative hk hcloses ⊢
    exact hcomes.reports_pending (hkeeps.live_eq.trans hlive) hs hfind hi hnative hk hcloses

end Reports

end Machine

end LuaHost
