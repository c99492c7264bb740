import LuaHost.Proofs.Machine.Turns

/-!
# Behind a protected call

A protected call goes on behind its callee in one of two ways.  Where the call
could not be interrupted, it goes on where it was.  Where it was interrupted,
the machine goes on with the native call that made it, in its continuation.
-/

namespace LuaHost

namespace Thread

/-- The object that stands for an error. -/
def errorObject (s : Status) (th : Thread) : Value :=
  match s with
  | .errMem => .str Machine.memoryText
  | .errErr => .ofText "error in error handling"
  | .ok => .nil
  | _ => th.slot (th.top - 1)

/-- The thread with the object that stands for an error in a slot, and nothing above it. -/
def placing (s : Status) (i : Nat) (th : Thread) : Thread :=
  (th.setSlot i (th.errorObject s)).withTop (i + 1)

/-- The thread in which hooks are allowed or not. -/
def allowing (th : Thread) (allowed : Bool) : Thread := { th with hook := { th.hook with allowed } }

/-- The thread with more or less room. -/
def withRoom (th : Thread) (room : Nat) : Thread := { th with room }

/-- The thread with another message handler. -/
def withHandler (th : Thread) (handler : Nat) : Thread := { th with handler }

/-- The thread behind a section under protection that was begun in the thread `th`. -/
def unshielded (th' th : Thread) : Thread := (th'.nestedAs th).withHandler th.handler

/-- The thread whose running call recovers from nothing. -/
def settled (th : Thread) : Thread := th.modifyFrame fun f => { f with recovering := .ok }

/-- The thread whose running call makes no protected call any more. -/
def unprotected (th : Thread) : Thread := th.modifyFrame fun f => { f with protectedCall := false }

/-- The thread behind an interruptible protected call of its running call. -/
def answered (th : Thread) : Thread := th.unprotected.withHandler th.frame.oldHandler

/-- The thread whose running call reaches up to the top, if it wanted all results. -/
def reaching (wanted : Int) (th : Thread) : Thread :=
  if wanted < 0 then
    th.modifyFrame fun f => if f.top < th.top then { f with top := th.top } else f
  else th

theorem alike_modifyFrame (th : Thread) {f : Frame → Frame} (hf : forall x, (f x).func = x.func) :
    th.Alike (th.modifyFrame f) :=
  ⟨rfl, rfl, base_modifyFrame th hf⟩

theorem alike_withHandler (th : Thread) (handler : Nat) : th.Alike (th.withHandler handler) :=
  ⟨rfl, rfl, rfl⟩

theorem alike_withRoom (th : Thread) (room : Nat) : th.Alike (th.withRoom room) := ⟨rfl, rfl, rfl⟩

theorem alike_settled (th : Thread) : th.Alike th.settled := th.alike_modifyFrame fun _ => rfl

theorem alike_unprotected (th : Thread) : th.Alike th.unprotected :=
  th.alike_modifyFrame fun _ => rfl

theorem alike_answered (th : Thread) : th.Alike th.answered :=
  th.alike_unprotected.trans (alike_withHandler _ _)

theorem alike_reaching (wanted : Int) (th : Thread) : th.Alike (th.reaching wanted) := by
  unfold reaching
  split
  · refine ⟨rfl, rfl, base_modifyFrame th fun x => ?_⟩
    split <;> rfl
  · exact Alike.refl th

theorem Alike.values_eq {th th' : Thread} (h : th.Alike th') : th'.values = th.values :=
  (h.sameBelow th.top).values_eq h.top_eq

end Thread

namespace Machine

section Unwinding

variable {host : Host} {w w' u : World} {t : ThreadId} {E : Engine}

theorem returns_top (w : World) (t : ThreadId) : Returns (top t) w (w.thread t).top w :=
  fun _ => rfl

theorem returns_slot (w : World) (t : ThreadId) (i : Nat) :
    Returns (slot t i) w ((w.thread t).slot i) w :=
  fun _ => rfl

theorem returns_placeError (w : World) (t : ThreadId) (s : Status) (i : Nat)
    (hlive : w.liveThread t = true) :
    Returns (placeError t s i) w () (w.setThread t ((w.thread t).placing s i)) := by
  have hput : forall v, Returns (do
      setSlot t i v
      setTop t (i + 1)) w () (w.setThread t (((w.thread t).setSlot i v).withTop (i + 1))) := by
    intro v
    have hset := returns_modifyThread (w.setThread t ((w.thread t).setSlot i v)) t
      (·.withTop (i + 1))
    rw [World.thread_setThread hlive, World.setThread_setThread] at hset
    exact Returns.bind (returns_modifyThread w t _) hset
  unfold placeError
  cases s with
  | errMem => exact Returns.bind (Returns.pure _ w) (hput _)
  | errErr => exact Returns.bind (Returns.pure _ w) (hput _)
  | ok => exact Returns.bind (Returns.pure _ w) (hput _)
  | _ => exact Returns.bind (returns_top w t) (Returns.bind (returns_slot w t _) (hput _))

theorem room_of_ite {c : Prop} [Decidable c] (th : Thread) (n : Nat) :
    exists room, (if c then { th with room := n } else th) = th.withRoom room := by
  split
  · exact ⟨n, rfl⟩
  · exact ⟨th.room, rfl⟩

theorem returns_shrinkStack (w : World) (t : ThreadId) :
    exists room, Returns (shrinkStack t) w () (w.setThread t ((w.thread t).withRoom room)) := by
  have hrun : exists f, shrinkStack t = modifyThread t f ∧
      exists room, f (w.thread t) = (w.thread t).withRoom room :=
    ⟨_, rfl, room_of_ite _ _⟩
  rcases hrun with ⟨f, hf, room, hroom⟩
  refine ⟨room, ?_⟩
  rw [hf, ← hroom]
  exact returns_modifyThread w t f

theorem returns_adjustResults (w : World) (t : ThreadId) (wanted : Int) :
    Returns (adjustResults t wanted) w () (w.setThread t ((w.thread t).reaching wanted)) := by
  unfold adjustResults Thread.reaching
  split
  · exact returns_modifyThread w t _
  · rw [World.setThread_thread]
    exact Returns.pure () w

/-!
# Sections that cannot be interrupted
-/

theorem runProtected_ok {body : M Unit} {handler : Nat} (oldTop : Nat) (hlive : w.liveThread t = true)
    (hlive' : w'.liveThread t = true)
    (h : body E (w.setThread t ((w.thread t).withHandler handler).guarding) = .ok () w') :
    runProtected t oldTop handler body E w =
      .ok .ok (w'.setThread t ((w'.thread t).unshielded (w.thread t))) := by
  have hshield := returns_modifyThread w t (·.withHandler handler)
  have hattempt : attempt t body E (w.setThread t ((w.thread t).withHandler handler)) = _ :=
    attempt_of_ok (by
      rw [World.thread_setThread hlive, World.setThread_setThread]
      exact h)
  rw [World.thread_setThread hlive] at hattempt
  have hrestore := returns_modifyThread
    (w'.setThread t ((w'.thread t).nestedAs ((w.thread t).withHandler handler))) t
    (·.withHandler (w.thread t).handler)
  rw [World.thread_setThread hlive', World.setThread_setThread] at hrestore
  refine ok_andThen (a := .ok ()) ?_ rfl
  refine (returns_thread w t).andThen ?_
  refine hshield.andThen ?_
  refine ok_andThen hattempt ?_
  refine (Returns.pure (Except.ok ()) _).andThen ?_
  exact hrestore.andThen rfl

theorem runProtected_of_ok {body : M Unit} {handler : Nat} (oldTop : Nat) (hlive : w.liveThread t = true)
    (hlive' : w'.liveThread t = true)
    (h : body E (w.setThread t ((w.thread t).withHandler handler).guarding) = .ok () w') :
    exists th, (w'.thread t).Alike th ∧
      runProtected t oldTop handler body E w = .ok .ok (w'.setThread t th) :=
  ⟨(w'.thread t).unshielded (w.thread t), ⟨rfl, rfl, rfl⟩, runProtected_ok oldTop hlive hlive' h⟩

/-- After an error the variables of the section are closed, and the error object takes the place of
the function. -/
theorem runProtected_of_error {body : M Unit} {oldTop handler : Nat} {s₀ s : Status}
    (hlive : w.liveThread t = true) (hlive' : u.liveThread t = true)
    (h : body E (w.setThread t ((w.thread t).withHandler handler).guarding) =
      .error (.error t s₀) w')
    (hclose : (do
      unwindTo t (w.thread t).frames.size (w.thread t).hook.allowed
      closeProtected t oldTop s₀ : M Status) E (backFrom t w w') = .ok s u) :
    exists th, ((u.thread t).placing s oldTop).Alike th ∧
      runProtected t oldTop handler body E w = .ok s (u.setThread t th) := by
  have hshield := returns_modifyThread w t (·.withHandler handler)
  have hattempt : attempt t body E (w.setThread t ((w.thread t).withHandler handler)) = _ :=
    attempt_of_error (by
      rw [World.thread_setThread hlive, World.setThread_setThread]
      exact h)
  rw [World.thread_setThread hlive] at hattempt
  rcases returns_shrinkStack (u.setThread t ((u.thread t).placing s oldTop)) t with ⟨room, hshrink⟩
  rw [World.thread_setThread hlive', World.setThread_setThread] at hshrink
  have hrestore := returns_modifyThread
    (u.setThread t (((u.thread t).placing s oldTop).withRoom room)) t
    (·.withHandler (w.thread t).handler)
  rw [World.thread_setThread hlive', World.setThread_setThread] at hrestore
  rcases ok_bind hclose with ⟨_, w₂, hunwind, hclosed⟩
  refine ⟨(((u.thread t).placing s oldTop).withRoom room).withHandler (w.thread t).handler,
    ⟨rfl, rfl, rfl⟩, ok_andThen (a := .error s) ?_ rfl⟩
  refine (returns_thread w t).andThen ?_
  refine hshield.andThen ?_
  refine ok_andThen hattempt ?_
  refine ok_andThen hunwind ?_
  refine ok_andThen hclosed ?_
  refine (returns_placeError u t s oldTop hlive').andThen ?_
  refine hshrink.andThen ?_
  refine (Returns.pure (Except.error s) _).andThen ?_
  exact hrestore.andThen rfl

/-!
# Sections that were interrupted
-/

/-- A native call that made a protected call, which was interrupted. -/
structure Pending (th : Thread) (k : Continuation) (s : Status) : Prop where
  calls : 2 ≤ th.frames.size
  native : th.frame.isScript = false
  protectedCall : th.frame.protectedCall = true
  continuation : th.frame.continuation = some k
  recovering : th.frame.recovering = s

/-- The protected call ends, and the continuation goes on. -/
theorem unroll_pending (host : Host) {k : Continuation} {s s' : Status} (hpending : Pending (w.thread t) k s)
    (hfinish : finishProtected t E w = .ok s' u) (fuel : Nat) :
    exists th, (u.thread t).Alike th ∧ unroll host t (fuel + 1) E w = (do
      let n ← host.continue_ k t s' (w.thread t).frame.context
      finishCall host t n
      unroll host t fuel : M Unit) E (u.setThread t th) := by
  refine ⟨(u.thread t).reaching multipleResults, Thread.alike_reaching _ _, ?_⟩
  have hnative : finishNative host t E w = (do
      let n ← host.continue_ k t s' (w.thread t).frame.context
      finishCall host t n : M Unit) E
      (u.setThread t ((u.thread t).reaching multipleResults)) := by
    refine (returns_frame w t).andThen ?_
    refine (run_congr (if_pos hpending.protectedCall)).trans ?_
    refine ok_andThen hfinish ?_
    refine (returns_adjustResults u t multipleResults).andThen ?_
    rw [hpending.continuation]
  rw [unroll]
  refine (returns_thread w t).andThen ?_
  refine (run_congr (if_neg (Nat.not_le_of_lt hpending.calls))).trans ?_
  refine (run_congr (if_neg (by rw [hpending.native]; exact Bool.false_ne_true))).trans ?_
  refine (bind_congr_of_eq hnative _).trans ?_
  simp only [bind_assoc]

/-- When the callee has returned, the continuation is told of the interruption. -/
theorem finishProtected_returned {k : Continuation} (hpending : Pending (w.thread t) k .ok) :
    Returns (finishProtected t) w .yield (w.setThread t (w.thread t).answered) := by
  refine Returns.bind (returns_frame w t) ?_
  rw [hpending.recovering]
  refine Returns.bind (Returns.pure Status.yield w) ?_
  exact Returns.bind (returns_modifyThread w t _) (Returns.pure _ _)

/-- When the callee has failed, its variables are closed, and the error object takes the place of
the function. -/
theorem finishProtected_failed {k : Continuation} {s : Status} (hlive : u.liveThread t = true)
    (hpending : Pending (w.thread t) k s) (hs : s.isError = true)
    (hclose : closeFrom t (w.thread t).frame.protectedSlot (some s) true E
      (w.setThread t ((w.thread t).allowing (w.thread t).frame.hooksAllowed)) = .ok () u) :
    exists th, ((u.thread t).placing s (w.thread t).frame.protectedSlot).Alike th ∧
      finishProtected t E w = .ok s (u.setThread t th) := by
  rcases returns_shrinkStack (u.setThread t
    ((u.thread t).placing s (w.thread t).frame.protectedSlot)) t with ⟨room, hshrink⟩
  rw [World.thread_setThread hlive, World.setThread_setThread] at hshrink
  have hsettle := returns_modifyThread (u.setThread t
    (((u.thread t).placing s (w.thread t).frame.protectedSlot).withRoom room)) t Thread.settled
  rw [World.thread_setThread hlive, World.setThread_setThread] at hsettle
  have hend := returns_modifyThread (u.setThread t
    (((u.thread t).placing s (w.thread t).frame.protectedSlot).withRoom room).settled) t
    (·.unprotected.withHandler (w.thread t).frame.oldHandler)
  rw [World.thread_setThread hlive, World.setThread_setThread] at hend
  refine ⟨(((u.thread t).placing s (w.thread t).frame.protectedSlot).withRoom
    room).settled.unprotected.withHandler (w.thread t).frame.oldHandler, ?_, ?_⟩
  · refine (Thread.alike_withRoom _ room).trans ?_
    refine (Thread.alike_settled _).trans ?_
    exact (Thread.alike_unprotected _).trans (Thread.alike_withHandler _ _)
  have hallow := returns_modifyThread w t (·.allowing (w.thread t).frame.hooksAllowed)
  refine (returns_frame w t).andThen ?_
  rw [hpending.recovering]
  have hplace := returns_placeError u t s (w.thread t).frame.protectedSlot hlive
  split
  · cases hs
  · refine hallow.andThen ?_
    refine ok_andThen hclose ?_
    refine hplace.andThen ?_
    refine hshrink.andThen ?_
    refine hsettle.andThen ?_
    refine (Returns.pure s _).andThen ?_
    exact hend.andThen rfl

end Unwinding

end Machine

end LuaHost
