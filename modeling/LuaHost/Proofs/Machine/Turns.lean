import LuaHost.Proofs.Machine.Resuming

/-!
# Turns of a coroutine

A resumption runs a coroutine until it ends, fails or yields.  An error that a
protected call of the coroutine recovers from begins a new section within the
turn, and a yield ends the turn; the next resumption begins another one.
-/

namespace LuaHost

namespace Machine

/-- A section of a coroutine's work: how many errors the turn may still recover
from, the world in which the section began, and what came of it. -/
structure Stage where
  fuel : Nat
  outside : World
  result : Outcome Unit

/-- The stage that a body makes in a section that begins in the world `v`. -/
def Stage.ofBody (t : ThreadId) (body : M Unit) (E : Engine) (fuel : Nat) (v : World) : Stage :=
  ⟨fuel, v, body E (v.setThread t (v.thread t).guarding)⟩

/-- The world behind a section that began in the world `v`. -/
def backFrom (t : ThreadId) (v w : World) : World :=
  w.setThread t ((w.thread t).nestedAs (v.thread t))

/-- The world in which the `i`-th call goes on behind an error. -/
def recovered (t : ThreadId) (i : Nat) (s : Status) (w : World) : World :=
  w.setThread t (Thread.modifyFrame { w.thread t with frames := (w.thread t).frames.take (i + 1) }
    fun f => { f with recovering := s })

section Turns

variable {host : Host} {t : ThreadId} {caller : Option ThreadId} {nargs : Nat} {E : Engine}

/-- The resumption in the world `w₁` comes to the stage. -/
def ComesTo (host : Host) (t : ThreadId) (caller : Option ThreadId) (nargs : Nat) (E : Engine)
    (w₁ : World) (σ : Stage) : Prop :=
  exists body, σ.result = body E (σ.outside.setThread t (σ.outside.thread t).guarding) ∧
    resumeThread host t caller nargs E w₁ = (do
      let status ← untilYield t body
      settle host t σ.fuel status : M (Status × Nat)) E σ.outside

/-- The first stage of a turn. -/
def firstStage (host : Host) (t : ThreadId) (caller : Option ThreadId) (nargs : Nat) (E : Engine)
    (w : World) : Stage :=
  .ofBody t (continueThread host t nargs) E budget
    (w.setThread t (begun (w.thread t) (callerNesting caller w)))

theorem comesTo_first {w : World} (hlive : w.liveThread t = true)
    (hready : Resumable (w.thread t) nargs) (hnest : callerNesting caller w < maxNesting) :
    ComesTo host t caller nargs E w (firstStage host t caller nargs E w) :=
  ⟨continueThread host t nargs, rfl, resumeThread_eq hlive hready hnest⟩

theorem settle_of_quiet {s : Status} (hs : s.isError = false) {fuel : Nat} (hfuel : 0 < fuel)
    (w : World) :
    settle host t fuel s E w =
      .ok (s, if s == .yield then (w.thread t).frame.yieldCount else (w.thread t).height) w := by
  have hrecover : Returns (recover host t s fuel) w s w := by
    rcases Nat.exists_eq_succ_of_ne_zero (Nat.ne_of_gt hfuel) with ⟨n, rfl⟩
    rw [recover, if_pos (by rw [hs]; rfl)]
    exact Returns.pure s w
  refine hrecover.andThen ?_
  rw [if_neg (by rw [hs]; exact Bool.false_ne_true)]
  exact (returns_thread w t).andThen rfl

theorem ComesTo.of_ok {w₁ v w : World} {fuel : Nat}
    (h : ComesTo host t caller nargs E w₁ ⟨fuel, v, .ok () w⟩) (hlive : w.liveThread t = true)
    (hfuel : 0 < fuel) :
    resumeThread host t caller nargs E w₁ = .ok (.ok, (w.thread t).height) (backFrom t v w) := by
  rcases h with ⟨body, hbody, hresume⟩
  have hheight : ((backFrom t v w).thread t).height = (w.thread t).height := by
    unfold backFrom
    rw [World.thread_setThread hlive]
    rfl
  rw [← hheight]
  exact hresume.trans (ok_andThen (untilYield_of_ok hbody.symm) (settle_of_quiet rfl hfuel _))

theorem ComesTo.of_yield {w₁ v w : World} {fuel : Nat}
    (h : ComesTo host t caller nargs E w₁ ⟨fuel, v, .error (.yield t) w⟩)
    (hlive : w.liveThread t = true) (hfuel : 0 < fuel) :
    resumeThread host t caller nargs E w₁ =
      .ok (.yield, (w.thread t).frame.yieldCount) (backFrom t v w) := by
  rcases h with ⟨body, hbody, hresume⟩
  have hcount : ((backFrom t v w).thread t).frame = (w.thread t).frame := by
    unfold backFrom
    rw [World.thread_setThread hlive]
    rfl
  rw [← hcount]
  exact hresume.trans
    (ok_andThen (untilYield_of_yield hlive hbody.symm) (settle_of_quiet rfl hfuel _))

/-- After an error the innermost call that can recover from it goes on. -/
theorem ComesTo.recovers {w₁ v w : World} {fuel i : Nat} {s : Status}
    (h : ComesTo host t caller nargs E w₁ ⟨fuel + 1, v, .error (.error t s) w⟩)
    (hlive : w.liveThread t = true) (hs : s.isError = true)
    (hfind : findRecovery (w.thread t).frames (w.thread t).frames.size = some i) :
    ComesTo host t caller nargs E w₁
      (.ofBody t (unroll host t budget) E fuel (recovered t i s (backFrom t v w))) := by
  rcases h with ⟨body, hbody, hresume⟩
  refine ⟨unroll host t budget, rfl,
    hresume.trans (ok_andThen (untilYield_of_error hbody.symm) ?_)⟩
  have hthread : (backFrom t v w).thread t = (w.thread t).nestedAs (v.thread t) :=
    World.thread_setThread hlive _
  have hlive' : (backFrom t v w).liveThread t = true :=
    (World.liveThread_setThread w t t _).trans hlive
  have hcut := returns_modifyThread (backFrom t v w) t fun th =>
    { th with frames := th.frames.take (i + 1) }
  have hmark := returns_modifyThread ((backFrom t v w).setThread t
    { (backFrom t v w).thread t with frames := ((backFrom t v w).thread t).frames.take (i + 1) }) t
    (·.modifyFrame fun f => { f with recovering := s })
  rw [World.thread_setThread hlive', World.setThread_setThread] at hmark
  have hrecover : recover host t s (fuel + 1) E (backFrom t v w) = (do
      let status ← untilYield t (unroll host t budget)
      recover host t status fuel : M Status) E (recovered t i s (backFrom t v w)) := by
    rw [recover, if_neg (by rw [hs]; exact Bool.noConfusion)]
    refine (returns_thread (backFrom t v w) t).andThen ?_
    have hsame : findRecovery ((backFrom t v w).thread t).frames
        ((backFrom t v w).thread t).frames.size = some i := by
      rw [hthread]
      exact hfind
    rw [hsame]
    refine hcut.andThen ?_
    exact hmark.andThen rfl
  refine (bind_congr_of_eq hrecover _).trans ?_
  rw [bind_assoc]
  rfl

/-!
# Turn after turn
-/

/-- A coroutine comes from one stage to a later one: it recovers from errors, and after each yield
the next of `prepares` makes its stack ready for the resumption that follows.  The turns run under
the engine `E`, and the resumer under `E'`. -/
inductive Course (host : Host) (t : ThreadId) (caller : Option ThreadId) (E E' : Engine) :
    List (M Nat) → Stage → Stage → Prop where
  | done (σ : Stage) : Course host t caller E E' [] σ σ
  | recovers {fuel i : Nat} {v w : World} {s : Status} {prepares : List (M Nat)} {σ : Stage} :
      w.liveThread t = true → s.isError = true →
      findRecovery (w.thread t).frames (w.thread t).frames.size = some i →
      Course host t caller E E' prepares
        (.ofBody t (unroll host t budget) E fuel (recovered t i s (backFrom t v w))) σ →
      Course host t caller E E' prepares ⟨fuel + 1, v, .error (.error t s) w⟩ σ
  | yields {fuel nargs : Nat} {v w w₁ : World} {prepare : M Nat} {prepares : List (M Nat)}
      {σ : Stage} :
      w.liveThread t = true → prepare E' (backFrom t v w) = .ok nargs w₁ →
      w₁.liveThread t = true → (w₁.thread t).status = .yield →
      callerNesting caller w₁ < maxNesting →
      Course host t caller E E' prepares (firstStage host t caller nargs E w₁) σ →
      Course host t caller E E' (prepare :: prepares) ⟨fuel + 1, v, .error (.yield t) w⟩ σ

/-- Resumes a coroutine with `nargs` values and makes its stack ready for the next resumption, again
and again: what the resumptions answered, and the number of values for the one that comes next. -/
def resumeEach (t : ThreadId) (caller : Option ThreadId) :
    Nat → List (M Nat) → M (List (Status × Nat) × Nat)
  | nargs, [] => return ([], nargs)
  | nargs, prepare :: prepares => do
    let answer ← (← read).resume t caller nargs
    let nargs ← prepare
    let (answers, nargs) ← resumeEach t caller nargs prepares
    return (answer :: answers, nargs)

/-- The resumer of a coroutine sees a yield at each turn but the last one. -/
theorem Course.drive {d : Nat} {prepares : List (M Nat)} {σ σ' : Stage}
    (h : Course host t caller (engine host d) (engine host (d + 1)) prepares σ σ') :
    forall (nargs : Nat) (w : World), ComesTo host t caller nargs (engine host d) w σ →
      exists answers nargs' w', resumeEach t caller nargs prepares (engine host (d + 1)) w =
          .ok (answers, nargs') w' ∧
        answers.length = prepares.length ∧ (forall a, a ∈ answers → a.1 = .yield) ∧
        ComesTo host t caller nargs' (engine host d) w' σ' := by
  induction h with
  | done σ =>
      intro nargs w hcomes
      exact ⟨[], nargs, w, rfl, rfl, nofun, hcomes⟩
  | recovers hlive hs hfind _ ih =>
      intro nargs w hcomes
      exact ih nargs w (hcomes.recovers hlive hs hfind)
  | @yields fuel nargs' v w w₁ prepare prepares σ hlive hprepare hlive' hstatus hnest _ ih =>
      intro nargs w₀ hcomes
      have hresume := hcomes.of_yield hlive (Nat.succ_pos fuel)
      rcases ih nargs' w₁ (comesTo_first hlive' (.suspended hstatus) hnest) with
        ⟨answers, nargs'', w', hrest, hlength, hyields, hlast⟩
      refine ⟨(.yield, (w.thread t).frame.yieldCount) :: answers, nargs'', w', ?_,
        congrArg (· + 1) hlength, ?_, hlast⟩
      · rw [resumeEach]
        refine ok_andThen (x := read) (a := engine host (d + 1)) rfl ?_
        refine ok_andThen (a := (Status.yield, (w.thread t).frame.yieldCount)) hresume ?_
        exact ok_andThen hprepare (ok_andThen hrest rfl)
      · intro a ha
        rcases List.mem_cons.mp ha with rfl | ha
        · rfl
        · exact hyields a ha

end Turns

end Machine

end LuaHost
