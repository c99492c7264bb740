import LuaHost.Proofs.CommandLine.Tracing
import LuaHost.Proofs.Interface.Containing
import LuaHost.Proofs.Interface.Working

/-!
# Chunks that are loaded and run

Loading a chunk pushes its function, or a message about what is wrong with it.
What a chunk is run for is taken from the stack again: its results, or the
message of the error that ended it.
-/

namespace LuaHost

/-- The world with other upvalues. -/
def World.withUpvalues (w : World) (s : Store Upvalue) : World :=
  { w with heap := { w.heap with upvalues := s } }

namespace Machine

/-!
# Errors that are raised
-/

section Raising

variable {α : Type} {t : ThreadId} {n : Nat} {w w' : World} {E : Engine}

theorem abandoned_of_held (h : w.Held t n w') : w.Abandoned t n w' := by
  have hcalls := h.holds.calls_eq
  have hwhole : (w'.thread t).frames.take (w.thread t).frames.size = (w'.thread t).frames := by
    rw [← hcalls, Array.take_eq_extract, Array.extract_size]
  have hcut : (w'.thread t).cutTo (w.thread t).frames.size true = (w'.thread t).allowing true := by
    unfold Thread.cutTo
    rw [hwhole]
    rfl
  refine ⟨h.live, Nat.le_of_eq hcalls.symm, ?_⟩
  rw [hcut]
  exact ⟨h.holds.below.base_eq, h.holds.below.slot_eq⟩

theorem throwStatus_spares (hheld : w.Held t n w') (hguards : 0 < (w.thread t).guards) {s : Status}
    (hs : s.isError = true) : Spares t n w (throwStatus (α := α) t s E w') := by
  rw [Containing.throwStatus_of_protected (by rw [hheld.holds.guards_eq]; exact hguards)]
  exact .fails hs (abandoned_of_held hheld)

/-- Without a message handler an error leaves at once. -/
theorem throwTop_unhandled (hguards : 0 < (w.thread t).guards) (hnone : (w.thread t).handler = 0) :
    throwTop (α := α) t E w = .error (.error t .errRun) w := by
  refine (returns_thread w t).andThen ?_
  refine (run_congr (if_neg (by rw [hnone]; exact Bool.false_ne_true))).trans ?_
  exact Containing.throwStatus_of_protected hguards .errRun

/-- The error object is handed to the message handler, where it stands. -/
theorem throwTop_spares (hE : E.Sparing) (hlive : w.liveThread t = true)
    (hguards : 0 < (w.thread t).guards) (hn : n + 1 ≤ (w.thread t).top) :
    Spares t n w (throwTop (α := α) t E w) := by
  by_cases hnone : (w.thread t).handler = 0
  · rw [throwTop_unhandled hguards hnone]
    exact .fails rfl (abandoned_of_held (.refl n hlive))
  · have hheld : w.Held t n (w.setThread t (Containing.handing (w.thread t))) := by
      refine World.held_setThread hlive ?_
      have hdrop : (w.thread t).Holds n ((w.thread t).drop 1) := (Thread.Holds.refl n _).withTop _
      exact (hdrop.push (Nat.le_sub_one_of_lt hn) _).push
        (Nat.le_succ_of_le (Nat.le_sub_one_of_lt hn)) _
    have hplace : (Containing.handing (w.thread t)).top - 2 = (w.thread t).top - 1 := rfl
    have hcall := (hE t ((w.thread t).top - 1) 1 false
      (w.setThread t (Containing.handing (w.thread t)))).1.mono (Nat.le_sub_one_of_lt hn)
    rw [Containing.throwTop_calls hlive hnone, hplace]
    refine Spares.since (Spares.bind hcall fun _ w₁ _ hheld₁ => ?_) hheld
    refine throwStatus_spares (.refl n hheld₁.live) ?_ rfl
    rw [(hheld.trans hheld₁).holds.guards_eq]
    exact hguards

theorem throwValue_spares (hE : E.Sparing) (hlive : w.liveThread t = true)
    (hguards : 0 < (w.thread t).guards) (hn : n ≤ (w.thread t).top) (v : Value) :
    Spares t n w (throwValue (α := α) t v E w) := by
  have hheld : w.Held t n (w.setThread t ((w.thread t).push v)) :=
    World.held_setThread hlive ((Thread.Holds.refl n _).push hn v)
  refine (returns_push w t v).spares hheld (throwTop_spares hE hheld.live ?_ ?_)
  · rw [hheld.holds.guards_eq]
    exact hguards
  · rw [World.thread_setThread hlive]
    exact Nat.succ_le_succ hn

theorem reads_withPosition (t : ThreadId) (msg : Bytes) (w : World) :
    Reads (withPosition t msg) w := by
  refine Reads.bind ⟨_, returns_frame w t⟩ fun f => ?_
  cases f.kind <;> exact Reads.pure _ w

theorem runError_spares (hE : E.Sparing) (hlive : w.liveThread t = true)
    (hguards : 0 < (w.thread t).guards) (hn : n ≤ (w.thread t).top) (msg : Bytes) :
    Spares t n w (runError (α := α) t msg E w) := by
  rcases reads_withPosition t msg w with ⟨msg', hmsg⟩
  exact hmsg.spares (.refl n hlive) (throwValue_spares hE hlive hguards hn _)

theorem runError_unhandled (hlive : w.liveThread t = true) (hguards : 0 < (w.thread t).guards)
    (hnone : (w.thread t).handler = 0) (msg : Bytes) :
    exists v, runError (α := α) t msg E w =
      .error (.error t .errRun) (w.setThread t ((w.thread t).push v)) := by
  rcases reads_withPosition t msg w with ⟨msg', hmsg⟩
  have hthread := World.thread_setThread hlive ((w.thread t).push (.str msg'))
  refine ⟨.str msg', hmsg.andThen ((returns_push w t _).andThen (throwTop_unhandled ?_ ?_))⟩
  · rw [hthread]
    exact Nat.lt_of_lt_of_eq hguards (Thread.guards_setSlot _ _ _).symm
  · rw [hthread]
    exact (Thread.handler_push _ _).trans hnone

theorem chunkError_eq (hlive : w.liveThread t = true) (hguards : 0 < (w.thread t).guards)
    (msg : Bytes) : chunkError (α := α) t msg E w =
      .error (.error t .errSyntax) (w.setThread t ((w.thread t).push (.str msg))) := by
  refine (returns_push w t _).andThen (Containing.throwStatus_of_protected ?_ _)
  rw [World.thread_setThread hlive]
  exact Nat.lt_of_lt_of_eq hguards (Thread.guards_setSlot _ _ _).symm

end Raising

/-!
# Loading
-/

section Loading

variable {t : ThreadId} {n : Nat} {w w' : World} {E : Engine}

/-- A chunk in no particular form has a compiled form, or an error is raised. -/
theorem prototypeOf_any (t : ThreadId) (chunk name : Bytes) (w : World) :
    (exists p, Returns (prototypeOf t chunk name none) w p w) ∨
      (exists msg, forall E, prototypeOf t chunk name none E w = chunkError t msg E w) ∨
        forall E, prototypeOf t chunk name none E w = runErrorText t "C stack overflow" E w := by
  unfold prototypeOf
  split
  · cases Binary.read chunk with
    | ok p => exact Or.inl ⟨p, fun _ => rfl⟩
    | error why => exact Or.inr (Or.inl ⟨_, fun _ => rfl⟩)
  · have hread := returns_thread w t
    cases hcompile : compileText chunk name (maxNesting - 1 - (w.thread t).nesting) with
    | ok p =>
        refine Or.inl ⟨p, fun E => (Returns.pure () w).andThen (hread.andThen ?_)⟩
        rw [hcompile]
        rfl
    | error fault =>
        cases fault with
        | tooDeep =>
            refine Or.inr (Or.inr fun E => (Returns.pure () w).andThen (hread.andThen ?_))
            rw [hcompile]
        | malformed line what near =>
            refine Or.inr (Or.inl ⟨(ChunkFault.malformed line what near).message name, fun E => ?_⟩)
            refine (Returns.pure () w).andThen (hread.andThen ?_)
            rw [hcompile]

theorem returns_mapM_newUpvalue (f : Nat → Upvalue) (is : List Nat) (w : World) :
    exists ups s, Returns (is.mapM fun i => newUpvalue (f i)) w ups (w.withUpvalues s) ∧
      (forall j, w.heap.upvalues.live j = true -> s.live j = true ∧ s.get j = w.heap.upvalues.get j) ∧
      List.Forall₂ (fun i u => s.get u.index = f i) is ups := by
  induction is generalizing w with
  | nil =>
      refine ⟨[], w.heap.upvalues, ?_, fun j hj => ⟨hj, rfl⟩, .nil⟩
      rw [List.mapM_nil]
      exact Returns.pure _ w
  | cons i is ih =>
      let u : UpvalueId := ⟨w.heap.upvalues.next⟩
      let s₁ := w.heap.upvalues.push (f i)
      have hnew : Returns (newUpvalue (f i)) w u (w.withUpvalues s₁) := fun _ => rfl
      have hlive : s₁.live u.index = true := Store.live_push_next _ _
      rcases ih (w.withUpvalues s₁) with ⟨ups, s₂, hrest, hkept, hups⟩
      refine ⟨u :: ups, s₂, ?_, fun j hj => ?_, .cons ?_ hups⟩
      · rw [List.mapM_cons]
        exact Returns.bind hnew (Returns.bind hrest (Returns.pure _ _))
      · have hold := hkept j (Store.live_push hj (f i))
        exact ⟨hold.1, hold.2.trans (Store.get_push_of_live hj (f i))⟩
      · exact (hkept u.index hlive).2.trans (Store.get_push_next w.heap.upvalues (f i))

/-- The function of a chunk is made and pushed, if the chunk has a compiled form.  Its first upvalue
is the table of globals. -/
theorem returns_pushChunk_made {chunk name : Bytes} {p : Prototype}
    (hp : Returns (prototypeOf t chunk name none) w p w) :
    exists s ups, Returns (pushChunk t (return chunk) name none) w ()
        (((w.withUpvalues s).withClosure (.script p ups)).setThread t
          ((w.thread t).push (.closure w.nextClosure))) ∧
      forall env, Returns globals w env w -> 0 < p.upvalues.size ->
        s.get (ups.getD 0 default).index = .closed env := by
  have henv : exists env, Returns globals w env w := ⟨_, returns_registryValue w _⟩
  rcases henv with ⟨env, henv⟩
  rcases returns_mapM_newUpvalue (fun i => .closed (if i == 0 then env else .nil))
    (List.range p.upvalues.size) w with ⟨ups, s, hups, _, hmade⟩
  have hnew := Interface.returns_newClosure (w.withUpvalues s) (.script p ups.toArray)
  have hpush := returns_push ((w.withUpvalues s).withClosure (.script p ups.toArray)) t
    (.closure w.nextClosure)
  refine ⟨s, ups.toArray, Returns.bind (Returns.pure chunk w) (Returns.bind hp (Returns.bind henv
    (Returns.bind hups (Returns.bind hnew hpush)))), fun env' henv' hpos => ?_⟩
  rcases Nat.exists_eq_succ_of_ne_zero (Nat.ne_of_gt hpos) with ⟨n, hn⟩
  rw [hn, List.range_succ_eq_map] at hmade
  cases hmade with
  | cons hfirst _ =>
      rw [← (henv.unique henv').1]
      exact hfirst

theorem returns_pushChunk {chunk name : Bytes} {p : Prototype} (hlive : w.liveThread t = true)
    (hp : Returns (prototypeOf t chunk name none) w p w) :
    exists u c, Returns (pushChunk t (return chunk) name none) w () u ∧ u.liveThread t = true ∧
      u.thread t = (w.thread t).push (.closure c) := by
  rcases returns_pushChunk_made hp with ⟨s, ups, hpush, _⟩
  have hlive' : ((w.withUpvalues s).withClosure (.script p ups)).liveThread t = true := hlive
  exact ⟨_, w.nextClosure, hpush, (World.liveThread_setThread _ t t _).trans hlive',
    World.thread_setThread hlive' _⟩

theorem pushChunk_malformed {chunk name msg : Bytes} (hlive : w.liveThread t = true)
    (hguards : 0 < (w.thread t).guards)
    (hmsg : forall E, prototypeOf t chunk name none E w = chunkError t msg E w) :
    pushChunk t (return chunk) name none E w =
      .error (.error t .errSyntax) (w.setThread t ((w.thread t).push (.str msg))) :=
  (Returns.pure chunk w).andThen
    (bind_of_error ((hmsg E).trans (chunkError_eq hlive hguards msg)) _)

theorem pushChunk_spares (hE : E.Sparing) (hlive : w.liveThread t = true)
    (hguards : 0 < (w.thread t).guards) (hn : n ≤ (w.thread t).top) (chunk name : Bytes) :
    Spares t n w (pushChunk t (return chunk) name none E w) ∧
      forall u, pushChunk t (return chunk) name none E w = .ok () u →
        exists c, u.thread t = (w.thread t).push (.closure c) := by
  rcases prototypeOf_any t chunk name w with ⟨p, hp⟩ | ⟨msg, hmsg⟩ | hdeep
  · rcases returns_pushChunk hlive hp with ⟨u, c, hrun, hlive', hthread⟩
    rw [hrun E]
    refine ⟨.returns ⟨hlive', ?_⟩, fun u' hu => ?_⟩
    · rw [hthread]
      exact (Thread.Holds.refl n _).push hn _
    · cases hu
      exact ⟨c, hthread⟩
  · have hheld : w.Held t n (w.setThread t ((w.thread t).push (.str msg))) :=
      World.held_setThread hlive ((Thread.Holds.refl n _).push hn _)
    rw [pushChunk_malformed hlive hguards hmsg]
    refine ⟨.fails rfl (abandoned_of_held hheld), fun u hu => ?_⟩
    cases hu
  · have hspares : Spares t n w (prototypeOf t chunk name none E w) := by
      rw [hdeep E]
      exact runError_spares hE hlive hguards hn _
    have hnever : forall p w', prototypeOf t chunk name none E w ≠ .ok p w' := by
      intro p w'
      rw [hdeep E]
      exact runError_ne_ok t _ E w p w'
    refine ⟨?_, fun u hu => ?_⟩
    · exact (Returns.pure chunk w).spares (.refl n hlive)
        (hspares.bind fun p w' hp _ => absurd hp (hnever p w'))
    · rcases ok_bind ((Returns.pure chunk w).ok_bind hu) with ⟨p, w', hp, _⟩
      exact absurd hp (hnever p w')

/-- Without a message handler nothing but an error of the thread comes of it, and no variable is
left to be closed. -/
theorem pushChunk_unhandled (hlive : w.liveThread t = true) (hguards : 0 < (w.thread t).guards)
    (hnone : (w.thread t).handler = 0) {chunk name : Bytes} {r : Raise} {u : World}
    (hrun : pushChunk t (return chunk) name none E w = .error r u) :
    exists s v, r = .error t s ∧ u = w.setThread t ((w.thread t).push v) := by
  rcases prototypeOf_any t chunk name w with ⟨p, hp⟩ | ⟨msg, hmsg⟩ | hdeep
  · rcases returns_pushChunk hlive hp with ⟨u', c, hpush, _⟩
    rw [hpush E] at hrun
    cases hrun
  · rw [pushChunk_malformed hlive hguards hmsg] at hrun
    cases hrun
    exact ⟨_, _, rfl, rfl⟩
  · rcases runError_unhandled (α := Prototype) (E := E) hlive hguards hnone
      "C stack overflow".toUTF8 with ⟨v, hfail⟩
    have hpush : pushChunk t (return chunk) name none E w =
        .error (.error t .errRun) (w.setThread t ((w.thread t).push v)) :=
      (Returns.pure chunk w).andThen (bind_of_error ((hdeep E).trans hfail) _)
    rw [hpush] at hrun
    cases hrun
    exact ⟨_, _, rfl, rfl⟩

end Loading

end Machine

namespace CommandLine

open Machine World
open Interface (loadBuffer toText typeName)

section Chunks

variable {t : ThreadId} {base : Nat} {us : List Value} {x : Value} {w w' : World} {E : Engine}
  {s : Status}

/-- What becomes of loading a chunk on a stack with the values `us`: above them there is its function,
or one error object.  Nothing else comes of it, unless there is a message handler, or a variable to
be closed above these values. -/
inductive Loads (t : ThreadId) (base : Nat) (us : List Value) (w : World) : Outcome Status → Prop where
  | loads {c : ClosureId} {w' : World} :
      w'.Stands t base (us ++ [.closure c]) → Loads t base us w (.ok .ok w')
  | fails {s : Status} {x : Value} {w' : World} :
      s.isError = true → w'.Stands t base (us ++ [x]) → Loads t base us w (.ok s w')
  | passes {r : Raise} {w' : World} : (forall s, r ≠ .error t s) →
      (w.thread t).handler ≠ 0 ∨ (exists i, i ∈ (w.thread t).toClose ∧ base + us.length ≤ i) →
      Loads t base us w (.error r w')

theorem Loads.congr {w₁ : World} {o : Outcome Status}
    (hhandler : (w₁.thread t).handler = (w.thread t).handler)
    (hpending : (w₁.thread t).toClose = (w.thread t).toClose) (h : Loads t base us w₁ o) :
    Loads t base us w o := by
  cases h with
  | loads hstands => exact .loads hstands
  | fails hs hstands => exact .fails hs hstands
  | passes hforeign hcause =>
      rw [hhandler, hpending] at hcause
      exact .passes hforeign hcause

theorem stands_shielded (h : w.Stands t base us) (handler : Nat) :
    (shieldedWorld t handler w).Stands t base us ∧
      0 < ((shieldedWorld t handler w).thread t).guards := by
  have hshield : (shieldedWorld t handler w).thread t =
      ((w.thread t).withHandler handler).guarding := World.thread_setThread h.live _
  refine ⟨stands_setThread h.live (h.shows.alike ⟨rfl, rfl, rfl⟩), ?_⟩
  rw [hshield]
  exact Nat.succ_pos _

/-- An error that leaves one more value behind leaves no more variables to be closed. -/
theorem closeFrom_pushed {handler level : Nat} (hlive : w.liveThread t = true)
    (hnone : forall i, i ∈ (w.thread t).toClose → i < level) (v : Value) (s : Status) :
    exists u, closeFrom t level (some s) false E (closingWorld t w ((shieldedWorld t handler w).setThread
      t (((shieldedWorld t handler w).thread t).push v))) = .ok () u := by
  have hshield : (shieldedWorld t handler w).thread t =
      ((w.thread t).withHandler handler).guarding := World.thread_setThread hlive _
  have hlive₁ : (shieldedWorld t handler w).liveThread t = true :=
    (World.liveThread_setThread w t t _).trans hlive
  have hpushed := World.thread_setThread hlive₁ (((shieldedWorld t handler w).thread t).push v)
  have hlive₂ := (World.liveThread_setThread _ t t
    (((shieldedWorld t handler w).thread t).push v)).trans hlive₁
  have hsame := Thread.toClose_push ((shieldedWorld t handler w).thread t) v
  generalize (shieldedWorld t handler w).setThread t (((shieldedWorld t handler w).thread t).push v) = u
    at hpushed hlive₂
  have hlive₃ : (unwound t w u).liveThread t = true :=
    (World.liveThread_setThread u t t _).trans hlive₂
  have hlive₄ : (closingWorld t w u).liveThread t = true :=
    (World.liveThread_setThread _ t t _).trans hlive₃
  have hclosing : ((closingWorld t w u).thread t).toClose = (w.thread t).toClose := by
    unfold closingWorld guardedWorld
    rw [World.thread_setThread hlive₃]
    unfold unwound
    rw [World.thread_setThread hlive₂]
    show (u.thread t).toClose = _
    rw [hpushed, hsame, hshield]
    rfl
  rcases closes_nothing hlive₄ (by rw [hclosing]; exact hnone) E s false with ⟨u', hcloses, _⟩
  exact ⟨u', hcloses.returns⟩

/-- Without a message handler a chunk that is refused leaves no variable behind whose closing could
raise another error. -/
theorem pushChunk_stuck {r : Raise} {u : World} (hlive : w.liveThread t = true) (level : Nat)
    (chunk name : Bytes)
    (hfail : pushChunk t (return chunk) name none E (shieldedWorld t (w.thread t).handler w) = .error r u)
    (hstuck : forall s, r = .error t s → forall v,
      closeFrom t level (some s) false E (closingWorld t w u) ≠ .ok () v) :
    (w.thread t).handler ≠ 0 ∨ exists i, i ∈ (w.thread t).toClose ∧ level ≤ i := by
  have hshield : (shieldedWorld t (w.thread t).handler w).thread t =
      ((w.thread t).withHandler (w.thread t).handler).guarding := World.thread_setThread hlive _
  have hlive' : (shieldedWorld t (w.thread t).handler w).liveThread t = true :=
    (World.liveThread_setThread w t t _).trans hlive
  refine or_iff_not_imp_left.mpr fun hnone => ?_
  rcases pushChunk_unhandled hlive' (by rw [hshield]; exact Nat.succ_pos _)
    (by rw [hshield]; exact not_not.mp hnone) hfail with ⟨s, v, rfl, rfl⟩
  by_contra hnothing
  rcases closeFrom_pushed (E := E) hlive
    (fun i hi => Nat.lt_of_not_le fun hle => hnothing ⟨i, hi, hle⟩) v s with ⟨u', hcloses⟩
  exact hstuck s rfl u' hcloses

/-- Loads a chunk under protection, at the end of a section that does not yield. -/
def loadProtected (t : ThreadId) (level handler : Nat) (chunk name : Bytes) : M Status := do
  let status ← runProtected t level handler (pushChunk t (return chunk) name none)
  modifyThread t fun th => { th with unyieldable := th.unyieldable - 1 }
  return status

theorem loadProtected_ok {level handler : Nat} {chunk name : Bytes}
    (h : runProtected t level handler (pushChunk t (return chunk) name none) E w = .ok s w') :
    exists w'', loadProtected t level handler chunk name E w = .ok s w'' ∧
      forall base vs, w'.Stands t base vs → w''.Stands t base vs := by
  refine ⟨_, ok_andThen h ((returns_modifyThread w' t _).andThen rfl), ?_⟩
  exact fun base vs hvs => stands_setThread hvs.live (hvs.shows.alike ⟨rfl, rfl, rfl⟩)

theorem loadProtected_loads (hE : E.Sparing) (h : w.Stands t base us) (chunk name : Bytes) :
    Loads t base us w
      (loadProtected t (base + us.length) (w.thread t).handler chunk name E w) := by
  rcases stands_shielded h (w.thread t).handler with ⟨⟨hlive, hshows⟩, hguards⟩
  rcases pushChunk_spares hE hlive hguards (Nat.le_of_eq hshows.top_eq.symm) chunk name with
    ⟨hspares, hpushed⟩
  have hshields := runProtected_shields hE h.live (Nat.le_refl _) (h.base_le _) hspares
  have hcause := fun r u => pushChunk_stuck (E := E) (r := r) (u := u) h.live (base + us.length) chunk name
  have hstands : w.Stands t base (us ++ []) := (List.append_nil us).symm ▸ h
  generalize pushChunk t (return chunk) name none E (shieldedWorld t (w.thread t).handler w) = o
    at hshields hpushed hcause
  generalize hprotected : runProtected t (base + us.length) (w.thread t).handler
    (pushChunk t (return chunk) name none) E w = o' at hshields
  -- one case for each way in which the section can end: the status is in order in the first one
  -- alone
  cases hshields with
  | @returns u w₂ hcarried halike =>
      rcases hpushed u rfl with ⟨c, hpushed⟩
      rcases loadProtected_ok hprotected with ⟨w₃, hrest, hlast⟩
      rw [hrest]
      refine .loads (c := c) (hlast _ _ ⟨hcarried.live, ?_⟩)
      have htopped := hshows.push (.closure c)
      rw [← hpushed] at htopped
      exact htopped.alike halike
  | fails hs _ hcarried htop =>
      rcases loadProtected_ok hprotected with ⟨w₃, hrest, hlast⟩
      rw [hrest]
      exact .fails hs (hlast _ _ (hstands.carried_one hcarried htop))
  | failsAgain _ hs hcarried htop =>
      rcases loadProtected_ok hprotected with ⟨w₃, hrest, hlast⟩
      rw [hrest]
      exact .fails hs (hlast _ _ (hstands.carried_one hcarried htop))
  | breaks hfailing hforeign =>
      have hrest : loadProtected t (base + us.length) (w.thread t).handler chunk name E w = .error _ _ :=
        bind_of_error hprotected _
      rw [hrest]
      exact .passes hforeign (hcause _ _ rfl fun s hs => by cases hs; exact hfailing)
  | passes hforeign =>
      have hrest : loadProtected t (base + us.length) (w.thread t).handler chunk name E w = .error _ _ :=
        bind_of_error hprotected _
      rw [hrest]
      exact .passes hforeign (hcause _ _ rfl fun s hs => absurd hs (hforeign s))

theorem loadFrom_loads (hE : E.Sparing) (h : w.Stands t base us) (chunk name : Bytes) :
    Loads t base us w (loadFrom t (return chunk) name none E w) := by
  have hthread := World.thread_setThread h.live
    { w.thread t with unyieldable := (w.thread t).unyieldable + 1 }
  have hshows : { w.thread t with unyieldable := (w.thread t).unyieldable + 1 }.Shows base us :=
    h.shows.alike ⟨rfl, rfl, rfl⟩
  have hstands := stands_setThread h.live hshows
  have hrun : loadFrom t (return chunk) name none E w =
      loadProtected t (w.thread t).top (w.thread t).handler chunk name E
        (w.setThread t { w.thread t with unyieldable := (w.thread t).unyieldable + 1 }) :=
    (returns_thread w t).andThen ((returns_modifyThread w t _).andThen rfl)
  have hloads := loadProtected_loads hE hstands chunk name
  rw [hthread, ← h.shows.top_eq] at hloads
  rw [hrun]
  exact hloads.congr (by rw [hthread]) (by rw [hthread])

theorem loadBuffer_loads (hE : E.Sparing) (h : w.Stands t base us)
    (hroom : (w.thread t).top + 1 ≤ (w.thread t).limit) (chunk : Bytes) (name : String) :
    Loads t base us w (loadBuffer t chunk name none E w) := by
  rcases (Interface.needs_reserve h.live (n := 1) (by decide)).returns hroom with
    ⟨_, w₁, hreserve, hloaded⟩
  have hstands := h.loaded hloaded
  rw [List.append_nil] at hstands
  have hrun : loadBuffer t chunk name none E w =
      loadFrom t (return chunk) (Interface.cutName name) none E w₁ := hreserve.andThen rfl
  have hsame : (w₁.thread t).handler = (w.thread t).handler ∧
      (w₁.thread t).toClose = (w.thread t).toClose := by
    have hworked := ((Interface.works_reserve 1).run h.live (hreserve E)).2
    have hhandler := congrArg Thread.handler hworked.rest_eq
    have hpending := congrArg Thread.toClose hworked.rest_eq
    exact ⟨hhandler, hpending⟩
  rw [hrun]
  exact (loadFrom_loads hE hstands chunk _).congr hsame.1 hsame.2

theorem loadBuffer_full (hlive : w.liveThread t = true)
    (hfull : (w.thread t).limit < (w.thread t).top + 1) (chunk : Bytes) (name : String) :
    loadBuffer t chunk name none E w ≠ .ok s w' := by
  intro hrun
  rcases ok_bind hrun with ⟨_, w₁, hreserve, _⟩
  exact (Interface.needs_reserve hlive (n := 1) (by decide)).stops hfull E _ w₁ hreserve

theorem Loads.ends (h : Loads t base us w (.ok s w')) :
    (s = .ok ∧ exists c, w'.Stands t base (us ++ [.closure c])) ∨
      exists x, s.isError = true ∧ w'.Stands t base (us ++ [x]) := by
  cases h with
  | loads hstands => exact Or.inl ⟨rfl, _, hstands⟩
  | fails hs hstands => exact Or.inr ⟨_, hs, hstands⟩

theorem loadBuffer_ends (hE : E.Sparing) (h : w.Stands t base us) {chunk : Bytes} {name : String}
    (hrun : loadBuffer t chunk name none E w = .ok s w') :
    (s = .ok ∧ exists c, w'.Stands t base (us ++ [.closure c])) ∨
      exists x, s.isError = true ∧ w'.Stands t base (us ++ [x]) := by
  have hroom : (w.thread t).top + 1 ≤ (w.thread t).limit := by
    by_contra hover
    exact loadBuffer_full h.live (Nat.lt_of_not_le hover) chunk name hrun
  have hloads := loadBuffer_loads hE h hroom chunk name
  rw [hrun] at hloads
  exact hloads.ends

/-!
# Messages
-/

/-- The message of an error: the text of its object, if that is a string or a number. -/
def messageOf (x : Value) : String :=
  match x.toBytes? with
  | some s => Bytes.toText s
  | none => "(error object is a " ++ x.kind.name ++ " value)"

theorem not_isOk (hs : s.isError = true) : ¬ s.isOk = true := by
  intro hok
  rw [beq_iff_eq.mp hok] at hs
  cases hs

theorem returns_takeMessage (h : w.Stands t base (us ++ [x])) (hs : s.isError = true) :
    exists w', Returns (takeMessage t s) w (.error (messageOf x)) w' ∧ w'.Stands t base us ∧
      w' = w.setThread t (w'.thread t) := by
  rcases Interface.returns_toText_last h with ⟨w₁, v, htext, hstands, hrest₁, _, hsame⟩
  rcases Interface.returns_pop_top hstands with ⟨w₂, hpop, hpopped, hrest₂⟩
  rw [hrest₁, setThread_setThread] at hrest₂
  refine ⟨w₂, ?_, hpopped, hrest₂⟩
  unfold takeMessage messageOf
  rw [if_neg (not_isOk hs)]
  refine Returns.bind htext ?_
  cases hbytes : x.toBytes? with
  | some b => exact Returns.bind (Returns.pure _ w₁) (Returns.bind hpop (Returns.pure _ w₂))
  | none =>
      rw [hsame hbytes] at hstands
      have hkind := Interface.returns_kindAt_last hstands
      have hname : Returns (typeName t (-1)) w₁ x.kind.name w₁ :=
        Returns.bind hkind (Returns.pure _ w₁)
      exact Returns.bind hname (Returns.bind (Returns.pure _ w₁)
        (Returns.bind hpop (Returns.pure _ w₂)))

/-!
# Running
-/

/-- What becomes of running a chunk on a stack with the values `us`: if loading it and calling it come
to an end, the stack is as it was, and there is a message if one of them failed. -/
inductive Runs (t : ThreadId) (base : Nat) (us : List Value) (chunk : Bytes) (name : String)
    (E : Engine) (w : World) : Outcome (Except String Unit) → Prop where
  | unloaded {s : Status} {x : Value} {w₁ w' : World} :
      loadBuffer t chunk name none E w = .ok s w₁ → s.isError = true →
      w₁.Stands t base (us ++ [x]) → w'.Stands t base us →
      Runs t base us chunk name E w (.ok (.error (messageOf x)) w')
  | failed {s : Status} {x : Value} {w₁ w₂ w' : World} :
      loadBuffer t chunk name none E w = .ok .ok w₁ → callTraced t 0 0 E w₁ = .ok s w₂ →
      s.isError = true → w₂.Stands t base (us ++ [x]) → w'.Stands t base us →
      Runs t base us chunk name E w (.ok (.error (messageOf x)) w')
  | succeeded {w₁ w' : World} :
      loadBuffer t chunk name none E w = .ok .ok w₁ → callTraced t 0 0 E w₁ = .ok .ok w' →
      w'.Stands t base us → Runs t base us chunk name E w (.ok (.ok ()) w')
  | unended {r : Raise} {w' : World} : loadBuffer t chunk name none E w = .error r w' →
      (w.thread t).limit < (w.thread t).top + 1 ∨ (w.thread t).handler ≠ 0 ∨
        (exists i, i ∈ (w.thread t).toClose ∧ base + us.length ≤ i) →
      Runs t base us chunk name E w (.error r w')
  | left {r : Raise} {w₁ w' : World} : loadBuffer t chunk name none E w = .ok .ok w₁ →
      callTraced t 0 0 E w₁ = .error r w' → Runs t base us chunk name E w (.error r w')

theorem Runs.stands {chunk : Bytes} {name : String} {a : Except String Unit}
    (h : Runs t base us chunk name E w (.ok a w')) : w'.Stands t base us := by
  cases h with
  | unloaded _ _ _ hstands => exact hstands
  | failed _ _ _ _ hstands => exact hstands
  | succeeded _ _ hstands => exact hstands

theorem runChunk_runs (hE : E.Sparing) (h : w.Stands t base us) (chunk : Bytes) (name : String) :
    Runs t base us chunk name E w (runChunk t chunk name E w) := by
  cases hload : loadBuffer t chunk name none E w with
  | error r w' =>
      have hrun : runChunk t chunk name E w = .error r w' := bind_of_error hload _
      rw [hrun]
      refine .unended hload (or_iff_not_imp_left.mpr fun hroom => ?_)
      have hloads := loadBuffer_loads hE h (Nat.le_of_not_lt hroom) chunk name
      rw [hload] at hloads
      cases hloads with
      | passes _ hcause => exact hcause
  | ok s w₁ =>
      -- a chunk that was loaded is called for no results, one that was not has left its message
      rcases loadBuffer_ends hE h hload with ⟨rfl, c, hstands⟩ | ⟨x, hs, hstands⟩
      · have hrun : runChunk t chunk name E w = (do
            let s ← callTraced t 0 0
            takeMessage t s : M (Except String Unit)) E w₁ := ok_andThen hload rfl
        rw [hrun]
        cases hcall : callTraced t 0 0 E w₁ with
        | error r w' =>
            rw [bind_of_error hcall]
            exact .left hload hcall
        | ok s w₂ =>
            rcases callTraced_ends hE hstands hcall with
              ⟨rfl, results, hcount, hresults⟩ | ⟨x, hs, hobject⟩
            · have hnone : results = [] := List.eq_nil_of_length_eq_zero (hcount (Int.le_refl 0))
              rw [hnone, List.append_nil] at hresults
              have hrest : (do
                  let s ← callTraced t 0 0
                  takeMessage t s : M (Except String Unit)) E w₁ = .ok (.ok ()) w₂ :=
                ok_andThen hcall rfl
              rw [hrest]
              exact .succeeded hload hcall hresults
            · rcases returns_takeMessage hobject hs with ⟨w', htake, hstands', _⟩
              rw [ok_andThen hcall (htake E)]
              exact .failed hload hcall hs hobject hstands'
      · rcases returns_takeMessage hstands hs with ⟨w', htake, hstands', _⟩
        have hrun : runChunk t chunk name E w = .ok (.error (messageOf x)) w' := by
          refine ok_andThen hload ?_
          refine (run_congr (if_neg (not_isOk hs))).trans ?_
          exact (Returns.pure s w₁).andThen (htake E)
        rw [hrun]
        exact .unloaded hload hs hstands hstands'

end Chunks

end CommandLine

end LuaHost
