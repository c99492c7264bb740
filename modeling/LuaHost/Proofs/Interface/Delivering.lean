import LuaHost.Proofs.CommandLine.Chunks

/-!
# What a protected call leaves on the stack

A protected call that wants all results leaves these, or one error object, where
the function and its arguments stood.  So does a chunk that is run, unless it is
refused; then one error object stands where its function would have been called.
-/

namespace LuaHost

namespace Machine

section Errors

variable {t : ThreadId} {n level handler : Nat} {w w' u : World} {E : Engine} {s s' : Status}
  {body : M Unit} {x : Value}

/-- What is left of the error with which a section ended in the world `u`, once the variables are
closed: the status of the last error that came up, and its object.  If all variables can be closed it
is the error of the section. -/
structure ErrorLeft (E : Engine) (t : ThreadId) (level : Nat) (w u : World) (s s' : Status)
    (x : Value) : Prop where
  isError : s'.isError = true
  last : exists u', closeProtected t level s E (unwound t w u) = .ok s' u' ∧
    (u'.thread t).errorObject s' = x
  own : forall v, closeFrom t level (some s) false E (closingWorld t w u) = .ok () v →
    s' = s ∧ x = (u.thread t).errorObject s

/-- The object of the last error is where the protected call puts it. -/
theorem runProtected_object (hE : E.Sparing) (hlive : w.liveThread t = true) (hn : n ≤ level)
    (hbase : (w.thread t).base ≤ n) (hs : s.isError = true)
    (habandoned : (shieldedWorld t handler w).Abandoned t n u)
    (hrun : body E (shieldedWorld t handler w) = .error (.error t s) u)
    (hprotected : runProtected t level handler body E w = .ok s' w') :
    w'.liveThread t = true ∧ exists u', closeProtected t level s E (unwound t w u) = .ok s' u' ∧
      (u'.thread t).errorObject s' = (w'.thread t).slot level := by
  have hunwound := carried_unwound hlive habandoned
  have hbase' : ((unwound t w u).thread t).base ≤ n := hunwound.holds.below.base_eq ▸ hbase
  rcases closeProtectedLoop_spares hE ((unwound t w u).thread t).hook.allowed
    (((unwound t w u).thread t).toClose.length + 1) hunwound.live rfl hn hbase' hs with
    ⟨s₁, u₁, hclosed, _, hheld⟩ | ⟨r, u₁, hbroken, _⟩
  · have hclosed : closeProtected t level s E (unwound t w u) = .ok s₁ u₁ :=
      (returns_thread _ t).andThen hclosed
    rcases runProtected_closed hlive hn hrun habandoned.live hclosed (hunwound.trans hheld) with
      ⟨w₁, hagain, hcarried, _, hslot⟩
    rw [hprotected] at hagain
    cases hagain
    exact ⟨hcarried.live, u₁, hclosed, hslot.symm⟩
  · have hbroken : closeProtected t level s E (unwound t w u) = .error r u₁ :=
      (returns_thread _ t).andThen hbroken
    rw [runProtected_of_breaking hlive habandoned.live hrun hbroken] at hprotected
    cases hprotected

end Errors

end Machine

namespace Interface

open Machine World
open CommandLine (pcall_eq pcall_completes loadProtected loadProtected_ok stands_shielded
  closeFrom_pushed loadBuffer_loads loadBuffer_full)

section Delivering

variable {α : Type} {t : ThreadId} {base : Nat} {us args : List Value} {f x : Value}
  {w w' : World} {E : Engine} {s : Status}

/-- What a protected call leaves that wants all results, by what becomes of the call itself, which is
made in the world `w`: above the values `us` there are all the results in order, or there is one
error object.  The `answer` is about the status and the number of these values. -/
inductive Delivers (answer : Status → Nat → α) (E : Engine) (t : ThreadId) (base : Nat)
    (us : List Value) (w : World) : Outcome Unit → Outcome α → Prop where
  | results {u w' : World} {results : List Value} :
      (u.thread t).slots (base + us.length) ((u.thread t).top - (base + us.length)) = results →
      w'.Stands t base (us ++ results) →
      Delivers answer E t base us w (.ok () u) (.ok (answer .ok results.length) w')
  | object {s s' : Status} {x : Value} {u w' : World} :
      ErrorLeft E t (base + us.length) w u s s' x → w'.Stands t base (us ++ [x]) →
      Delivers answer E t base us w (.error (.error t s) u) (.ok (answer s' 1) w')
  | breaks {s : Status} {r : Raise} {u w' : World} :
      (forall v, closeFrom t (base + us.length) (some s) false E (closingWorld t w u) ≠ .ok () v) →
      (forall s, r ≠ .error t s) →
      Delivers answer E t base us w (.error (.error t s) u) (.error r w')
  | passes {r : Raise} {u w' : World} : (forall s, r ≠ .error t s) →
      Delivers answer E t base us w (.error r u) (.error r w')

theorem Delivers.ends {answer : Status → Nat → α} {o : Outcome Unit} {a : α}
    (h : Delivers answer E t base us w o (.ok a w')) :
    (exists results, a = answer .ok results.length ∧ w'.Stands t base (us ++ results)) ∨
      exists s x, s.isError = true ∧ a = answer s 1 ∧ w'.Stands t base (us ++ [x]) := by
  cases h with
  | results _ hstands => exact Or.inl ⟨_, rfl, hstands⟩
  | object hleft hstands => exact Or.inr ⟨_, _, hleft.isError, rfl, hstands⟩

theorem returns_place_zero (w : World) (t : ThreadId) :
    Returns (place t 0) w (.slot (w.thread t).top) w := by
  refine Returns.bind (returns_thread w t) ?_
  rw [if_neg (by decide), if_pos (by decide), Int.add_zero, Int.toNat_natCast]
  exact Returns.pure _ w

/-- What a protected call leaves of an error. -/
theorem errorLeft_pcall (hE : E.Sparing) (h : w.Stands t base (us ++ f :: args)) {u : World}
    {s₀ : Status}
    (hcall : E.call t (base + us.length) multipleResults false (shieldedWorld t 0 w) =
      .error (.error t s₀) u)
    (hrun : pcall t args.length multipleResults 0 E w = .ok s w') (hs : s.isError = true)
    (hstands : w'.Stands t base (us ++ [x]))
    (hown : forall v, closeFrom t (base + us.length) (some s₀) false E (closingWorld t w u) = .ok () v →
      s = s₀ ∧ x = (u.thread t).errorObject s₀) :
    ErrorLeft E t (base + us.length) w u s₀ s x := by
  have hspares := (hE t (base + us.length) multipleResults false (shieldedWorld t 0 w)).1
  rw [hcall] at hspares
  rw [pcall_eq h (returns_place_zero w t)] at hrun
  rcases ok_bind hrun with ⟨s₁, w₁, hprotected, hrest⟩
  rcases ok_bind hrest with ⟨_, w₂, hadjust, hlast⟩
  cases hlast
  rcases (returns_adjustResults w₁ t multipleResults).ok_eq hadjust with ⟨_, hworld⟩
  cases hspares with
  | fails hs₀ habandoned =>
      rcases runProtected_object hE h.live (Nat.le_refl _) (h.base_le _) hs₀ habandoned hcall hprotected with
        ⟨hlive, u', hclosed, hobject⟩
      have hslot : (w'.thread t).slot (base + us.length) = (w₁.thread t).slot (base + us.length) := by
        rw [← hworld, World.thread_setThread hlive]
        exact (Thread.alike_reaching multipleResults _).slot_eq _
      exact ⟨hs, ⟨u', hclosed, by rw [hobject, ← hslot, hstands.shows.slot_last]⟩, hown⟩
  | passes hforeign => exact absurd rfl (hforeign s₀)

theorem pcall_delivers (hE : E.Sparing) (h : w.Stands t base (us ++ f :: args)) :
    Delivers (fun s _ => s) E t base us w
      (E.call t (base + us.length) multipleResults false (shieldedWorld t 0 w))
      (pcall t args.length multipleResults 0 E w) := by
  have hcompletes := pcall_completes hE h (returns_place_zero w t) multipleResults
  generalize hcall : E.call t (base + us.length) multipleResults false (shieldedWorld t 0 w) = o
  generalize hrun : pcall t args.length multipleResults 0 E w = o' at hcompletes ⊢
  have hsame : E.call t (base + us.length) multipleResults false
      (shieldedWorld t (Protecting.handlerSlot 0 (.slot (w.thread t).top)) w) = o := hcall
  rw [hsame] at hcompletes
  cases hcompletes with
  | returns hresults _ hstands => exact .results hresults hstands
  | fails hs hclose hstands =>
      exact .object (errorLeft_pcall hE h hcall hrun hs hstands fun _ _ => ⟨rfl, rfl⟩) hstands
  | failsAgain hfailing hs hstands =>
      exact .object (errorLeft_pcall hE h hcall hrun hs hstands fun v hv => absurd hv (hfailing v))
        hstands
  | breaks hfailing hforeign => exact .breaks hfailing hforeign
  | passes hforeign => exact .passes hforeign

/-- The number of values is the difference of two heights. -/
theorem Delivers.counted {x : M Status} {o : Outcome Unit} {w₁ : World}
    (h : Delivers (fun s _ => s) E t base us w o (x E w₁)) :
    Delivers (fun s n => (s, (n : Int))) E t base us w o
      ((do
        let s ← x
        return (s, (← getTop t) - (us.length : Int)) : M (Status × Int)) E w₁) := by
  have hcount : forall {s vs w'}, x E w₁ = .ok s w' → w'.Stands t base (us ++ vs) → (do
      let s ← x
      return (s, (← getTop t) - (us.length : Int)) : M (Status × Int)) E w₁ =
        .ok (s, (vs.length : Int)) w' := by
    intro s vs w' hx hvs
    refine (ok_andThen hx ((returns_getTop hvs).andThen rfl)).trans ?_
    rw [List.length_append, Int.natCast_add, Int.add_comm, Int.add_sub_cancel]
    rfl
  generalize hx : x E w₁ = o' at h
  cases h with
  | results hresults hstands =>
      rw [hcount hx hstands]
      exact .results hresults hstands
  | object hleft hstands =>
      rw [hcount hx hstands]
      exact .object hleft hstands
  | breaks hfailing hforeign =>
      rw [bind_of_error hx]
      exact .breaks hfailing hforeign
  | passes hforeign =>
      rw [bind_of_error hx]
      exact .passes hforeign

/-- What becomes of loading and running a chunk that is its own name, on a stack with the values
`us`: it is refused, and one error object is above these values, or its function is called there. -/
inductive Executes (E : Engine) (t : ThreadId) (base : Nat) (us : List Value) (code : String)
    (w : World) : Outcome Status → Prop where
  | refused {s : Status} {x : Value} {w' : World} :
      loadBuffer t code.toUTF8 code none E w = .ok s w' → s.isError = true →
      w'.Stands t base (us ++ [x]) → Executes E t base us code w (.ok s w')
  | called {c : ClosureId} {w₁ : World} {o : Outcome Status} :
      loadBuffer t code.toUTF8 code none E w = .ok .ok w₁ →
      w₁.Stands t base (us ++ [.closure c]) →
      Delivers (fun s _ => s) E t base us w₁
        (E.call t (base + us.length) multipleResults false (shieldedWorld t 0 w₁)) o →
      Executes E t base us code w o
  | unended {r : Raise} {w' : World} : loadBuffer t code.toUTF8 code none E w = .error r w' →
      (w.thread t).handler ≠ 0 ∨ (exists i, i ∈ (w.thread t).toClose ∧ base + us.length ≤ i) →
      Executes E t base us code w (.error r w')

theorem doString_executes (hE : E.Sparing) (h : w.Stands t base us)
    (hroom : (w.thread t).top + 1 ≤ (w.thread t).limit) (code : String) :
    Executes E t base us code w (doString t code E w) := by
  have hloads := loadBuffer_loads hE h hroom code.toUTF8 code
  generalize hload : loadBuffer t code.toUTF8 code none E w = o at hloads
  cases hloads with
  | @loads c w₁ hstands =>
      have hfunction : w₁.Stands t base (us ++ .closure c :: []) := hstands
      have hrun : doString t code E w = pcall t 0 multipleResults 0 E w₁ := ok_andThen hload rfl
      rw [hrun]
      exact .called hload hstands (pcall_delivers hE hfunction)
  | @fails s x w' hs hstands =>
      have hrun : doString t code E w = .ok s w' := by
        refine ok_andThen hload ?_
        cases s with
        | ok => cases hs
        | _ => rfl
      rw [hrun]
      exact .refused hload hs hstands
  | passes _ hcause =>
      have hrun : doString t code E w = .error _ _ := bind_of_error hload _
      rw [hrun]
      exact .unended hload hcause

theorem Executes.ends {code : String} (h : Executes E t base us code w (.ok s w')) :
    (s = .ok ∧ exists results, w'.Stands t base (us ++ results)) ∨
      (s.isError = true ∧ exists x, w'.Stands t base (us ++ [x])) := by
  cases h with
  | refused _ hs hstands => exact Or.inr ⟨hs, _, hstands⟩
  | called _ _ hdelivers =>
      rcases hdelivers.ends with ⟨results, rfl, hstands⟩ | ⟨s, x, hs, rfl, hstands⟩
      · exact Or.inl ⟨rfl, results, hstands⟩
      · exact Or.inr ⟨hs, x, hstands⟩

theorem doString_full (hlive : w.liveThread t = true)
    (hfull : (w.thread t).limit < (w.thread t).top + 1) (code : String) :
    doString t code E w ≠ .ok s w' := by
  intro hrun
  rcases ok_bind hrun with ⟨s₁, w₁, hload, _⟩
  exact loadBuffer_full hlive hfull code.toUTF8 code hload

/-!
# Chunks that are refused
-/

/-- The text of a chunk cannot be compiled where the stack of calls is as deep as it is in the world,
which this message says. -/
structure Malformed (w : World) (t : ThreadId) (chunk name msg : Bytes) : Prop where
  text : chunk.byte? 0 ≠ some 0x1b
  fault : exists line what near,
    compileText chunk name (maxNesting - 1 - (w.thread t).nesting) =
      .error (.malformed line what near) ∧
    (ChunkFault.malformed line what near).message name = msg

variable {chunk name msg : Bytes}

theorem Malformed.congr (h : Malformed w t chunk name msg)
    (hnesting : (w'.thread t).nesting = (w.thread t).nesting) : Malformed w' t chunk name msg :=
  ⟨h.text, hnesting ▸ h.fault⟩

theorem Malformed.prototypeOf_eq (h : Malformed w t chunk name msg) (E : Engine) :
    prototypeOf t chunk name none E w = chunkError t msg E w := by
  rcases h.fault with ⟨line, what, near, hcompile, rfl⟩
  unfold prototypeOf
  rw [if_neg (by rw [beq_iff_eq]; exact h.text)]
  refine (Returns.pure () w).andThen ((returns_thread w t).andThen ?_)
  rw [hcompile]

theorem errorObject_push (th : Thread) (v : Value) : (th.push v).errorObject .errSyntax = v := by
  show (th.push v).slot ((th.push v).top - 1) = v
  rw [Thread.top_push, Nat.add_sub_cancel, Thread.slot_push, if_pos rfl]

/-- The message is the error object, if no variable is to be closed above the values. -/
theorem loadProtected_malformed (hE : E.Sparing) (h : w.Stands t base us)
    (hmalformed : Malformed w t chunk name msg)
    (hnone : forall i, i ∈ (w.thread t).toClose → i < base + us.length) :
    exists w', loadProtected t (base + us.length) (w.thread t).handler chunk name E w =
        .ok .errSyntax w' ∧
      w'.Stands t base (us ++ [.str msg]) := by
  rcases stands_shielded h (w.thread t).handler with ⟨⟨hlive, hshows⟩, hguards⟩
  have hshielded : Malformed (shieldedWorld t (w.thread t).handler w) t chunk name msg :=
    hmalformed.congr (by unfold shieldedWorld; rw [World.thread_setThread h.live]; rfl)
  have hfail := pushChunk_malformed (E := E) hlive hguards hshielded.prototypeOf_eq
  have hspares := (pushChunk_spares hE hlive hguards (Nat.le_of_eq hshows.top_eq.symm) chunk name).1
  have hshields := runProtected_shields hE h.live (Nat.le_refl _) (h.base_le _) hspares
  rcases closeFrom_pushed (E := E) h.live hnone (.str msg) .errSyntax with ⟨v, hcloses⟩
  have hstands : w.Stands t base (us ++ []) := (List.append_nil us).symm ▸ h
  rw [hfail] at hshields
  generalize hprotected : runProtected t (base + us.length) (w.thread t).handler
    (pushChunk t (return chunk) name none) E w = o at hshields
  cases hshields with
  | fails _ _ hcarried htop hslot =>
      rcases loadProtected_ok hprotected with ⟨w', hrest, hlast⟩
      have hobject := hstands.carried_one hcarried htop
      rw [hslot, World.thread_setThread hlive, errorObject_push] at hobject
      exact ⟨w', hrest, hlast _ _ hobject⟩
  | failsAgain hfailing _ _ _ => exact absurd hcloses (hfailing v)
  | breaks hfailing _ => exact absurd hcloses (hfailing v)
  | passes hforeign => exact absurd rfl (hforeign _)

theorem doString_malformed (hE : E.Sparing) (h : w.Stands t base us)
    (hroom : (w.thread t).top + 1 ≤ (w.thread t).limit) {code : String}
    (hmalformed : Malformed w t code.toUTF8 (cutName code) msg)
    (hnone : forall i, i ∈ (w.thread t).toClose → i < base + us.length) :
    exists w', doString t code E w = .ok .errSyntax w' ∧ w'.Stands t base (us ++ [.str msg]) := by
  rcases (needs_reserve h.live (n := 1) (by decide)).returns hroom with ⟨_, w₁, hreserve, hloaded⟩
  have hstands := h.loaded hloaded
  rw [List.append_nil] at hstands
  rcases ok_reserve_claimed h.live (hreserve E) with ⟨room, rfl⟩
  let entered := claimed { w.thread t with room } 1
  have hthread : (w.setThread t entered).thread t = entered := World.thread_setThread h.live _
  -- Loading is a section that does not yield.
  let loading : Thread := { entered with unyieldable := entered.unyieldable + 1 }
  have hbegin := returns_modifyThread (w.setThread t entered) t fun th =>
    { th with unyieldable := th.unyieldable + 1 }
  rw [World.setThread_setThread, hthread] at hbegin
  have hthread' : (w.setThread t loading).thread t = loading := World.thread_setThread h.live _
  have hshows : loading.Shows base us := by
    have hshows := hstands.shows
    rw [hthread] at hshows
    exact hshows.alike ⟨rfl, rfl, rfl⟩
  rcases loadProtected_malformed hE (stands_setThread h.live hshows)
    (hmalformed.congr (by rw [hthread']; rfl)) (by rw [hthread']; exact hnone) with ⟨w', hload, hlast⟩
  refine ⟨w', ?_, hlast⟩
  have hfrom : loadFrom t (return code.toUTF8) (cutName code) none E (w.setThread t entered) =
      .ok .errSyntax w' := by
    refine (returns_thread _ t).andThen (hbegin.andThen ?_)
    rw [hthread', ← hshows.top_eq] at hload
    rw [hthread]
    exact hload
  exact ok_andThen ((hreserve.andThen hfrom : loadBuffer t code.toUTF8 code none E w = _)) rfl

/-!
# The fault of a status
-/

theorem ofStatus_eq_none (message : String) (s : Status) :
    Fault.ofStatus message s = none ↔ s.isError = false := by
  cases s <;> simp [Fault.ofStatus, Status.isError]

/-- The message of an error object: its text, if it is a string. -/
def objectText (x : Value) : String :=
  match x with
  | .str b => Bytes.toText b
  | x => "(error object is a " ++ x.kind.name ++ " value)"

/-- The fault is that of the status and of the error object, which stays where it is. -/
theorem returns_checkStatus (h : w.Stands t base (us ++ [x])) (hs : s.isError = true) :
    Returns (checkStatus t s) w (Fault.ofStatus (objectText x) s) w := by
  have hkind : Returns (typeOf t (-1)) w x.kind w :=
    Returns.bind (returns_checkIndex_last h) (returns_kindAt_last h)
  unfold checkStatus
  rw [hs]
  refine Returns.bind hkind ?_
  cases x with
  | str b =>
      have hbytes : Returns (toBytesAt t (-1)) w (some b) w :=
        Returns.bind (returns_place_last h) (Returns.bind (returns_valueAt_last h) (Returns.pure _ w))
      have htext : Returns (toText t (-1)) w (some (Bytes.toText b)) w :=
        Returns.bind (Returns.bind (returns_checkIndex_last h) hbytes) (Returns.pure _ w)
      show Returns (do
        let message ← pure ((← toText t (-1)).getD "")
        return Fault.ofStatus message s) w _ w
      exact Returns.bind htext (Returns.bind (Returns.pure _ w) (Returns.pure _ w))
  | _ => exact Returns.bind (Returns.pure _ w) (Returns.pure _ w)

/-- A status is checked without any effect, and is in order if it is not that of an error. -/
theorem checkStatus_reports {vs : List Value} (h : w.Stands t base vs)
    (hs : s.isError = true -> vs ≠ []) :
    exists fault, Returns (checkStatus t s) w fault w ∧ (fault = none ↔ s.isError = false) := by
  cases herror : s.isError with
  | true =>
      rcases List.eq_nil_or_concat vs with hnil | ⟨us, x, rfl⟩
      · exact absurd hnil (hs herror)
      · rw [List.concat_eq_append] at h
        refine ⟨_, returns_checkStatus h herror, ?_⟩
        rw [ofStatus_eq_none, herror]
  | false =>
      refine ⟨none, ?_, iff_of_true rfl rfl⟩
      unfold checkStatus
      rw [herror]
      exact Returns.pure _ w

end Delivering

end Interface

end LuaHost
