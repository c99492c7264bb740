import LuaHost.CommandLine.Program
import LuaHost.Proofs.CommandLine.Chunks
import LuaHost.Proofs.Interface.Balance

/-!
# Chunks at the prompt

A text that makes up a chunk is run, and all values on the stack are printed:
those that the chunk returns, above those that were there before.  Then the
stack is cleared.
-/

namespace LuaHost

namespace CommandLine

open Machine World
open Interface (getGlobal loadBuffer pcall toText)

section Stack

variable {t : ThreadId} {base : Nat} {us vs : List Value} {x : Value} {w w' : World} {E : Engine}
  {s : Status}

theorem returns_setTop_zero (h : w.Stands t base vs) :
    exists w', Returns (Interface.setTop t 0) w () w' ∧ w'.Stands t base [] ∧
      w'.outside = w.outside := by
  have htop := h.shows.top_eq
  have hbase : (w.thread t).base = base := h.shows.base_eq
  have hall : (w.thread t).Shows base ([] ++ vs) := h.shows
  have hshows : ((w.thread t).withTop (base + ([] : List Value).length)).Shows base [] := hall.withTop
  refine ⟨_, Interface.returns_modifyThread_eq ?_, stands_setThread h.live hshows, rfl⟩
  have hnew : (w.thread t).base + (0 : Int).toNat = base + ([] : List Value).length := by
    rw [hbase]
    rfl
  simp only [if_pos (Int.le_refl 0), ge_iff_le, hnew]
  rw [if_neg (by rw [htop]; show ¬ base + 0 > _; omega)]

theorem returns_writeErrorLine (w : World) (line : String) :
    Returns (writeErrorLine line) w ()
      { w with outside := w.outside.writeErrors (line ++ "\n").toUTF8 } :=
  returns_modify _ w

theorem returns_writeText (w : World) (text : String) :
    Returns (writeText text) w () { w with outside := w.outside.writeThrough text.toUTF8 } :=
  returns_modify _ w

/-- What is around the machine has no influence on its stacks. -/
theorem stands_outside (h : w.Stands t base vs) (o : Outside) :
    ({ w with outside := o } : World).Stands t base vs :=
  ⟨h.live, h.shows⟩

theorem getGlobal_ok (hE : E.Sparing) (h : w.Stands t base vs) {name : String} {k : Kind}
    (hrun : getGlobal t name E w = .ok k w') : exists f, w'.Stands t base (vs ++ [f]) := by
  have hstands : w.Stands t base (vs ++ []) := by
    rw [List.append_nil]
    exact h
  have htop := h.shows.top_eq
  rcases (Interface.shifts_getGlobal (j := 0) name).run hE.disciplined h.live htop hrun with
    ⟨htop', hcarried⟩
  exact ⟨_, hstands.carried_one hcarried htop'⟩

end Stack

/-!
# Printing
-/

section Printing

variable {t : ThreadId} {base : Nat} {vs : List Value} {w w₁ : World} {E : Engine}

/-- The global `print` is a function, and stands under the values. -/
structure Asked (E : Engine) (t : ThreadId) (base : Nat) (vs : List Value) (w : World) (f : Value)
    (w₁ : World) : Prop where
  found : exists w₀, getGlobal t "print" E w = .ok .function w₀ ∧ w₀.Stands t base (vs ++ [f]) ∧
    w₁ = w₀.setThread t (w₁.thread t)
  stands : w₁.Stands t base (f :: vs)

/-- What becomes of printing the values on a stack: the global `print` is called with them, if there
are any, and is called only once. -/
inductive Prints (E : Engine) (t : ThreadId) (base : Nat) : List Value → World → Outcome Unit → Prop
    where
  | nothing {w : World} : w.Stands t base [] → Prints E t base [] w (.ok () w)
  | missing {v : Value} {vs : List Value} {k : Kind} {w w₁ w' : World} :
      getGlobal t "print" E w = .ok k w₁ → k ≠ .function → w'.Stands t base [] →
      w'.outside = w₁.outside → Prints E t base (v :: vs) w (.ok () w')
  | printed {v f : Value} {vs : List Value} {w w₁ w' : World} :
      Asked E t base (v :: vs) w f w₁ →
      Completes E t base [] base 0 w₁ (E.call t base 0 false (shieldedWorld t 0 w₁)) (.ok .ok w') →
      w'.Stands t base [] → Prints E t base (v :: vs) w (.ok () w')
  | failed {v f x : Value} {vs : List Value} {s : Status} {w w₁ w₂ w' : World} :
      Asked E t base (v :: vs) w f w₁ →
      Completes E t base [] base 0 w₁ (E.call t base 0 false (shieldedWorld t 0 w₁)) (.ok s w₂) →
      s.isError = true → w₂.Stands t base [x] → w'.Stands t base [] →
      w'.outside = w₂.outside.writeErrors
        ("lua: error calling 'print' (" ++ messageOf x ++ ")" ++ "\n").toUTF8 →
      Prints E t base (v :: vs) w (.ok () w')
  | unfound {v : Value} {vs : List Value} {r : Raise} {w w' : World} :
      getGlobal t "print" E w = .error r w' → Prints E t base (v :: vs) w (.error r w')
  | left {v f : Value} {vs : List Value} {r : Raise} {w w₁ w' : World} :
      Asked E t base (v :: vs) w f w₁ →
      Completes E t base [] base 0 w₁ (E.call t base 0 false (shieldedWorld t 0 w₁)) (.error r w') →
      Prints E t base (v :: vs) w (.error r w')

theorem asked_insert {f : Value} {w₀ : World} (hglobal : getGlobal t "print" E w = .ok .function w₀)
    (h : w₀.Stands t base (vs ++ [f])) :
    exists w₁, Returns (Interface.insert t 1) w₀ () w₁ ∧ Asked E t base vs w f w₁ := by
  have hstands : w₀.Stands t base ([] ++ vs ++ [f]) := h
  rcases Interface.returns_insert_above hstands with ⟨w₁, hinsert, hstands₁, hrest⟩
  exact ⟨w₁, hinsert, ⟨w₀, hglobal, h, hrest⟩, hstands₁⟩

/-- Calls the function under the `n` topmost values, and says so if it fails. -/
def callPrint (t : ThreadId) (n : Nat) : M Unit := do
  let status ← pcall t n 0 0
  match ← takeMessage t status with
  | .ok () => return ()
  | .error message => writeErrorLine ("lua: error calling 'print' (" ++ message ++ ")")

theorem callPrint_prints (hE : E.Sparing) {v f : Value} (hasked : Asked E t base (v :: vs) w f w₁) :
    Prints E t base (v :: vs) w (callPrint t (v :: vs).length E w₁) := by
  have hstands : w₁.Stands t base ([] ++ f :: v :: vs) := hasked.stands
  rcases reads_place t 0 w₁ with ⟨p, hplace⟩
  have hcompletes : Completes E t base [] base 0 w₁ (E.call t base 0 false (shieldedWorld t 0 w₁))
      (pcall t (v :: vs).length 0 0 E w₁) := pcall_completes hE hstands hplace 0
  cases hcall : pcall t (v :: vs).length 0 0 E w₁ with
  | error r w' =>
      have hrun : callPrint t (v :: vs).length E w₁ = .error r w' := bind_of_error hcall _
      rw [hcall] at hcompletes
      rw [hrun]
      exact .left hasked hcompletes
  | ok s w₂ =>
      rw [hcall] at hcompletes
      rcases hcompletes.ends with ⟨rfl, results, hcount, hnone⟩ | ⟨x, hs, hobject⟩
      · have hrun : callPrint t (v :: vs).length E w₁ = .ok () w₂ := ok_andThen hcall rfl
        have hempty : results = [] := List.eq_nil_of_length_eq_zero (hcount (Int.le_refl 0))
        rw [hempty] at hnone
        rw [hrun]
        exact .printed hasked hcompletes hnone
      · rcases returns_takeMessage hobject hs with ⟨w₃, htake, hempty, hrest⟩
        have hrun : callPrint t (v :: vs).length E w₁ = .ok () _ := ok_andThen hcall
          (htake.andThen (returns_writeErrorLine w₃ _ E))
        rw [hrun]
        refine .failed hasked hcompletes hs hobject (stands_outside hempty _) ?_
        rw [hrest]
        rfl

theorem printResults_prints (hE : E.Sparing) (h : w.Stands t base vs) :
    Prints E t base vs w (printResults t E w) := by
  have hheight := Interface.returns_getTop h
  cases vs with
  | nil =>
      have hrun : printResults t E w = .ok () w := hheight.andThen rfl
      rw [hrun]
      exact .nothing h
  | cons v vs =>
      have hsome : ¬ (((v :: vs).length : Int) == 0) = true := by
        rw [beq_iff_eq, List.length_cons]
        omega
      have hrun : printResults t E w = (do
          if (← getGlobal t "print") != .function then
            Interface.pop t (((v :: vs).length : Int) + 1)
          else
            Interface.insert t 1
            callPrint t (v :: vs).length
          : M Unit) E w := hheight.andThen (run_congr (if_neg hsome))
      rw [hrun]
      cases hglobal : getGlobal t "print" E w with
      | error r w' =>
          rw [bind_of_error hglobal]
          exact .unfound hglobal
      | ok k w₀ =>
          rcases getGlobal_ok hE h hglobal with ⟨f, hfound⟩
          rw [bind_of_ok hglobal]
          -- anything else than a function is removed again, with the values that were to be printed
          by_cases hk : k = .function
          · subst hk
            rcases asked_insert hglobal hfound with ⟨w₁, hinsert, hasked⟩
            have hrest : (do
                Interface.insert t 1
                callPrint t (v :: vs).length : M Unit) E w₀ = callPrint t (v :: vs).length E w₁ :=
              hinsert.andThen rfl
            rw [if_neg (by decide)]
            exact hrest ▸ callPrint_prints hE hasked
          · have hstands : w₀.Stands t base ([] ++ (v :: vs ++ [f])) := hfound
            rcases Interface.returns_pop_top hstands with ⟨w', hpop, hempty, hrest⟩
            rw [List.length_append, List.length_singleton, Int.natCast_add, Int.natCast_one] at hpop
            rw [if_pos (bne_iff_ne.mpr hk), hpop E]
            exact .missing hglobal hk hempty (by rw [hrest]; rfl)

end Printing

/-!
# Texts
-/

section Texts

variable {t : ThreadId} {base : Nat} {us vs : List Value} {x : Value} {w w' : World} {E : Engine}
  {s : Status}

theorem loadLine_ends (hE : E.Sparing) (h : w.Stands t base us) {text : String}
    (hrun : loadLine t text E w = .ok s w') :
    (s = .ok ∧ exists c, w'.Stands t base (us ++ [.closure c])) ∨
      exists x, s.isError = true ∧ w'.Stands t base (us ++ [x]) := by
  rcases ok_bind hrun with ⟨s₁, w₁, hload, hrest⟩
  rcases loadBuffer_ends hE h hload with ⟨rfl, c, hstands⟩ | ⟨x, hs, hstands⟩
  · cases hrest
    exact Or.inl ⟨rfl, c, hstands⟩
  · rcases Interface.returns_pop_top hstands with ⟨w₂, hpop, hpopped, _⟩
    have hagain : (do
        Interface.pop t 1
        loadBuffer t text.toUTF8 "=stdin" none : M Status) E w₁ = .ok s w' := by
      cases s₁ with
      | ok => cases hs
      | _ => exact hrest
    exact loadBuffer_ends hE hpopped (hpop.ok_bind hagain)

/-- The message of a syntax error that more lines may make good. -/
def truncated (x : Value) : Bool :=
  match x.toBytes? with
  | some b => Bytes.endsWith (Bytes.toText b).toUTF8 "<eof>".toUTF8
  | none => false

theorem returns_isIncomplete (h : w.Stands t base (us ++ [x])) (s : Status) :
    exists w' x', Returns (isIncomplete t s) w (s == .errSyntax && truncated x) w' ∧
      w'.Stands t base (us ++ [x']) ∧ messageOf x' = messageOf x ∧ w' = w.setThread t (w'.thread t) := by
  by_cases hs : s = .errSyntax
  · rcases Interface.returns_toText_last h with ⟨w', x', htext, hstands, hrest, hbytes, hsame⟩
    refine ⟨w', x', ?_, hstands, ?_, hrest⟩
    · unfold isIncomplete truncated
      rw [hs]
      refine Returns.bind htext ?_
      cases x.toBytes? <;> exact Returns.pure _ w'
    · unfold messageOf
      rw [hbytes]
      cases hx : x.toBytes? with
      | some b => rfl
      | none => rw [hsame hx]
  · refine ⟨w, x, ?_, h, rfl, (setThread_thread w t).symm⟩
    unfold isIncomplete
    rw [if_pos (bne_iff_ne.mpr hs), beq_eq_false_iff_ne.mpr hs]
    exact Returns.pure _ w

/-- What becomes of trying a text on a stack with the values `us`.  If more lines are needed they are
kept.  Otherwise the stack is empty afterwards: either one message was written, or the values `us` and
the results of the chunk were printed. -/
inductive Tries (E : Engine) (t : ThreadId) (base : Nat) (us : List Value) (text : String) (w : World) :
    Outcome Bool → Prop where
  | incomplete {x : Value} {w₁ w' : World} :
      loadLine t text E w = .ok .errSyntax w₁ → w₁.Stands t base (us ++ [x]) → truncated x = true →
      w'.Stands t base us → w'.outside = w₁.outside → Tries E t base us text w (.ok true w')
  | refused {s : Status} {x : Value} {w₁ w' : World} :
      loadLine t text E w = .ok s w₁ → s.isError = true → w₁.Stands t base (us ++ [x]) →
      ¬ (s = .errSyntax ∧ truncated x = true) → w'.Stands t base [] →
      w'.outside = w₁.outside.writeErrors (messageOf x ++ "\n").toUTF8 →
      Tries E t base us text w (.ok false w')
  | failed {s : Status} {x : Value} {w₁ w₂ w' : World} :
      loadLine t text E w = .ok .ok w₁ → callTraced t 0 multipleResults E w₁ = .ok s w₂ →
      s.isError = true → w₂.Stands t base (us ++ [x]) → w'.Stands t base [] →
      w'.outside = w₂.outside.writeErrors (messageOf x ++ "\n").toUTF8 →
      Tries E t base us text w (.ok false w')
  | succeeded {c : ClosureId} {results : List Value} {w₁ p u w₂ w₃ w' : World} :
      loadLine t text E w = .ok .ok w₁ → Prepared t base us (.closure c) [] w₁ p →
      E.call t (base + us.length + 1) multipleResults false (shieldedWorld t (base + us.length) p) =
        .ok () u →
      (u.thread t).slots (base + us.length + 1) ((u.thread t).top - (base + us.length + 1)) = results →
      callTraced t 0 multipleResults E w₁ = .ok .ok w₂ → w₂.Stands t base (us ++ results) →
      Prints E t base (us ++ results) w₂ (.ok () w₃) → w'.Stands t base [] →
      w'.outside = w₃.outside → Tries E t base us text w (.ok false w')
  | unloaded {r : Raise} {w' : World} :
      loadLine t text E w = .error r w' → Tries E t base us text w (.error r w')
  | uncalled {r : Raise} {w₁ w' : World} :
      loadLine t text E w = .ok .ok w₁ → callTraced t 0 multipleResults E w₁ = .error r w' →
      Tries E t base us text w (.error r w')
  | unprinted {results : List Value} {r : Raise} {w₁ w₂ w' : World} :
      loadLine t text E w = .ok .ok w₁ → callTraced t 0 multipleResults E w₁ = .ok .ok w₂ →
      w₂.Stands t base (us ++ results) → Prints E t base (us ++ results) w₂ (.error r w') →
      Tries E t base us text w (.error r w')

theorem Prints.stands (h : Prints E t base vs w (.ok () w')) : w'.Stands t base [] := by
  cases h with
  | nothing hstands => exact hstands
  | missing _ _ hstands => exact hstands
  | printed _ _ hstands => exact hstands
  | failed _ _ _ _ hstands => exact hstands

/-- Shows what has become of a chunk, and clears the stack. -/
def concludeText (t : ThreadId) (message : Except String Unit) : M Bool := do
  match message with
  | .ok () => printResults t
  | .error message => writeErrorLine message
  Interface.setTop t 0
  return false

theorem concludeText_error (h : w.Stands t base vs) (message : String) :
    exists w', Returns (concludeText t (.error message)) w false w' ∧ w'.Stands t base [] ∧
      w'.outside = w.outside.writeErrors (message ++ "\n").toUTF8 := by
  rcases returns_setTop_zero (stands_outside h (w.outside.writeErrors (message ++ "\n").toUTF8)) with
    ⟨w', hset, hempty, hsame⟩
  refine ⟨w', ?_, hempty, hsame⟩
  exact Returns.bind (returns_writeErrorLine w message) (Returns.bind hset (Returns.pure _ w'))

/-- A text that was loaded is called, and its results are printed. -/
theorem tryText_loaded (hE : E.Sparing) {text : String} {c : ClosureId}
    (hload : loadLine t text E w = .ok .ok w') (hstands : w'.Stands t base (us ++ [.closure c])) :
    Tries E t base us text w (tryText t text E w) := by
  have hrun : tryText t text E w = (do
      let s ← callTraced t 0 multipleResults
      concludeText t (← takeMessage t s) : M Bool) E w' := ok_andThen hload rfl
  rw [hrun]
  cases hcall : callTraced t 0 multipleResults E w' with
  | error r w₁ =>
      rw [bind_of_error hcall]
      exact .uncalled hload hcall
  | ok s w₁ =>
      rcases callTraced_completes hE hstands (roomy_of_ok hstands.live hcall) multipleResults with
        ⟨p, hprepared, hcompletes⟩
      have hcompletes : Completes E t base us (base + us.length + 1) multipleResults p
          (E.call t (base + us.length + 1) multipleResults false
            (shieldedWorld t (base + us.length) p))
          (callTraced t 0 multipleResults E w') := hcompletes
      rw [hcall] at hcompletes
      -- the status tells results from an error object
      rcases hcompletes.ends with ⟨rfl, _⟩ | ⟨x, hs, hobject⟩
      · rcases hcompletes.results with ⟨u, results, hreturned, hresults, hstands₁⟩
        have hprints := printResults_prints hE hstands₁
        have hrest : (do
            let s ← callTraced t 0 multipleResults
            concludeText t (← takeMessage t s) : M Bool) E w' = (do
            printResults t
            Interface.setTop t 0
            return false : M Bool) E w₁ := ok_andThen hcall rfl
        rw [hrest]
        cases hprint : printResults t E w₁ with
        | error r w₂ =>
            rw [hprint] at hprints
            rw [bind_of_error hprint]
            exact .unprinted hload hcall hstands₁ hprints
        | ok a w₂ =>
            rw [hprint] at hprints
            rcases returns_setTop_zero hprints.stands with ⟨w₃, hset, hempty, hsame⟩
            rw [ok_andThen hprint (hset.andThen rfl)]
            exact .succeeded hload hprepared hreturned hresults hcall hstands₁ hprints hempty hsame
      · rcases returns_takeMessage hobject hs with ⟨w₂, htake, hstands₂, hrest⟩
        rcases concludeText_error hstands₂ (messageOf x) with ⟨w₃, hconclude, hempty, hsame⟩
        rw [ok_andThen hcall (htake.andThen (hconclude E))]
        refine .failed hload hcall hs hobject hempty (hsame.trans ?_)
        rw [hrest]
        rfl

/-- A text that was not loaded needs more lines, or its message is written. -/
theorem tryText_unloaded {text : String} (hload : loadLine t text E w = .ok s w')
    (hs : s.isError = true) (hstands : w'.Stands t base (us ++ [x])) :
    Tries E t base us text w (tryText t text E w) := by
  rcases returns_isIncomplete hstands s with ⟨w₁, x', hlook, hstands₁, hmessage, hrest₁⟩
  cases hmore : s == .errSyntax && truncated x with
  | true =>
      rw [hmore] at hlook
      rcases Interface.returns_pop_top hstands₁ with ⟨w₂, hpop, hpopped, hrest₂⟩
      have hrun : tryText t text E w = .ok true w₂ :=
        ok_andThen hload (hlook.andThen (hpop.andThen rfl))
      rw [Bool.and_eq_true, beq_iff_eq] at hmore
      rw [hmore.1] at hload
      rw [hrun]
      refine .incomplete hload hstands hmore.2 hpopped ?_
      rw [hrest₂, hrest₁]
      rfl
  | false =>
      rw [hmore] at hlook
      rcases returns_takeMessage hstands₁ hs with ⟨w₂, htake, hstands₂, hrest₂⟩
      rcases concludeText_error hstands₂ (messageOf x') with ⟨w₃, hconclude, hempty, hsame⟩
      have hrun : tryText t text E w = .ok false w₃ := by
        refine ok_andThen hload (hlook.andThen ?_)
        refine (run_congr (if_neg (not_isOk hs))).trans ?_
        exact (Returns.pure s w₁).andThen (htake.andThen (hconclude E))
      rw [hrun]
      refine .refused hload hs hstands ?_ hempty (hsame.trans ?_)
      · rintro ⟨rfl, hx⟩
        rw [hx] at hmore
        cases hmore
      · rw [hrest₂, hrest₁, hmessage]
        rfl

theorem tryText_tries (hE : E.Sparing) (h : w.Stands t base us) (text : String) :
    Tries E t base us text w (tryText t text E w) := by
  cases hload : loadLine t text E w with
  | error r w' =>
      have hrun : tryText t text E w = .error r w' := bind_of_error hload _
      rw [hrun]
      exact .unloaded hload
  | ok s w₁ =>
      rcases loadLine_ends hE h hload with ⟨rfl, c, hstands⟩ | ⟨x, hs, hstands⟩
      · exact tryText_loaded hE hload hstands
      · exact tryText_unloaded hload hs hstands

end Texts

/-!
# Lines
-/

section Lines

variable {t : ThreadId} {base : Nat} {us : List Value} {text : String} {w w' : World} {E : Engine}

/-- A computation that only has to do with what is around the machine. -/
def Aside {α : Type} (x : M α) : Prop :=
  forall w, exists a o, Returns x w a { w with outside := o }

theorem Aside.pure {α : Type} (a : α) : Aside (pure a) := fun w => ⟨a, w.outside, Returns.pure a w⟩

theorem Aside.bind {α β : Type} {x : M α} {f : α → M β} (hx : Aside x) (hf : forall a, Aside (f a)) :
    Aside (x >>= f) := by
  intro w
  rcases hx w with ⟨a, o, hfirst⟩
  rcases hf a { w with outside := o } with ⟨b, o', hrest⟩
  exact ⟨b, o', Returns.bind hfirst hrest⟩

theorem aside_outside : Aside Machine.outside := fun w => ⟨w.outside, w.outside, fun _ => rfl⟩

theorem aside_modifyOutside (f : Outside → Outside) : Aside (Machine.modifyOutside f) :=
  fun w => ⟨(), f w.outside, returns_modify _ w⟩

theorem aside_gatherLine (b : Bytes) (fuel : Nat) : Aside (gatherLine b fuel) := by
  induction fuel generalizing b with
  | zero => exact Aside.pure b
  | succ fuel ih =>
      unfold gatherLine
      split
      · exact Aside.pure b
      · refine aside_outside.bind fun o => ?_
        dsimp only
        split
        · exact Aside.pure b
        · exact (aside_modifyOutside _).bind fun _ => ih _

/-- Shows that a line is awaited, and reads it. -/
def awaitLine (t : ThreadId) (gathered : String) (b : Bytes) : M (Option String × Bytes) :=
  (do
    (console t).announce (!gathered.isEmpty)
    (console t).nextLine : StateT Bytes M (Option String)).run b

theorem aside_awaitLine (t : ThreadId) (gathered : String) (b : Bytes) :
    Aside (awaitLine t gathered b) := by
  unfold awaitLine console nextLine
  simp only [StateT.run_bind, StateT.run_get, StateT.run_monadLift, StateT.run_set, bind_assoc,
    pure_bind]
  have hannounce : forall text : String, Aside (writeText text) := fun _ => aside_modifyOutside _
  refine Aside.bind (hannounce _) fun _ => Aside.bind aside_outside fun o => ?_
  refine Aside.bind (aside_gatherLine b _) fun b' => ?_
  split <;> split <;> exact Aside.pure _

/-- Reads lines like the console, and tries texts in a way of its own. -/
def consoleWith (t : ThreadId) (attempt : String → M Bool) : Console (StateT Bytes M) :=
  { console t with attempt := fun text => attempt text }

/-- Goes on with the line that was read, and at most `fuel` more. -/
def goOn (t : ThreadId) (attempt : String → M Bool) (gathered : String) (fuel : Nat) :
    Option String × Bytes → M (Unit × Bytes)
  | (none, b) => return ((), b)
  | (some line, b) => do
    if ← attempt (addLine gathered line) then
      ((consoleWith t attempt).run (addLine gathered line) fuel).run b
    else ((consoleWith t attempt).run "" fuel).run b

theorem run_succ (t : ThreadId) (attempt : String → M Bool) (gathered : String) (fuel : Nat)
    (b : Bytes) : ((consoleWith t attempt).run gathered (fuel + 1)).run b =
      awaitLine t gathered b >>= goOn t attempt gathered fuel := by
  rw [Console.run]
  unfold awaitLine
  simp only [StateT.run_bind, bind_assoc]
  refine bind_congr fun p => bind_congr fun ⟨line?, b'⟩ => ?_
  cases line? with
  | none => rfl
  | some line =>
      refine (StateT.run_bind _ _ b').trans ?_
      refine (bind_assoc _ _ _).trans (bind_congr fun more => ?_)
      refine (pure_bind _ _).trans ?_
      cases more <;> rfl

/-- What becomes of a dialogue in which at most so many lines are read.  It begins on a stack with the
values `us`, and with a gathered text.  As long as more lines are needed, the values `us` are kept; when
a chunk was tried, the stack is empty before the next line. -/
inductive Dialogue (E : Engine) (t : ThreadId) (base : Nat) :
    Nat → List Value → String → Bytes → World → Outcome (Unit × Bytes) → Prop where
  | stops {us : List Value} {gathered : String} {b : Bytes} {w : World} :
      w.Stands t base us → Dialogue E t base 0 us gathered b w (.ok ((), b) w)
  | ends {fuel : Nat} {us : List Value} {gathered : String} {b b' : Bytes} {w w' : World} :
      Returns (awaitLine t gathered b) w (none, b') w' → w'.Stands t base us →
      Dialogue E t base (fuel + 1) us gathered b w (.ok ((), b') w')
  | continues {fuel : Nat} {us : List Value} {gathered line : String} {b b' : Bytes}
      {w w₁ w₂ : World} {o : Outcome (Unit × Bytes)} :
      Returns (awaitLine t gathered b) w (some line, b') w₁ → w₁.Stands t base us →
      Tries E t base us (addLine gathered line) w₁ (.ok true w₂) →
      Dialogue E t base fuel us (addLine gathered line) b' w₂ o →
      Dialogue E t base (fuel + 1) us gathered b w o
  | answers {fuel : Nat} {us : List Value} {gathered line : String} {b b' : Bytes}
      {w w₁ w₂ : World} {o : Outcome (Unit × Bytes)} :
      Returns (awaitLine t gathered b) w (some line, b') w₁ → w₁.Stands t base us →
      Tries E t base us (addLine gathered line) w₁ (.ok false w₂) →
      Dialogue E t base fuel [] "" b' w₂ o → Dialogue E t base (fuel + 1) us gathered b w o
  | left {fuel : Nat} {us : List Value} {gathered line : String} {b b' : Bytes} {r : Raise}
      {w w₁ w₂ : World} :
      Returns (awaitLine t gathered b) w (some line, b') w₁ → w₁.Stands t base us →
      Tries E t base us (addLine gathered line) w₁ (.error r w₂) →
      Dialogue E t base (fuel + 1) us gathered b w (.error r w₂)

theorem Tries.stands {more : Bool} (h : Tries E t base us text w (.ok more w')) :
    w'.Stands t base (if more then us else []) := by
  cases h with
  | incomplete _ _ _ hstands => exact hstands
  | refused _ _ _ _ hstands => exact hstands
  | failed _ _ _ _ hstands => exact hstands
  | succeeded _ _ _ _ _ _ _ hstands => exact hstands

theorem run_dialogue (hE : E.Sparing) (fuel : Nat) (h : w.Stands t base us) (gathered : String)
    (b : Bytes) : Dialogue E t base fuel us gathered b w
      ((((console t).run gathered fuel).run b : M (Unit × Bytes)) E w) := by
  -- what stands on the stack is generalised: it is gone after each text that was complete
  induction fuel generalizing us gathered b w with
  | zero => exact .stops h
  | succ fuel ih =>
      rcases aside_awaitLine t gathered b w with ⟨⟨line?, b'⟩, o, hawait⟩
      have hstands := stands_outside h o
      generalize ({ w with outside := o } : World) = w₁ at hawait hstands
      have hrun : (((console t).run gathered (fuel + 1)).run b : M (Unit × Bytes)) E w =
          goOn t (tryText t) gathered fuel (line?, b') E w₁ :=
        (run_congr (run_succ t (tryText t) gathered fuel b)).trans (hawait.andThen rfl)
      rw [hrun]
      cases line? with
      | none => exact .ends hawait hstands
      | some line =>
          have htries := tryText_tries hE hstands (addLine gathered line)
          cases htry : tryText t (addLine gathered line) E w₁ with
          | error r w₂ =>
              have hleft : goOn t (tryText t) gathered fuel (some line, b') E w₁ = .error r w₂ := bind_of_error htry _
              rw [htry] at htries
              rw [hleft]
              exact .left hawait hstands htries
          | ok more w₂ =>
              rw [htry] at htries
              cases more with
              | true =>
                  have hmore : goOn t (tryText t) gathered fuel (some line, b') E w₁ =
                      ((console t).run (addLine gathered line) fuel).run b' E w₂ := ok_andThen htry rfl
                  rw [hmore]
                  exact .continues hawait hstands htries (ih htries.stands _ _)
              | false =>
                  have hdone : goOn t (tryText t) gathered fuel (some line, b') E w₁ =
                      ((console t).run "" fuel).run b' E w₂ := ok_andThen htry rfl
                  rw [hdone]
                  exact .answers hawait hstands htries (ih htries.stands _ _)

end Lines

end CommandLine

end LuaHost
