import LuaHost.CommandLine.Script
import LuaHost.Proofs.Interface.Protecting
import LuaHost.Proofs.Interface.Sparing
import LuaHost.Proofs.Interface.Working

/-!
# Calls with tracebacks

The message handler of a call is put under the function, and taken from there
when the call has ended.  What stands below is kept, and in the place of the
function stand the results, or one error object.
-/

namespace LuaHost

namespace CommandLine

open Machine World
open Interface (pcall loadBuffer pushFunction standIn needs_pushFunction returns_getTop
  returns_place_above returns_insert_above returns_remove_above)

section Protection

variable {t : ThreadId} {base level : Nat} {us args : List Value} {f : Value} {wanted : Int}
  {w w₁ : World} {E : Engine}

/-- What becomes of a protected call of the function in the slot `level`, made in the world `w`, by
what becomes of the call itself: the running call has the values `us`, and above them the results, as
many as are wanted, or one error object.  The object is the one of the error that left the call,
unless a variable cannot be closed. -/
inductive Completes (E : Engine) (t : ThreadId) (base : Nat) (us : List Value) (level : Nat)
    (wanted : Int) (w : World) : Outcome Unit → Outcome Status → Prop where
  | returns {u w' : World} {results : List Value} :
      (u.thread t).slots level ((u.thread t).top - level) = results →
      (0 ≤ wanted → results.length = wanted.toNat) → w'.Stands t base (us ++ results) →
      Completes E t base us level wanted w (.ok () u) (.ok .ok w')
  | fails {s : Status} {u v w' : World} : s.isError = true →
      closeFrom t level (some s) false E (closingWorld t w u) = .ok () v →
      w'.Stands t base (us ++ [(u.thread t).errorObject s]) →
      Completes E t base us level wanted w (.error (.error t s) u) (.ok s w')
  | failsAgain {s s' : Status} {x : Value} {u w' : World} :
      (forall v, closeFrom t level (some s) false E (closingWorld t w u) ≠ .ok () v) →
      s'.isError = true → w'.Stands t base (us ++ [x]) →
      Completes E t base us level wanted w (.error (.error t s) u) (.ok s' w')
  | breaks {s : Status} {r : Raise} {u w' : World} :
      (forall v, closeFrom t level (some s) false E (closingWorld t w u) ≠ .ok () v) →
      (forall s, r ≠ .error t s) →
      Completes E t base us level wanted w (.error (.error t s) u) (.error r w')
  | passes {r : Raise} {u w' : World} : (forall s, r ≠ .error t s) →
      Completes E t base us level wanted w (.error r u) (.error r w')

/-- Calls the function in a slot under protection. -/
def callProtected (E : Engine) (t : ThreadId) (f handler : Nat) (wanted : Int) : M Status := do
  let s ← runProtected t f handler (E.call t f wanted false)
  adjustResults t wanted
  return s

theorem pcall_eq (h : w.Stands t base (us ++ f :: args)) {handler : Int} {p : Place}
    (hplace : Returns (place t handler) w p w) :
    pcall t args.length wanted handler E w =
      callProtected E t (base + us.length) (Protecting.handlerSlot handler p) wanted E w := by
  have htop := h.shows.top_eq
  rw [List.length_append, List.length_cons] at htop
  have hslot : Returns (functionSlot t args.length) w (base + us.length) w := by
    rw [show base + us.length = (w.thread t).top - (args.length + 1) by omega]
    exact fun _ => rfl
  refine (returns_getTop h).andThen ?_
  refine (run_congr (if_neg ?_)).trans ?_
  · rw [List.length_append, List.length_cons]
    omega
  refine (Protecting.with_handlerSlot hplace _).trans ?_
  refine (Returns.pure _ w).andThen ?_
  refine hslot.andThen ?_
  exact ok_andThen (x := read) (a := E) rfl rfl

theorem callProtected_ok {i handler : Nat}
    (h : runProtected t i handler (E.call t i wanted false) E w = .ok s w') :
    exists w'', callProtected E t i handler wanted E w = .ok s w'' ∧
      forall base vs, w'.Stands t base vs → w''.Stands t base vs := by
  refine ⟨_, ok_andThen h ((returns_adjustResults w' t wanted).andThen rfl), ?_⟩
  exact fun base vs hvs => stands_setThread hvs.live (hvs.shows.alike (Thread.alike_reaching wanted _))

theorem callProtected_completes (hE : E.Sparing) (h : w.Stands t base (us ++ f :: args))
    (handler : Nat) (wanted : Int) :
    Completes E t base us (base + us.length) wanted w
      (E.call t (base + us.length) wanted false (shieldedWorld t handler w))
      (callProtected E t (base + us.length) handler wanted E w) := by
  have hcall := hE t (base + us.length) wanted false
    (shieldedWorld t handler w)
  have hbody : Spares t (base + us.length)
      (shieldedWorld t handler w)
      ((E.call t (base + us.length) wanted false : M Unit) E
        (shieldedWorld t handler w)) := hcall.1
  have hshields : Shields E t (base + us.length) (base + us.length) w
      (E.call t (base + us.length) wanted false
        (shieldedWorld t handler w))
      (runProtected t (base + us.length) handler
        (E.call t (base + us.length) wanted false) E w) :=
    runProtected_shields hE h.live (Nat.le_refl _) (h.base_le _) hbody
  have hplaced := hcall.2
  generalize E.call t (base + us.length) wanted false
    (shieldedWorld t handler w) = o at hshields hplaced ⊢
  generalize hrun : runProtected t (base + us.length) handler
    (E.call t (base + us.length) wanted false) E w = o' at hshields
  -- each ending of the section is one of the call: adjusting the results moves no value
  cases hshields with
  | @returns u w' hcarried halike =>
      rcases callProtected_ok hrun with ⟨w'', hrest, hstands⟩
      rw [hrest]
      have hhigh : base + us.length ≤ (w'.thread t).top := by
        rw [halike.top_eq]
        exact hplaced.1
      refine .returns rfl (fun hwanted => ?_) (hstands _ _ ?_)
      · rw [Thread.length_slots, hplaced.2 hwanted, Nat.add_sub_cancel_left]
      · -- the results are seen in the thread of the section, and are the same behind it
        have hresults := h.carried hcarried hhigh
        have hslots : (w'.thread t).slots (base + us.length) ((w'.thread t).top - (base + us.length)) =
            (u.thread t).slots (base + us.length) ((u.thread t).top - (base + us.length)) := by
          rw [halike.top_eq]
          exact Protecting.slots_shifted fun k _ => halike.slot_eq _
        rw [hslots] at hresults
        exact hresults
  | @fails s u v w' hs hclose hcarried htop hslot =>
      rcases callProtected_ok hrun with ⟨w'', hrest, hstands⟩
      rw [hrest]
      refine .fails hs hclose (hstands _ _ ?_)
      rw [← hslot]
      exact h.carried_one hcarried htop
  | @failsAgain s s' u w' hfailing hs' hcarried htop =>
      rcases callProtected_ok hrun with ⟨w'', hrest, hstands⟩
      rw [hrest]
      exact .failsAgain hfailing hs' (hstands _ _ (h.carried_one hcarried htop))
  | @breaks s r u w' hfailing hforeign =>
      have hrest : callProtected E t (base + us.length) handler wanted E w =
          .error r w' := bind_of_error hrun _
      rw [hrest]
      exact .breaks hfailing hforeign
  | @passes r u w' hforeign =>
      have hrest : callProtected E t (base + us.length) handler wanted E w =
          .error r w' := bind_of_error hrun _
      rw [hrest]
      exact .passes hforeign

theorem pcall_completes (hE : E.Sparing) (h : w.Stands t base (us ++ f :: args)) {handler : Int}
    {p : Place} (hplace : Returns (place t handler) w p w) (wanted : Int) :
    Completes E t base us (base + us.length) wanted w
      (E.call t (base + us.length) wanted false
        (shieldedWorld t (Protecting.handlerSlot handler p) w))
      (pcall t args.length wanted handler E w) := by
  rw [pcall_eq h hplace]
  exact callProtected_completes hE h _ wanted

/-- The world in which the call is made: the message handler stands under the function, and is the
one that errors are handed to. -/
structure Prepared (t : ThreadId) (base : Nat) (below : List Value) (f : Value) (args : List Value)
    (w w₁ : World) : Prop where
  stands : w₁.Stands t base (below ++ .closure w.nextClosure :: f :: args)
  closure_eq : w₁.heap.closures.get w.nextClosure.index = standIn messageHandler

theorem get_nextClosure (w : World) (c : Closure) :
    (w.withClosure c).heap.closures.get w.nextClosure.index = c :=
  Store.get_push_next w.heap.closures c

theorem returns_prepare {below : List Value} (h : w.Stands t base (below ++ f :: args))
    (hroom : (w.thread t).top + 2 ≤ (w.thread t).limit) :
    exists w₁, Returns (do
      pushFunction t messageHandler
      Interface.insert t ((below.length : Int) + 1)) w () w₁ ∧ Prepared t base below f args w w₁ ∧
      w₁ = (w.withClosure (standIn messageHandler)).setThread t (w₁.thread t) ∧
      (w.thread t).Steady 0 (w₁.thread t) := by
  rcases (needs_pushFunction h.live messageHandler).returns hroom with ⟨_, w₁, hpush, hloaded⟩
  have hpushed : w₁.Stands t base (below ++ f :: args ++ [.closure w.nextClosure]) :=
    Stands.loaded (w := w.withClosure (standIn messageHandler)) ⟨h.live, h.shows⟩ hloaded
  rcases returns_insert_above hpushed with ⟨w₂, hinsert, hstands, hrest⟩
  have hrest₂ : w₂ = (w.withClosure (standIn messageHandler)).setThread t (w₂.thread t) := by
    rw [hloaded.rest_eq, setThread_setThread] at hrest
    exact hrest
  have hsteady := ((Interface.steadies_pushFunction messageHandler).run h.live (hpush Machine.idle)).2.trans
    ((Interface.steadies_rotate _ 1).run hpushed.live (hinsert Machine.idle)).2
  refine ⟨w₂, Returns.bind hpush hinsert, ⟨hstands, ?_⟩, hrest₂, hsteady⟩
  rw [hrest₂]
  exact get_nextClosure w _

/-- A call with tracebacks is a protected call, under which the message handler stands. -/
theorem callTraced_eq {below : List Value} (h : w.Stands t base (below ++ f :: args))
    (hroom : (w.thread t).top + 2 ≤ (w.thread t).limit) (wanted : Int) :
    exists w₁, Prepared t base below f args w w₁ ∧
      w₁ = (w.withClosure (standIn messageHandler)).setThread t (w₁.thread t) ∧
      (w.thread t).Steady 0 (w₁.thread t) ∧
      forall E : Engine, callTraced t args.length wanted E w = (do
        let s ← callProtected E t (base + below.length + 1) (base + below.length) wanted
        Interface.remove t ((below.length : Int) + 1)
        return s : M Status) E w₁ := by
  have hindex : ((below ++ f :: args).length : Int) - args.length = (below.length : Int) + 1 := by
    rw [List.length_append, List.length_cons]
    omega
  rcases returns_prepare h hroom with ⟨w₁, hprepare, hprepared, hrest, hsteady⟩
  have hplace : Returns (place t ((below.length : Int) + 1)) w₁ (.slot (base + below.length)) w₁ :=
    returns_place_above hprepared.stands
  have hstands := hprepared.stands
  rw [List.append_cons] at hstands
  refine ⟨w₁, hprepared, hrest, hsteady, fun E => ?_⟩
  have hcall : pcall t args.length wanted ((below.length : Int) + 1) E w₁ = _ :=
    pcall_eq hstands hplace
  have hslot : Protecting.handlerSlot ((below.length : Int) + 1) (.slot (base + below.length)) =
      base + below.length := by
    unfold Protecting.handlerSlot
    rw [if_neg]
    rw [beq_iff_eq]
    omega
  rw [hslot, List.length_append, List.length_singleton, ← Nat.add_assoc] at hcall
  refine (returns_getTop h).andThen ?_
  rw [hindex]
  rcases ok_bind (hprepare E) with ⟨_, w₂, hpush, hinsert⟩
  exact ok_andThen hpush (ok_andThen hinsert (bind_congr_of_eq hcall _))

theorem Completes.removed {below : List Value} {v : Value} {i : Nat} {o : Outcome Unit}
    {o' : Outcome Status} {x : M Status}
    (h : Completes E t base (below ++ [v]) i wanted w₁ o o') (hrun : x E w = o') :
    Completes E t base below i wanted w₁ o ((do
      let s ← x
      Interface.remove t ((below.length : Int) + 1)
      return s : M Status) E w) := by
  have hremove : forall {s vs w'}, x E w = .ok s w' → w'.Stands t base (below ++ [v] ++ vs) →
      exists w'', (do
        let s ← x
        Interface.remove t ((below.length : Int) + 1)
        return s : M Status) E w = .ok s w'' ∧ w''.Stands t base (below ++ vs) := by
    intro s vs w' hs hvs
    rw [List.append_assoc] at hvs
    rcases returns_remove_above hvs with ⟨w'', hremove, hstands, _⟩
    exact ⟨w'', ok_andThen hs (hremove.andThen rfl), hstands⟩
  cases h with
  | returns hresults hcount hstands =>
      rcases hremove hrun hstands with ⟨w'', hrest, hstands⟩
      rw [hrest]
      exact .returns hresults hcount hstands
  | fails hs hclose hstands =>
      rcases hremove hrun hstands with ⟨w'', hrest, hstands⟩
      rw [hrest]
      exact .fails hs hclose hstands
  | failsAgain hfailing hs hstands =>
      rcases hremove hrun hstands with ⟨w'', hrest, hstands⟩
      rw [hrest]
      exact .failsAgain hfailing hs hstands
  | breaks hfailing hforeign =>
      rw [bind_of_error hrun]
      exact .breaks hfailing hforeign
  | passes hforeign =>
      rw [bind_of_error hrun]
      exact .passes hforeign

theorem callTraced_completes (hE : E.Sparing) {below : List Value}
    (h : w.Stands t base (below ++ f :: args)) (hroom : (w.thread t).top + 2 ≤ (w.thread t).limit)
    (wanted : Int) :
    exists w₁, Prepared t base below f args w w₁ ∧
      Completes E t base below (base + below.length + 1) wanted w₁
        (E.call t (base + below.length + 1) wanted false
          (shieldedWorld t (base + below.length) w₁))
        (callTraced t args.length wanted E w) := by
  rcases callTraced_eq h hroom wanted with ⟨w₁, hprepared, _, _, hrun⟩
  have hstands := hprepared.stands
  rw [List.append_cons] at hstands
  have hcompletes := callProtected_completes hE hstands (base + below.length) wanted
  rw [List.length_append, List.length_singleton, ← Nat.add_assoc] at hcompletes
  refine ⟨w₁, hprepared, ?_⟩
  rw [hrun E]
  exact hcompletes.removed rfl

/-- In the place of the function stand the results of a call, or one error object. -/
theorem Completes.ends {i : Nat} {o : Outcome Unit} {s : Status} {w' : World}
    (h : Completes E t base us i wanted w o (.ok s w')) :
    (s = .ok ∧ exists results, (0 ≤ wanted → results.length = wanted.toNat) ∧
        w'.Stands t base (us ++ results)) ∨
      exists x, s.isError = true ∧ w'.Stands t base (us ++ [x]) := by
  cases h with
  | returns _ hcount hstands => exact Or.inl ⟨rfl, _, hcount, hstands⟩
  | fails hs _ hstands => exact Or.inr ⟨_, hs, hstands⟩
  | failsAgain _ hs hstands => exact Or.inr ⟨_, hs, hstands⟩

theorem Completes.results {i : Nat} {o : Outcome Unit} {w' : World}
    (h : Completes E t base us i wanted w o (.ok .ok w')) :
    exists u results, o = .ok () u ∧ (u.thread t).slots i ((u.thread t).top - i) = results ∧
      w'.Stands t base (us ++ results) := by
  cases h with
  | returns hresults _ hstands => exact ⟨_, _, rfl, hresults, hstands⟩
  | fails hs => cases hs
  | failsAgain _ hs => cases hs

theorem callTraced_full (hlive : w.liveThread t = true)
    (hfull : (w.thread t).limit < (w.thread t).top + 2) (nargs : Nat) (wanted : Int) {s : Status}
    {w' : World} : callTraced t nargs wanted E w ≠ .ok s w' := by
  intro hrun
  have hheight : Returns (Interface.getTop t) w ((w.thread t).height : Int) w :=
    Returns.bind (returns_height w t) (Returns.pure _ w)
  rcases ok_bind (hheight.ok_bind hrun) with ⟨_, w₁, hpush, _⟩
  exact (needs_pushFunction hlive messageHandler).stops hfull E _ w₁ hpush

/-- A call that came to an end had room for the message handler. -/
theorem roomy_of_ok (hlive : w.liveThread t = true) {nargs : Nat} {s : Status} {w' : World}
    (hrun : callTraced t nargs wanted E w = .ok s w') : (w.thread t).top + 2 ≤ (w.thread t).limit := by
  by_contra hover
  exact callTraced_full hlive (Nat.lt_of_not_le hover) nargs wanted hrun

theorem callTraced_ends (hE : E.Sparing) {below : List Value}
    (h : w.Stands t base (below ++ f :: args)) {s : Status} {w' : World}
    (hrun : callTraced t args.length wanted E w = .ok s w') :
    (s = .ok ∧ exists results, (0 ≤ wanted → results.length = wanted.toNat) ∧
        w'.Stands t base (below ++ results)) ∨
      exists x, s.isError = true ∧ w'.Stands t base (below ++ [x]) := by
  rcases callTraced_completes hE h (roomy_of_ok h.live hrun) wanted with ⟨w₁, _, hcompletes⟩
  rw [hrun] at hcompletes
  exact hcompletes.ends

end Protection

end CommandLine

end LuaHost
