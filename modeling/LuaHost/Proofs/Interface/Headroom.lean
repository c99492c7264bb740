import LuaHost.Proofs.Interface.Copying

/-!
# How much room a computation needs

A stack grows up to a limit.  What a computation needs is the number of values
that the stack holds when it is highest: the computation returns if the limit
allows for it, and does not return if it does not.
-/

namespace LuaHost

/-!
# The limit of a stack
-/

/-- The most values that the stack can hold, however it grows. -/
def Thread.limit (th : Thread) : Nat :=
  if th.room ≤ Machine.maxStack then Machine.maxStack else th.room - 1

theorem Thread.limit_congr {th th' : Thread} (h : th'.room = th.room) : th'.limit = th.limit := by
  unfold limit
  rw [h]

theorem Thread.limit_push (th : Thread) (v : Value) : (th.push v).limit = th.limit :=
  limit_congr (room_push th v)

namespace Machine

/-- A full stack grows when its limit allows for it. -/
theorem returns_growStack_limit {w : World} {t : ThreadId} {n : Nat} (hn : n < maxStack)
    (hfull : (w.thread t).room < (w.thread t).top + n + 1)
    (hlimit : (w.thread t).top + n ≤ (w.thread t).limit) :
    exists room, { w.thread t with room := room }.limit = (w.thread t).limit ∧
      Returns (growStack t n) w true (w.setThread t { w.thread t with room := room }) := by
  have hroom : (w.thread t).room ≤ maxStack := by
    by_contra hover
    have hlast : (w.thread t).limit = (w.thread t).room - 1 := if_neg hover
    omega
  have hmost : (w.thread t).limit = maxStack := if_pos hroom
  rw [hmost] at hlimit
  have hsize : max (min (2 * (w.thread t).room) maxStack) ((w.thread t).top + n) ≤ maxStack :=
    Nat.max_le.mpr ⟨Nat.min_le_right _ _, hlimit⟩
  refine ⟨_, (if_pos hsize).trans hmost.symm, ?_⟩
  refine Returns.bind (returns_thread w t) ?_
  rw [if_neg (Nat.not_lt_of_le hroom), if_pos (by rw [decide_eq_true hn, decide_eq_true hsize]; rfl)]
  exact Returns.bind (returns_modifyThread w t _) (Returns.pure _ _)

/-- A full stack at its limit does not grow. -/
theorem returns_growStack_over {w : World} {t : ThreadId} {n : Nat}
    (hlimit : (w.thread t).limit < (w.thread t).top + n) :
    exists w', Returns (growStack t n) w false w' := by
  unfold growStack
  by_cases hroom : (w.thread t).room > maxStack
  · refine ⟨w, Returns.bind (returns_thread w t) ?_⟩
    rw [if_pos hroom]
    exact Returns.pure _ w
  · have hmost : (w.thread t).limit = maxStack := if_pos (Nat.le_of_not_gt hroom)
    rw [hmost] at hlimit
    have hsize : ¬ max (min (2 * (w.thread t).room) maxStack) ((w.thread t).top + n) ≤ maxStack :=
      fun h => Nat.not_le_of_gt hlimit (Nat.le_trans (Nat.le_max_right _ _) h)
    refine ⟨w.setThread t { w.thread t with room := errorStack },
      Returns.bind (returns_thread w t) ?_⟩
    rw [if_neg hroom]
    dsimp only
    rw [decide_eq_false hsize, Bool.and_false, if_neg Bool.false_ne_true]
    exact Returns.bind (returns_modifyThread w t _) (Returns.pure _ _)

/-!
# What a computation needs
-/

/-- A computation that returns, and leaves things as `Q` says, if a stack can hold
as many values as it needs, and that does not return if it cannot. -/
structure Needs {α : Type} (t : ThreadId) (x : M α) (w : World) (most : Nat)
    (Q : α → World → Prop) : Prop where
  returns : most ≤ (w.thread t).limit -> exists a w', Returns x w a w' ∧ Q a w'
  stops : (w.thread t).limit < most -> forall E a w', x E w ≠ .ok a w'

section Needs

variable {α β : Type} {t : ThreadId} {w w' : World} {m n : Nat} {x : M α}

theorem needs_of_returns {a : α} {Q : α → World → Prop} (h : Returns x w a w')
    (hfits : m ≤ (w.thread t).limit) (hQ : Q a w') : Needs t x w m Q :=
  ⟨fun _ => ⟨a, w', h, hQ⟩, fun hover => absurd hfits (Nat.not_le_of_gt hover)⟩

theorem Needs.of_ok {a : α} {E : Engine} {Q : α → World → Prop} (h : Needs t x w m Q)
    (hrun : x E w = .ok a w') : Q a w' := by
  have hfits : m ≤ (w.thread t).limit := by
    by_contra hover
    exact h.stops (Nat.lt_of_not_le hover) E a w' hrun
  rcases h.returns hfits with ⟨b, w₁, hreturns, hQ⟩
  rcases hreturns.ok_eq hrun with ⟨rfl, rfl⟩
  exact hQ

theorem Needs.imp {Q R : α → World → Prop} (h : Needs t x w m Q)
    (hQR : forall a w', Q a w' -> R a w') : Needs t x w m R := by
  refine ⟨fun hfits => ?_, h.stops⟩
  rcases h.returns hfits with ⟨a, w', hrun, hQ⟩
  exact ⟨a, w', hrun, hQR a w' hQ⟩

theorem Needs.of_eq {Q : α → World → Prop} (h : Needs t x w m Q) (heq : m = n) :
    Needs t x w n Q :=
  heq ▸ h

/-- Of two computations, what is needed is what the hungrier one needs; the second
one runs only if there was room for the first. -/
theorem Needs.bind_of_fits {f : α → M β} {Q : α → World → Prop} {R : β → World → Prop}
    (hx : Needs t x w m Q) (hlimit : forall a w', Q a w' -> (w'.thread t).limit = (w.thread t).limit)
    (hf : m ≤ (w.thread t).limit -> forall a w', Q a w' -> Needs t (f a) w' n R) :
    Needs t (x >>= f) w (max m n) R := by
  constructor
  · intro hfits
    have hfirst := Nat.le_trans (Nat.le_max_left m n) hfits
    rcases hx.returns hfirst with ⟨a, w', hrun, hQ⟩
    have hrest : n ≤ (w'.thread t).limit := by
      rw [hlimit a w' hQ]
      exact Nat.le_trans (Nat.le_max_right _ _) hfits
    rcases (hf hfirst a w' hQ).returns hrest with ⟨b, w'', hrun', hR⟩
    exact ⟨b, w'', Returns.bind hrun hrun', hR⟩
  · intro hover E b w'' h
    by_cases hfirst : m ≤ (w.thread t).limit
    · rcases hx.returns hfirst with ⟨a, w', hrun, hQ⟩
      refine (hf hfirst a w' hQ).stops ?_ E b w'' (hrun.ok_bind h)
      rw [hlimit a w' hQ]
      omega
    · rcases ok_bind h with ⟨a, w', hrun, _⟩
      exact hx.stops (Nat.lt_of_not_le hfirst) E a w' hrun

theorem Needs.bind {f : α → M β} {Q : α → World → Prop} {R : β → World → Prop}
    (hx : Needs t x w m Q) (hlimit : forall a w', Q a w' -> (w'.thread t).limit = (w.thread t).limit)
    (hf : forall a w', Q a w' -> Needs t (f a) w' n R) : Needs t (x >>= f) w (max m n) R :=
  hx.bind_of_fits hlimit fun _ => hf

theorem Needs.after {f : α → M β} {a : α} {R : β → World → Prop} (hx : Returns x w a w')
    (hlimit : (w'.thread t).limit = (w.thread t).limit) (hf : Needs t (f a) w' n R) :
    Needs t (x >>= f) w n R := by
  constructor
  · intro hfits
    rw [← hlimit] at hfits
    rcases hf.returns hfits with ⟨b, w'', hrun, hR⟩
    exact ⟨b, w'', Returns.bind hx hrun, hR⟩
  · intro hover E b w'' h
    rw [← hlimit] at hover
    exact hf.stops hover E b w'' (hx.ok_bind h)

end Needs

theorem needs_checkStack {w : World} {t : ThreadId} (hlive : w.liveThread t = true) {n : Nat}
    (hn : n < maxStack) :
    ((w.thread t).top + n ≤ (w.thread t).limit -> exists th, (w.thread t).Alike th ∧
      th.limit = (w.thread t).limit ∧ Returns (checkStack t n) w true (w.setThread t th)) ∧
    ((w.thread t).limit < (w.thread t).top + n -> exists w', Returns (checkStack t n) w false w') := by
  -- whether the stack had to grow or not, the running call claims the room at last
  have hclaim : forall th : Thread, (w.thread t).Alike th -> th.limit = (w.thread t).limit ->
      exists th', (w.thread t).Alike th' ∧ th'.limit = (w.thread t).limit ∧
        Returns (do
          modifyThread t fun th => th.modifyFrame fun f => { f with top := max f.top (th.top + n) }
          return true : M Bool) (w.setThread t th) true (w.setThread t th') := by
    intro th halike hlimit
    refine ⟨claimed th n, halike.trans (alike_claimed th n), hlimit, ?_⟩
    have hmodify := returns_modifyThread (w.setThread t th) t fun th =>
      th.modifyFrame fun f => { f with top := max f.top (th.top + n) }
    rw [World.setThread_setThread, World.thread_setThread hlive] at hmodify
    exact Returns.bind hmodify (Returns.pure _ _)
  unfold checkStack
  by_cases hroom : (w.thread t).room ≥ (w.thread t).top + n + 1
  · have hfits : (w.thread t).top + n ≤ (w.thread t).limit := by
      unfold Thread.limit
      split <;> omega
    refine ⟨fun _ => ?_, fun hover => absurd hfits (Nat.not_le_of_gt hover)⟩
    rcases hclaim _ (Thread.Alike.refl _) rfl with ⟨th, halike, hlimit, hrun⟩
    rw [World.setThread_thread] at hrun
    refine ⟨th, halike, hlimit, Returns.bind (returns_thread w t) ?_⟩
    rw [if_pos hroom]
    exact Returns.bind (Returns.pure true w) hrun
  · have hfull : (w.thread t).room < (w.thread t).top + n + 1 := Nat.lt_of_not_le hroom
    constructor
    · intro hfits
      rcases returns_growStack_limit hn hfull hfits with ⟨room, hsame, hgrow⟩
      rcases hclaim { w.thread t with room } ⟨rfl, rfl, rfl⟩ hsame with ⟨th, halike, hlimit, hrun⟩
      refine ⟨th, halike, hlimit, Returns.bind (returns_thread w t) ?_⟩
      rw [if_neg hroom]
      exact Returns.bind hgrow hrun
    · intro hover
      rcases returns_growStack_over hover with ⟨w', hgrow⟩
      refine ⟨w', Returns.bind (returns_thread w t) ?_⟩
      rw [if_neg hroom]
      exact Returns.bind hgrow (Returns.pure _ _)

end Machine

/-!
# Values on top of a stack
-/

/-- A thread with more values on top, which is not above its limit. -/
structure Thread.Raised (vs : List Value) (th th' : Thread) : Prop where
  top_eq : th'.top = th.top + vs.length
  below : th.SameBelow th.top th'
  slot_eq : forall i v, vs[i]? = some v -> th'.slot (th.top + i) = v
  limit_eq : th'.limit = th.limit
  fits : th'.top ≤ th'.limit

namespace Thread.Raised

variable {th th' th'' : Thread} {us vs : List Value}

theorem nil (h : th.top ≤ th.limit) : Raised [] th th :=
  ⟨rfl, SameBelow.refl _ _, nofun, rfl, h⟩

theorem trans (h : Raised us th th') (h' : Raised vs th' th'') : Raised (us ++ vs) th th'' := by
  have htop := h.top_eq
  constructor
  case top_eq => rw [h'.top_eq, htop, List.length_append, Nat.add_assoc]
  case below => exact h.below.trans h'.below (by omega)
  case slot_eq =>
    intro i v hv
    rw [List.getElem?_append] at hv
    split at hv
    · rw [h'.below.slot_eq _ (by omega)]
      exact h.slot_eq i v hv
    · have hslot := h'.slot_eq _ v hv
      rw [htop, show th.top + us.length + (i - us.length) = th.top + i by omega] at hslot
      exact hslot
  case limit_eq => exact h'.limit_eq.trans h.limit_eq
  case fits => exact h'.fits

theorem withTop (h : Raised (us ++ vs) th th') {n : Nat} (hn : n + vs.length = th'.top) :
    Raised us th (th'.withTop n) := by
  have htop := h.top_eq
  rw [List.length_append] at htop
  constructor
  case top_eq =>
    show n = th.top + us.length
    omega
  case below => exact ⟨h.below.base_eq, h.below.slot_eq⟩
  case slot_eq =>
    intro i v hv
    refine h.slot_eq i v ?_
    rw [List.getElem?_append_left (List.getElem?_eq_some_iff.mp hv).1]
    exact hv
  case limit_eq => exact h.limit_eq
  case fits => exact Nat.le_trans (by show n ≤ th'.top; omega) h.fits

end Thread.Raised

/-- A world with more values on top of one stack. -/
structure World.Loaded (t : ThreadId) (w : World) (vs : List Value) (w' : World) : Prop where
  rest_eq : w' = w.setThread t (w'.thread t)
  raised : (w.thread t).Raised vs (w'.thread t)

namespace World.Loaded

variable {t : ThreadId} {w w' w'' : World} {us vs : List Value}

theorem ofRaised (hlive : w.liveThread t = true) {th : Thread} (h : (w.thread t).Raised vs th) :
    Loaded t w vs (w.setThread t th) := by
  have hthread := thread_setThread hlive th
  exact ⟨by rw [hthread], by rw [hthread]; exact h⟩

theorem nil (h : (w.thread t).top ≤ (w.thread t).limit) : Loaded t w [] w :=
  ⟨(setThread_thread w t).symm, Thread.Raised.nil h⟩

theorem trans (h : Loaded t w us w') (h' : Loaded t w' vs w'') : Loaded t w (us ++ vs) w'' := by
  refine ⟨?_, h.raised.trans h'.raised⟩
  have hrest := h'.rest_eq
  rw [h.rest_eq, setThread_setThread] at hrest
  exact hrest

theorem live (h : Loaded t w vs w') (hlive : w.liveThread t = true) : w'.liveThread t = true := by
  rw [h.rest_eq, liveThread_setThread]
  exact hlive

theorem heap_tables (h : Loaded t w vs w') : w'.heap.tables = w.heap.tables := by
  rw [h.rest_eq]
  rfl

theorem collector_eq (h : Loaded t w vs w') : w'.collector = w.collector := by
  rw [h.rest_eq]
  rfl

theorem log_eq (h : Loaded t w vs w') : w'.log = w.log := by
  rw [h.rest_eq]
  rfl

/-- Another thread in the place of the one with more values. -/
theorem setThread_eq (h : Loaded t w vs w') (th : Thread) :
    w'.setThread t th = w.setThread t th := by
  conv => lhs; rw [h.rest_eq]
  rw [setThread_setThread]

theorem drop (us vs : List Value) (hlive : w.liveThread t = true) (h : Loaded t w (us ++ vs) w') :
    Loaded t w us (w'.setThread t ((w'.thread t).drop vs.length)) := by
  have htop := h.raised.top_eq
  rw [List.length_append] at htop
  rw [h.setThread_eq]
  exact ofRaised hlive (h.raised.withTop (by omega))

theorem withTables (h : Loaded t w vs w') (s : Store Table) (n : Nat) :
    Loaded t (w.withTables s n) vs (w'.withTables s n) :=
  ⟨congrArg (·.withTables s n) h.rest_eq, h.raised⟩

theorem setLog (h : Loaded t w vs w') (log : List LogRecord) :
    Loaded t (w.setLog log) vs (w'.setLog log) :=
  ⟨congrArg (·.setLog log) h.rest_eq, h.raised⟩

end World.Loaded

namespace Interface

open Machine

variable {t : ThreadId} {w w' : World} {us vs : List Value}

theorem needs_reserve (hlive : w.liveThread t = true) {n : Nat} (hn : n < maxStack) :
    Needs t (reserve t n) w ((w.thread t).top + n) fun _ w' => World.Loaded t w [] w' := by
  have hcheck := needs_checkStack hlive hn
  constructor
  · intro hfits
    rcases hcheck.1 hfits with ⟨th, halike, hlimit, hrun⟩
    refine ⟨(), _, Returns.bind hrun (Returns.pure _ _), World.Loaded.ofRaised hlive ?_⟩
    refine ⟨halike.top_eq, halike.sameBelow _, nofun, hlimit, ?_⟩
    rw [halike.top_eq, hlimit]
    omega
  · intro hover E a w' h
    rcases hcheck.2 hover with ⟨w₁, hrun⟩
    have h := hrun.ok_bind h
    cases h

theorem returns_modifyThread_eq {f : Thread → Thread} {th : Thread} (h : f (w.thread t) = th) :
    Returns (modifyThread t f) w () (w.setThread t th) := by
  rw [← h]
  exact returns_modifyThread w t f

theorem returns_push_loaded (hlive : w.liveThread t = true) (v : Value)
    (hfits : (w.thread t).top + 1 ≤ (w.thread t).limit) :
    exists w', Returns (push t v) w () w' ∧ World.Loaded t w [v] w' := by
  refine ⟨_, returns_push w t v, World.Loaded.ofRaised hlive ?_⟩
  have htopped := (Thread.Alike.refl (w.thread t)).topped v
  refine ⟨htopped.top_eq, htopped.below, fun i u hu => ?_, Thread.limit_push _ v, ?_⟩
  · rcases List.getElem?_eq_some_iff.mp hu with ⟨hi, rfl⟩
    have hi : i = 0 := by
      rw [List.length_singleton] at hi
      omega
    subst hi
    exact htopped.slot_top
  · rw [Thread.limit_push]
    exact hfits

theorem needs_pushNew (hlive : w.liveThread t = true) (v : Value) :
    Needs t (pushNew t v) w ((w.thread t).top + 1) fun _ w' => World.Loaded t w [v] w' := by
  have hone := needs_reserve hlive (n := 1) (by decide)
  constructor
  · intro hfits
    rcases hone.returns hfits with ⟨_, w₁, hrun, hloaded⟩
    have htop := hloaded.raised.top_eq
    rcases returns_push_loaded (hloaded.live hlive) v (by rw [hloaded.raised.limit_eq, htop]; exact hfits) with
      ⟨w₂, hpush, hpushed⟩
    exact ⟨(), w₂, Returns.bind hrun hpush, hloaded.trans hpushed⟩
  · intro hover E a w' h
    rcases ok_bind h with ⟨_, w₁, hreserve, _⟩
    exact hone.stops hover E _ w₁ hreserve

theorem returns_drop_loaded (us vs : List Value) (hlive : w.liveThread t = true)
    (h : World.Loaded t w (us ++ vs) w') :
    exists w'', Returns (drop t vs.length) w' () w'' ∧ World.Loaded t w us w'' :=
  ⟨_, returns_drop w' t vs.length, h.drop us vs hlive⟩

/-- Values that are pushed only to be dropped need room like those that stay. -/
theorem needs_needRoom (hlive : w.liveThread t = true) {n : Nat} (hn : 0 < n) :
    Needs t (needRoom t n) w ((w.thread t).top + n) fun _ w' => World.Loaded t w [] w' := by
  have hpushes : forall (ks : List Nat) (w : World), w.liveThread t = true -> ks ≠ [] ->
      Needs t (ks.forM fun _ => pushNil t) w ((w.thread t).top + ks.length) fun _ w' =>
        World.Loaded t w (ks.map fun _ => .nil) w' := by
    intro ks
    induction ks with
    | nil => exact fun w _ hne => absurd rfl hne
    | cons k ks ih =>
        intro w hlive _
        refine ((needs_pushNew hlive .nil).bind (fun _ _ hloaded => hloaded.raised.limit_eq)
          (n := (w.thread t).top + 1 + ks.length) ?_).of_eq (by rw [List.length_cons]; omega)
        intro _ w' hloaded
        have htop : (w'.thread t).top = (w.thread t).top + 1 := hloaded.raised.top_eq
        cases ks with
        | nil =>
            refine needs_of_returns (Returns.pure () w') ?_ hloaded
            rw [List.length_nil, ← htop]
            exact hloaded.raised.fits
        | cons k' ks =>
            have hrest := ih w' (hloaded.live hlive) (List.cons_ne_nil _ _)
            rw [htop] at hrest
            exact hrest.imp fun _ w'' hmore => hloaded.trans hmore
  have hlength : (List.range n).length = n := List.length_range
  have hall := hpushes (List.range n) w hlive (List.ne_nil_of_length_pos (by omega))
  rw [hlength] at hall
  refine (hall.bind (fun _ _ hloaded => hloaded.raised.limit_eq) (n := (w.thread t).top) ?_).of_eq
    (by omega)
  intro _ w' hloaded
  have hdrop := returns_drop_loaded [] _ hlive hloaded
  rw [List.length_map, hlength] at hdrop
  rcases hdrop with ⟨w'', hdrop, hdropped⟩
  have htop := hloaded.raised.top_eq
  have hfits := hloaded.raised.fits
  exact needs_of_returns hdrop (by omega) hdropped

/-!
# Indices
-/

theorem returns_value_below (w : World) (t : ThreadId) {n : Nat} (hn : 0 < n ∧ n < 1000) :
    Returns (value t (-(n : Int))) w ((w.thread t).slot ((w.thread t).top - n)) w := by
  have hplace : Returns (place t (-(n : Int))) w (.slot ((w.thread t).top - n)) w := by
    refine Returns.bind (returns_thread w t) ?_
    rw [if_neg (by omega), if_pos (by unfold registryIndex; omega),
      show (((w.thread t).top : Int) + -(n : Int)).toNat = (w.thread t).top - n by omega]
    exact Returns.pure _ w
  exact Returns.bind hplace (Returns.bind (returns_thread w t) (Returns.pure _ w))

theorem returns_checkIndex_below {n : Nat} (hn : 0 < n) (h : (w.thread t).base + n ≤ (w.thread t).top) :
    Returns (checkIndex t (-(n : Int))) w () w := by
  apply returns_checkIndex
  have hheight : n ≤ (w.thread t).height := by
    unfold Thread.height
    omega
  unfold validIndex
  rw [Bool.and_eq_true, Bool.or_eq_true, decide_eq_true_eq]
  exact ⟨bne_iff_ne.mpr (by omega), Or.inr (by omega)⟩

theorem returns_pop_loaded (us vs : List Value) (hlive : w.liveThread t = true)
    (hbase : (w.thread t).base ≤ (w.thread t).top) (h : World.Loaded t w (us ++ vs) w') :
    exists w'', Returns (pop t vs.length) w' () w'' ∧ World.Loaded t w us w'' := by
  have htop := h.raised.top_eq
  rw [List.length_append] at htop
  have hheight : vs.length ≤ (w'.thread t).height := by
    unfold Thread.height
    rw [h.raised.below.base_eq]
    omega
  rcases returns_drop_loaded us vs hlive h with ⟨w'', hdrop, hloaded⟩
  refine ⟨w'', Returns.bind (returns_height w' t) ?_, hloaded⟩
  rw [if_neg (by omega)]
  have hset : Returns (setHeight t (-(vs.length : Int) - 1)) w' ()
      (w'.setThread t ((w'.thread t).drop vs.length)) := by
    refine returns_modifyThread_eq ?_
    have hneg : ¬ (-(vs.length : Int) - 1 ≥ 0) := by omega
    have hnew : (((w'.thread t).top : Int) + (-(vs.length : Int) - 1) + 1).toNat =
        (w'.thread t).top - vs.length := by omega
    simp only [if_neg hneg, hnew]
    rw [if_neg (by omega)]
    rfl
  rw [((returns_drop w' t vs.length).unique hdrop).2] at hset
  exact hset

end Interface

end LuaHost
