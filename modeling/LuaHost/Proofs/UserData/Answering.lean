import LuaHost.Interface.Embedding
import LuaHost.Proofs.Interface.Containing
import LuaHost.Proofs.Interface.Working
import LuaHost.Proofs.UserData.Receiving

/-!
# Answers of bound values

The machine asks the handlers of the shared metatable about two operands.  The
handler passes the operation on to the type of the first of them that is alive.
What the type pushes is the answer, and it reaches the machine if one more call
is possible.
-/

namespace LuaHost

namespace Interface

open Machine

variable {t : ThreadId}

theorem works_boundAt (idx : Int) : Works t (boundAt t idx) := by
  have htest : Works t (testUserData t idx sharedMetatable) := by
    refine (still_checkIndex t idx).moves.bind fun _ => (works_reserve 2).bind fun _ => ?_
    refine (still_value t idx).moves.bind fun v => ?_
    cases v with
    | userdata u => exact (still_hasNamedMetatable _ _).moves.bind fun _ => Moves.pure _
    | light p =>
        dsimp only
        split
        · exact (Moves.pure false).bind fun _ => Moves.pure _
        · exact (still_hasNamedMetatable _ _).moves.bind fun _ => Moves.pure _
    | _ => exact (Moves.pure false).bind fun _ => Moves.pure _
  refine htest.bind fun v => ?_
  split
  · exact (still_blockOf _).moves.bind fun _ => Moves.pure _
  · exact Moves.pure _

theorem works_toUserData (type : HostType) (idx : Int) : Works t (toUserData t type idx) := by
  refine (works_boundAt idx).bind fun b => ?_
  cases b <;> exact Moves.pure _

theorem works_findBound (idxs : List Int) : Works t (findBound t idxs) := by
  induction idxs with
  | nil => exact Moves.pure _
  | cons i is ih =>
      refine (works_boundAt i).bind fun b => ?_
      cases b with
      | none => exact ih
      | some ub =>
          dsimp only
          split
          · exact Moves.pure _
          · exact ih

end Interface

/-!
# What is left on a stack
-/

namespace Machine

variable {w w' : World} {t : ThreadId}

theorem Looks.finds {α : Type} {n : Nat} {x : M α} {a : α} (h : Looks t n x (pure a) w)
    (hworks : Works t x) (hlive : w.liveThread t = true) (hready : (w.thread t).Ready n) :
    exists th, (w.thread t).Looked th ∧ (w.thread t).Worked th ∧
      Returns x w a (w.setThread t th) := by
  rcases h with ⟨th, hlooked, hrun⟩ | ⟨hnot, _⟩
  · have hreturns : Returns x w a (w.setThread t th) := fun E => hrun E
    have hworked := (hworks.run hlive
      (hreturns ⟨fun _ _ _ _ => throw .exhausted, fun _ _ _ => throw .exhausted⟩)).2
    rw [World.thread_setThread hlive] at hworked
    exact ⟨th, hlooked, hworked, hreturns⟩
  · exact absurd hready hnot

theorem answers_topped {v : Value} {th : Thread} (hlive : w.liveThread t = true)
    (hworked : (w.thread t).Worked th) (h : (w.thread t).Topped v th) :
    Answers t w [v] (w.setThread t th) := by
  have hthread := World.thread_setThread hlive th
  refine ⟨(World.liveThread_setThread w t t th).trans hlive, ?_, ?_, ?_, ?_⟩
  · rw [hthread]
    exact hworked
  · rw [hthread]
    exact h.top_eq
  · rw [hthread]
    exact h.below.slot_eq
  · rw [hthread]
    show [th.slot (w.thread t).top] = _
    rw [h.slot_top]

theorem answers_nothing (hlive : w.liveThread t = true) : Answers t w [] w :=
  ⟨hlive, Thread.Worked.refl _, rfl, fun _ _ => rfl, rfl⟩

/-- What the code has done after a look, it has done since before it. -/
theorem Answers.since {th : Thread} {rs : List Value} (h : Answers t (w.setThread t th) rs w')
    (hlive : w.liveThread t = true) (halike : (w.thread t).Alike th)
    (hworked : (w.thread t).Worked th) : Answers t w rs w' := by
  have hworked' := h.worked
  have htop := h.top_eq
  have hbelow := h.below
  have hresults := h.results
  rw [World.thread_setThread hlive] at hworked' htop hbelow hresults
  rw [halike.top_eq] at htop hbelow hresults
  exact ⟨h.live, hworked.trans hworked', htop,
    fun i hi => (hbelow i hi).trans (halike.slot_eq i), hresults⟩

end Machine

/-!
# Handlers
-/

namespace World

/-- The metatable of a value. -/
def metatable? (w : World) : Value → Option TableId
  | .table i => (w.heap.tables.get i.index).metatable
  | .userdata u => (w.userdata u).metatable
  | v => w.kindMetatables.lookup v.kind

/-- The handler that a value has for an event; `nil` if it has none. -/
def handler (w : World) (v : Value) (e : Event) : Value :=
  match w.metatable? v with
  | some m => (w.heap.tables.get m.index).getStr e.field
  | none => .nil

/-- The shared metatable has the handlers of all operations. -/
def Furnished (w : World) : Prop :=
  forall m, w.shared = .table m -> forall k : MetaMethod,
    (w.heap.tables.get m.index).getStr k.field.toUTF8 = .native (.metamethod k)

theorem Furnished.handler_eq {w : World} (h : w.Furnished) {u : UserDataId}
    (hshared : w.isShared u = true) {e : Event} {k : MetaMethod} (hfield : e.field = k.field.toUTF8) :
    w.handler (.userdata u) e = .native (.metamethod k) := by
  rcases isShared_iff.mp hshared with ⟨m, hm, htable⟩
  unfold handler metatable?
  dsimp only
  rw [hm]
  dsimp only
  rw [hfield]
  exact h m htable k

end World

theorem Machine.returns_metaEvent (w : World) (v : Value) (e : Event) :
    Returns (metaEvent v e) w (w.handler v e) w := by
  have hmetatable : Returns (metatableOf v) w (w.metatable? v) w := by
    cases v <;> exact fun _ => rfl
  refine Returns.bind hmetatable ?_
  unfold World.handler
  cases w.metatable? v with
  | none => exact Returns.pure _ w
  | some m => exact fun _ => rfl

/-- The shared metatable has all handlers once it is there. -/
theorem Interface.furnished_pushSharedMetatable {w w' : World} {t : ThreadId}
    (hlive : w.liveThread t = true) (hregistry : w.heap.tables.live w.registry.index = true)
    (hready : w.shared = .nil ∨ w.Furnished ∧ w.shared ≠ .nil) {E : Engine}
    (h : pushSharedMetatable t E w = .ok () w') : w'.Furnished := by
  rcases hready with hnone | ⟨hfurnished, hold⟩
  · rcases ok_pushSharedMetatable_new hlive hregistry hnone h with
      ⟨th, s, allocated, lg, _, rfl, hready, _, _, _, hfields⟩
    intro m hm k
    cases hready.shared_eq.symm.trans hm
    exact hfields k
  · rcases ok_pushSharedMetatable_old hlive hold h with ⟨th, _, rfl⟩
    exact hfurnished

namespace Interface

open Machine Suspending

/-!
# Questions
-/

/-- A handler has two operands to answer for, and room to look at them. -/
structure Asked (t : ThreadId) (x y : Value) (w : World) : Prop where
  live : w.liveThread t = true
  height_eq : (w.thread t).height = 2
  first : w.valueAt t 1 = x
  second : w.valueAt t 2 = y
  ready : (w.thread t).Ready 2

variable {t : ThreadId} {x y : Value} {w : World}

theorem Asked.looked (h : Asked t x y w) {th : Thread} (hlooked : (w.thread t).Looked th) :
    Asked t x y (w.setThread t th) := by
  have hthread := World.thread_setThread h.live th
  refine ⟨(World.liveThread_setThread w t t th).trans h.live, ?_, ?_, ?_, ?_⟩
  · rw [hthread]
    unfold Thread.height
    rw [hlooked.top_eq, hlooked.base_eq]
    exact h.height_eq
  · rw [World.valueAt_alike hlooked.toAlike]
    exact h.first
  · rw [World.valueAt_alike hlooked.toAlike]
    exact h.second
  · rw [hthread]
    exact hlooked.ready 2 h.ready

theorem asked_handles (hlive : w.liveThread t = true) {th : Thread}
    (h : (w.thread t).Handles [x, y] th) : Asked t x y (w.setThread t th) := by
  have hthread := World.thread_setThread hlive th
  have hbase : th.frame.func + 1 = (w.thread t).top + 1 := h.base_eq
  have htop : th.top = (w.thread t).top + 1 + 2 := h.top_eq
  have hvalue (i : Nat) (v : Value) (hi : i < 2) (hv : [x, y][i]? = some v) :
      (w.setThread t th).valueAt t ((i : Int) + 1) = v := by
    unfold World.valueAt World.placeOf
    rw [hthread, if_pos (by omega), if_pos (by omega)]
    show th.slot (th.frame.func + ((i : Int) + 1).toNat) = v
    rw [← h.arg_eq i v hv]
    congr 1
    omega
  refine ⟨(World.liveThread_setThread w t t th).trans hlive, ?_, hvalue 0 x (by omega) rfl,
    hvalue 1 y (by omega) rfl, ?_⟩
  · rw [hthread]
    unfold Thread.height Thread.base
    omega
  · rw [hthread]
    exact h.ready (by decide)

theorem Asked.readyOne (h : Asked t x y w) : (w.thread t).Ready 1 := by
  have hready := Thread.ready_iff.mp h.ready
  exact Thread.ready_iff.mpr (by omega)

theorem answers_pushNew (hlive : w.liveThread t = true) (hready : (w.thread t).Ready 1) (v : Value) :
    exists th, Returns (pushNew t v) w () (w.setThread t th) ∧
      Answers t w [v] (w.setThread t th) := by
  rcases (looks_reserve hlive (by decide)).finds (works_reserve 1) hlive hready with
    ⟨th, hlooked, hworked, hreserve⟩
  have hpush := returns_push (w.setThread t th) t v
  rw [World.thread_setThread hlive, World.setThread_setThread] at hpush
  have hrun : Returns (pushNew t v) w () (w.setThread t (th.push v)) := Returns.bind hreserve hpush
  have hworked' := ((works_pushNew v).run hlive
    (hrun ⟨fun _ _ _ _ => throw .exhausted, fun _ _ _ => throw .exhausted⟩)).2
  rw [World.thread_setThread hlive] at hworked'
  exact ⟨_, hrun, answers_topped hlive hworked' (hlooked.toAlike.topped v)⟩

theorem Asked.finds (h : Asked t x y w) :
    exists th, (w.thread t).Looked th ∧ (w.thread t).Worked th ∧
      Returns (findBound t [1, 2]) w ((w.livingTo x).or (w.livingTo y)) (w.setThread t th) := by
  have hvalid : forall i, i ∈ ([1, 2] : List Int) -> validIndex (w.thread t).height i = true := by
    intro i hi
    simp only [List.mem_cons, List.not_mem_nil, or_false] at hi
    rcases hi with rfl | rfl <;> rfl
  have hor : ([1, 2] : List Int).findSome? (fun i => w.livingTo (w.valueAt t i)) =
      (w.livingTo x).or (w.livingTo y) := by
    rw [List.findSome?_cons, List.findSome?_singleton, h.first, h.second]
    cases w.livingTo x <;> rfl
  rw [← hor]
  exact (looks_findBound h.live hvalid).finds (works_findBound [1, 2]) h.live h.ready

theorem ends_guarded {body : M Nat} {E : Engine} {Q : Nat → World → Prop} {P : Prop}
    (h : Ends body E w Q fun _ => P) : Ends (guarded t body) E w Q fun _ => P := by
  rcases ends_iff.mp h with ⟨hreturns, hfails⟩
  refine ends_iff.mpr ⟨fun n w' hrun => hreturns n w' (ok_guarded hrun), fun r w' hrun => ?_⟩
  cases hbody : body E w with
  | ok n w₁ =>
      rw [guarded_of_ok hbody] at hrun
      cases hrun
  | error r' w₁ => exact hfails r' w₁ hbody

/-- Handlers answer with what the type of their first living operand leaves. -/
theorem ends_operation {e : Embedding} {E E₀ : Engine} (hE : E.Calls e.host E₀)
    {m : MetaMethod} (hgc : m ≠ .gc) (htext : m ≠ .tostring) {u : UserDataId} {b : Block} {P : Prop}
    {Q : Value → World → Prop}
    (hlive : w.liveThread t = true) (hquiet : (w.thread t).hook.active = false)
    (hliving : (w.livingTo x).or (w.livingTo y) = some (u, b))
    (hperform : forall th, Asked t x y (w.setThread t th) -> th.top = (w.thread t).top + 3 ->
      Ends ((e.types b.type).perform m u t) E₀ (w.setThread t th)
        (fun n w' => exists rs, rs.length = n ∧ Answers t (w.setThread t th) rs w' ∧
          Q (rs.headD .nil) w')
        fun _ => ¬ P) :
    Ends (callHandler t (.native (.metamethod m)) [x, y]) E w
      (fun v w' => exists w₁ th, Q v w₁ ∧ w' = w₁.setThread t th ∧ (w.thread t).Unmoved th)
      fun _ => ¬ (P ∧ (w.thread t).Affords 3) := by
  refine ends_callHandler hE hlive hquiet fun th hhandles => ?_
  have hasked := asked_handles hlive hhandles
  have hoperands : Returns (operands t) (w.setThread t th) [1, 2] (w.setThread t th) := by
    refine Returns.bind (returns_height _ t) ?_
    rw [hasked.height_eq]
    exact Returns.pure _ _
  rcases hasked.finds with ⟨th', hlooked, hworked, hfound⟩
  rw [World.livingTo_setThread, World.livingTo_setThread, hliving, World.setThread_setThread] at hfound
  have hasked' := hasked.looked hlooked
  rw [World.setThread_setThread] at hasked'
  have hdispatch : dispatch e.types m t u b = (e.types b.type).perform m u t := by
    cases m with
    | gc => exact absurd rfl hgc
    | tostring => exact absurd rfl htext
    | _ => rfl
  have htop : th'.top = (w.thread t).top + 3 := by
    rw [hlooked.top_eq, World.thread_setThread hlive, hhandles.top_eq]
    rfl
  have hbody : Ends (Containing.answering e.types m t) E₀ (w.setThread t th)
      (fun n w' => exists rs, rs.length = n ∧ Answers t (w.setThread t th) rs w' ∧
        Q (rs.headD .nil) w') fun _ => ¬ P := by
    unfold Containing.answering
    split
    · exact absurd rfl hgc
    · refine Ends.after hoperands (Ends.after hfound ?_)
      dsimp only
      rw [hdispatch]
      refine (hperform th' hasked' htop).imp ?_ fun _ h => h
      rintro n w' ⟨rs, hn, hanswers, hQ⟩
      rw [← World.setThread_setThread w t th th'] at hanswers
      exact ⟨rs, hn, hanswers.since hasked.live hlooked.toAlike hworked, hQ⟩
  show Ends (answerOperation e.types m t) E₀ _ _ _
  rw [Containing.answerOperation_eq]
  exact ends_guarded hbody

end Interface

end LuaHost
