import LuaHost.Proofs.UserData.Nesting
import LuaHost.Proofs.UserData.Recovery

/-!
# The receiver of an operation

An operator may find its bound value in either of its two operands.  Other
operations have one receiver, which is their first argument: their second one is
a key, an argument of a call or an error object.  All handlers search both
arguments alike, so the receiver answers where it is alive, and where the second
argument has no answer of its own.
-/

namespace LuaHost

/-- The operations whose receiver is their first argument. -/
def MetaMethod.receives : MetaMethod → Bool
  | .index | .newindex | .call | .len | .unm | .bnot | .tostring | .close => true
  | _ => false

namespace World

theorem livingTo_beyond {w : World} {t : ThreadId} {i : Nat} (hpos : 0 < i)
    (h : (w.thread t).height < i) : w.livingTo (w.valueAt t i) = none := by
  have hnowhere : w.placeOf (w.thread t) i = .nowhere := by
    unfold placeOf
    rw [if_pos (by omega), if_neg]
    unfold Thread.height Thread.base at h
    rw [Int.toNat_natCast]
    omega
  unfold valueAt
  rw [hnowhere]
  rfl

/-- The operand of a handler is alive in its first argument, or else in its second. -/
theorem firstLiving_eq (w : World) (t : ThreadId) :
    w.firstLiving t = (w.livingTo (w.valueAt t 1)).or (w.livingTo (w.valueAt t 2)) := by
  unfold firstLiving
  rcases hheight : (w.thread t).height with _ | _ | n
  · have hfirst := w.livingTo_beyond (t := t) (i := 1) (by omega) (by omega)
    have hsecond := w.livingTo_beyond (t := t) (i := 2) (by omega) (by omega)
    exact (congrArg₂ Option.or hfirst hsecond).symm
  · have hsecond := w.livingTo_beyond (t := t) (i := 2) (by omega) (by omega)
    refine Eq.trans ?_ (congrArg (Option.or _) hsecond).symm
    rw [List.take_succ_cons, List.take_zero, List.findSome?_singleton, Option.or_none]
  · rw [List.take_succ_cons, List.take_succ_cons, List.take_nil, List.findSome?_cons,
      List.findSome?_singleton]
    cases w.livingTo (w.valueAt t 1) <;> rfl

end World

namespace Receiving

open Interface Machine Recovery

/-- What a handler answers without a living value: nothing, or a text where one is
asked for. -/
def absent (m : MetaMethod) (t : ThreadId) (w : World) : M Nat :=
  if m = .tostring then do
    pushString t (absentText w t)
    return 1
  else return 0

/-- A handler whose first argument is alive, or whose second one is not, answers
for the first. -/
theorem looks_receiver {w : World} {t : ThreadId} (types : BoundTypes)
    (hlive : w.liveThread t = true) {m : MetaMethod} (hm : m ≠ .gc)
    (h : w.livingTo (w.valueAt t 1) ≠ none ∨ w.livingTo (w.valueAt t 2) = none) :
    exists body, answerOperation types m t = guarded t body ∧
      Looks t 2 body (match w.livingTo (w.valueAt t 1) with
        | some (u, b) => dispatch types m t u b
        | none => absent m t w) w := by
  have hfirst : w.firstLiving t = w.livingTo (w.valueAt t 1) := by
    rw [World.firstLiving_eq]
    rcases h with hreceiver | hsecond
    · rcases Option.ne_none_iff_exists'.mp hreceiver with ⟨ub, hub⟩
      rw [hub, Option.some_or]
    · rw [hsecond, Option.or_none]
  rw [← hfirst]
  exact looks_answerOperation types hlive hm

/-- In every run, the hook of an operation with a receiver is the hook of the value
that was moved into the first argument, and there is no hook once that is
finalized.  This is promised only if the receiver is still there or the second
argument is no bound value itself, as the handlers search that as well. -/
theorem run_received {s : State} (hrun : Run State.opened s) {t : ThreadId}
    (hlive : s.world.liveThread t = true) (types : BoundTypes) {m : MetaMethod}
    (hm : m.receives = true)
    (hsecond : (exists type u x, s.Recoverable (s.world.valueAt t 1) type u x) ∨
      forall type u x, ¬ s.Recoverable (s.world.valueAt t 2) type u x) :
    exists body, answerOperation types m t = guarded t body ∧
      (forall type u x, s.Recoverable (s.world.valueAt t 1) type u x ->
        exists b, b.type = type ∧ b.value = x ∧ Looks t 2 body (dispatch types m t u b) s.world) ∧
      ((forall type u x, ¬ s.Recoverable (s.world.valueAt t 1) type u x) ->
        Looks t 2 body (absent m t s.world) s.world) ∧
      (forall u, s.world.valueAt t 1 = .userdata u -> u ∈ s.finished ->
        Looks t 2 body (absent m t s.world) s.world) := by
  have hinv := inv_run hrun
  have hnot : forall {v : Value}, (forall type u x, ¬ s.Recoverable v type u x) ->
      s.world.livingTo v = none := by
    intro v hv
    refine Option.eq_none_iff_forall_ne_some.mpr fun ⟨u, b⟩ hliving => ?_
    exact hv b.type u b.value (hinv.livingTo_eq_some.mp ⟨b, hliving, rfl, rfl⟩)
  have hgc : m ≠ .gc := by
    rintro rfl
    cases hm
  -- what was moved in and not finalized is what the search finds alive
  have hliving : s.world.livingTo (s.world.valueAt t 1) ≠ none ∨
      s.world.livingTo (s.world.valueAt t 2) = none := by
    rcases hsecond with ⟨type, u, x, hfirst⟩ | hsecond
    · rcases hinv.livingTo_eq_some.mpr hfirst with ⟨b, hb, _⟩
      exact Or.inl (by simp [hb])
    · exact Or.inr (hnot hsecond)
  rcases looks_receiver types hlive hgc hliving with ⟨body, hguarded, hlooks⟩
  have habsent : (forall type u x, ¬ s.Recoverable (s.world.valueAt t 1) type u x) ->
      Looks t 2 body (absent m t s.world) s.world := by
    intro hnone
    rwa [hnot hnone] at hlooks
  refine ⟨body, hguarded, ?_, habsent, ?_⟩
  · intro type u x hfirst
    rcases hinv.livingTo_eq_some.mpr hfirst with ⟨b, hb, htype, hvalue⟩
    rw [hb] at hlooks
    exact ⟨b, htype, hvalue, hlooks⟩
  · intro u hu hfinished
    refine habsent fun type u' x hrecoverable => ?_
    have hsame : u = u' := Value.userdata.inj (hu.symm.trans hrecoverable.value_eq)
    exact hrecoverable.unfinished (hsame ▸ hfinished)

theorem arguments_pushedState :
    pushedState.world.valueAt ⟨0⟩ 1 = .userdata ⟨0⟩ ∧
      pushedState.world.isShared ⟨0⟩ = true ∧
      finishedState.world.valueAt ⟨0⟩ 1 = .userdata ⟨0⟩ ∧
      finishedState.world.valueAt ⟨0⟩ 2 = .nil ∧
      pushedState.world.liveThread ⟨0⟩ = true ∧
      finishedState.world.liveThread ⟨0⟩ = true := by
  decide +kernel

/-- The hook of the pushed value runs until it is finalized, and none afterwards. -/
theorem run_received_pushed :
    (exists body b, answerOperation Stock.types .index ⟨0⟩ = guarded ⟨0⟩ body ∧ b.type = ⟨0⟩ ∧
      Looks ⟨0⟩ 2 body (dispatch Stock.types .index ⟨0⟩ ⟨0⟩ b) pushedState.world) ∧
    exists body, answerOperation Stock.types .index ⟨0⟩ = guarded ⟨0⟩ body ∧
      Looks ⟨0⟩ 2 body (absent .index ⟨0⟩ finishedState.world) finishedState.world := by
  rcases arguments_pushedState with ⟨hfirst, hshared, hfinished, hnil, hlive, hlive'⟩
  have hpush : Step State.opened pushedState := .push (by decide +kernel) Lifetimes.ok_pushedWorld
  have hfinish : Step pushedState finishedState := .finish (by decide +kernel)
  have hrun : Run State.opened pushedState := .single hpush
  have hreceiver : pushedState.Recoverable (pushedState.world.valueAt ⟨0⟩ 1) ⟨0⟩ ⟨0⟩
      (.counter 7) := ⟨hfirst, hshared, List.mem_cons_self .., List.not_mem_nil⟩
  have hkey : forall type u x,
      ¬ finishedState.Recoverable (finishedState.world.valueAt ⟨0⟩ 2) type u x := by
    intro type u x hrecoverable
    cases hnil.symm.trans hrecoverable.value_eq
  constructor
  · rcases run_received hrun hlive Stock.types (m := .index) rfl
      (Or.inl ⟨_, _, _, hreceiver⟩) with ⟨body, hguarded, hanswers, _⟩
    rcases hanswers _ _ _ hreceiver with ⟨b, htype, _, hlooks⟩
    exact ⟨body, b, hguarded, htype, hlooks⟩
  · rcases run_received (hrun.tail hfinish) hlive' Stock.types (m := .index) rfl
      (Or.inr hkey) with ⟨body, hguarded, _, _, habsent⟩
    exact ⟨body, hguarded, habsent _ hfinished (List.mem_cons_self ..)⟩

/-- Two values are pushed, and a script meets both. -/
def meeting (script : String) : M Unit := do
  openMachine true
  let type := Stock.StockType.ops.type
  let _ ← pushUserData ⟨0⟩ type (.ops 1) 0
  setGlobal ⟨0⟩ "a"
  let _ ← pushUserData ⟨0⟩ type (.ops 2) 0
  setGlobal ⟨0⟩ "b"
  let _ ← doString ⟨0⟩ script

/-- The receiver is finalized, and the hook of the living key runs in its place. -/
theorem received_by_key :
    (Nesting.outcome Stock.host (meeting "getmetatable(a).__gc(a) return a[b]")).map (·.2) =
      some ["index#2(userdata,userdata)", "gc#1(userdata)"] := by
  decide +kernel

end Receiving

end LuaHost
