import LuaHost.Proofs.CommandLine.ArgumentTable
import LuaHost.Proofs.CommandLine.Grammar
import LuaHost.Proofs.CommandLine.Starting
import LuaHost.Proofs.CommandLine.Warning

/-!
# Scripts and their arguments

The words behind the name of a script reach it in two ways: in the table of
arguments, which is the first thing that is made when a machine has been opened,
and as the arguments of its main function.
-/

namespace LuaHost

/-!
# Globals
-/

namespace World

variable {t : ThreadId} {w w' : World} {us vs : List Value} {u v : Value}

namespace Loaded

theorem split (hlive : w.liveThread t = true) (h : Loaded t w (us ++ vs) w') :
    exists w₁, Loaded t w us w₁ ∧ Loaded t w₁ vs w' := by
  have hfirst := h.drop us vs hlive
  have hlive' := h.live hlive
  have hthread := thread_setThread hlive' ((w'.thread t).drop vs.length)
  have htop := h.raised.top_eq
  rw [List.length_append] at htop
  refine ⟨_, hfirst, ?_, ?_⟩
  · rw [setThread_setThread, setThread_thread]
  · have hlow : ((w'.thread t).drop vs.length).top = (w.thread t).top + us.length := by
      show (w'.thread t).top - vs.length = _
      omega
    rw [hthread]
    constructor
    case top_eq =>
      rw [hlow]
      omega
    case below => exact ⟨rfl, fun _ _ => rfl⟩
    case slot_eq =>
      intro i v hv
      rw [hlow, Nat.add_assoc]
      apply h.raised.slot_eq
      rw [List.getElem?_append_right (Nat.le_add_right _ _), Nat.add_sub_cancel_left]
      exact hv
    case limit_eq => rfl
    case fits => exact h.raised.fits

theorem swap (hlive : w.liveThread t = true) (h : Loaded t w [u, v] w') :
    Loaded t w [v, u] (w'.setThread t (w'.thread t).swapTop) := by
  have htop : (w'.thread t).top = (w.thread t).top + 2 := h.raised.top_eq
  have hplace : (w'.thread t).top - 2 = (w.thread t).top := by omega
  have hfirst : (w'.thread t).slot (w.thread t).top = u := h.raised.slot_eq 0 u rfl
  have hsecond : (w'.thread t).slot ((w.thread t).top + 1) = v := h.raised.slot_eq 1 v rfl
  have hslot := Thread.slot_swapTop (w'.thread t)
  rw [hplace, hfirst, hsecond] at hslot
  have hlimit : (w'.thread t).swapTop.limit = (w'.thread t).limit :=
    Thread.limit_congr (Thread.room_swapTop _)
  rw [h.setThread_eq]
  apply ofRaised hlive
  constructor
  case top_eq => exact (Thread.top_swapTop _).trans htop
  case below =>
    refine ⟨(Thread.base_swapTop _).trans h.raised.below.base_eq, fun i hi => ?_⟩
    rw [hslot, if_neg (by omega), if_neg (by omega)]
    exact h.raised.below.slot_eq i hi
  case slot_eq =>
    intro i x hx
    match i, hx with
    | 0, hx =>
        rw [hslot, if_neg (by omega), if_pos (Nat.add_zero _).symm]
        exact Option.some.inj hx
    | 1, hx =>
        rw [hslot, if_pos rfl]
        exact Option.some.inj hx
  case limit_eq => exact hlimit.trans h.raised.limit_eq
  case fits =>
    rw [Thread.top_swapTop, hlimit]
    exact h.raised.fits

end Loaded

theorem Global.loaded {g : TableId} (h : w.Global g) (hloaded : Loaded t w vs w') : w'.Global g := by
  rw [hloaded.rest_eq]
  exact ⟨h.registry_live, h.entry_eq, h.live, h.plain⟩

end World

namespace Interface

open Assembling Machine

variable {t : ThreadId} {w w₁ : World} {g : TableId} {x : Value}

end Interface

/-!
# The table of arguments in the machine
-/

namespace CommandLine

open Assembling Interface Machine

section Making

variable {s : Store Table} {n : Nat} {script : String} {arguments : List String}

end Making


/-!
# The global table of arguments
-/

section Offering

variable {E E₀ : Engine} {o : Options} {w w' : World} {g : TableId} {script : String}
  {arguments : List String}

end Offering

/-!
# The main function
-/

section Passing

variable {t : ThreadId} {base : Nat} {us : List Value} {w : World} {p : Prototype} {chunk : Bytes}
  {name : String} {arguments : List String}

end Passing

/-!
# From the command line to the script
-/

section Reaching

variable {E E₀ : Engine} {words : List String} {o : Options} {script : String}

end Reaching

end CommandLine

end LuaHost
