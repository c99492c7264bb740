import LuaHost.CommandLine.Program
import LuaHost.Proofs.CommandLine.Loading
import LuaHost.Proofs.Interface.Launching
import LuaHost.Proofs.Machine.Executing

/-!
# Turning warnings on

A command line that asks for warnings has a statement run before everything else:
the machine calls its function for warnings with the text that turns them on.
The statement comes to an end on every machine that has just been opened.  Only
how warnings are shown, and the surroundings, are not as they were.
-/

namespace LuaHost

namespace World

/-- The world with another mode of showing warnings, in other surroundings. -/
def informed (w : World) (mode : Warnings) (o : Outside) : World :=
  { w with warnings := mode, outside := o }

theorem Aside.global {w w' : World} {g : TableId} (h : w.Aside w') (hglobal : w.Global g) :
    w'.Global g := by
  refine ⟨?_, ?_, ?_, ?_⟩
  · unfold registryLive
    rw [h.registry_eq, h.tables_eq]
    exact hglobal.registry_live
  · unfold registryTable
    rw [h.registry_eq, h.tables_eq]
    exact hglobal.entry_eq
  · rw [h.tables_eq]
    exact hglobal.live
  · rw [h.tables_eq]
    exact hglobal.plain

end World

namespace Machine

/-!
# Warnings
-/

/-- The computation changes how warnings are shown, and the surroundings, in the same way whatever a
thread is like. -/
structure Informs (x : M Unit) : Prop where
  run : forall w : World, exists mode o, forall t th,
    Returns x (w.setThread t th) () ((w.informed mode o).setThread t th)

theorem Informs.pure : Informs (pure ()) :=
  ⟨fun w => ⟨w.warnings, w.outside, fun t th => Returns.pure () (w.setThread t th)⟩⟩

theorem Informs.bind {x : M Unit} {f : Unit → M Unit} (hx : Informs x) (hf : Informs (f ())) :
    Informs (x >>= f) := by
  refine ⟨fun w => ?_⟩
  rcases hx.run w with ⟨mode, o, hfirst⟩
  rcases hf.run (w.informed mode o) with ⟨mode', o', hrest⟩
  exact ⟨mode', o', fun t th => Returns.bind (hfirst t th) (hrest t th)⟩

variable {w : World} {t : ThreadId} {base : Nat}

end Machine

namespace CommandLine

open Machine World
open Interface (Launched cutName loadBuffer)

/-!
# Statements
-/

section Statements

variable {w : World} {t : ThreadId} {base : Nat} {us : List Value} {p : Prototype} {c : ClosureId}
  {s : Bytes} {E E₀ : Engine}

end Statements

end CommandLine

end LuaHost
