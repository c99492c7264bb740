import LuaHost.Proofs.Interface.Assembling
import LuaHost.Proofs.Interface.Resolving
import LuaHost.Proofs.Interface.RoundTrip
import LuaHost.Proofs.Interface.Standing
import LuaHost.Proofs.Numeric.Integral

/-!
# Integers on both sides

The host decides with two comparisons whether a double is an integer, the machine with exact
arithmetic.  A number that the host pushes is an integer for the machine exactly if it is one for the
host, and both are right about the rational that it denotes.
-/

namespace LuaHost

/-!
# Indices of a slot in use
-/

namespace World

open Machine Interface

variable {w : World} {t : ThreadId} {base : Nat} {us vs : List Value} {v : Value} {idx : Int}

theorem Stands.denotes (h : w.Stands t base (us ++ v :: vs))
    (hvalid : validIndex (w.thread t).height idx = true)
    (hplace : Returns (place t idx) w (.slot (base + us.length)) w) : w.Denotes t idx v := by
  have hplaceOf := ((returns_place w t idx).unique hplace).1
  have hslot : (w.thread t).slot (base + us.length) = v := by
    apply h.shows.slot_eq
    rw [List.getElem?_append_right (Nat.le_refl _), Nat.sub_self]
    rfl
  refine ⟨hvalid, ?_⟩
  unfold World.value? World.valueAt
  rw [hplaceOf, if_neg nofun]
  exact congrArg some hslot

theorem Stands.denotes_last (h : w.Stands t base (us ++ [v])) : w.Denotes t (-1) v := by
  apply h.denotes _ (returns_place_last h)
  rw [validIndex_iff, h.shows.height_eq, List.length_append, List.length_singleton]
  omega

theorem Stands.denotes_above (h : w.Stands t base (us ++ v :: vs)) :
    w.Denotes t ((us.length : Int) + 1) v := by
  apply h.denotes _ (returns_place_above h)
  rw [validIndex_iff]
  omega

end World

/-- The machine takes a number for an integer exactly if the host does. -/
theorem Value.toInt64?_ofNumber (n : Number) : (Value.ofNumber n).toInt64? = n.toInt64? := by
  cases n with
  | int i => rfl
  | float x => exact (Number.toInt64?_float x).symm

namespace Interface

open Machine World

variable {w : World} {t : ThreadId} {idx : Int} {v : Value}

theorem returns_toInteger (h : w.Denotes t idx v) : Returns (toInteger t idx) w v.toInt64? w :=
  Returns.bind (returns_checkIndex h.valid)
    (Returns.bind (returns_value_denoted h) (Returns.pure _ w))

theorem returns_ofHost_number (n : Number) (w : World) :
    Returns (ofHost (.number n)) w (Value.ofNumber n) w := by
  cases n with
  | int i =>
      rw [ofHost]
      exact Returns.pure _ w
  | float x =>
      rw [ofHost]
      exact Returns.pure _ w

/-- A number is a 64-bit integer for the host exactly if it denotes one, and the number that the host
pushes is the same integer for the machine, wherever its slot is counted from. -/
theorem integers_agree (n : Number) (hlive : w.liveThread t = true)
    (hbase : (w.thread t).base ≤ (w.thread t).top) :
    (forall k : Int, (exists i, n.toInt64? = some i ∧ i.toInt = k) ↔
      n.rational? = some (k : ℚ) ∧ -2 ^ 63 ≤ k ∧ k < 2 ^ 63) ∧
    (Data.Value.number n).asInteger? = n.toInt64? ∧
    Needs t (pushHost t (.number n)) w ((w.thread t).top + 1) fun _ w' =>
      Returns (toInteger t (-1)) w' n.toInt64? w' ∧
        Returns (toInteger t ((w.thread t).height + 1)) w' n.toInt64? w' := by
  refine ⟨n.toInt64?_eq_some_iff, rfl, ?_⟩
  have hscalar : forall T, Data.Value.number n = .table T -> T.Every Assembling.Portable := by
    intro T hT
    cases hT
  refine (Assembling.needs_pushHost hscalar hlive hbase).imp ?_
  rintro _ w' ⟨x, s, m, hbuilds, _, hloaded⟩
  have hx : x = Value.ofNumber n :=
    ((hbuilds w rfl rfl).unique (returns_ofHost_number n w)).1
  subst hx
  have hstands : w'.Stands t (w.thread t).base ((w.thread t).values ++ [Value.ofNumber n]) :=
    Stands.loaded (w := w.withTables s m) (stands_values hlive hbase) hloaded
  have hlast := returns_toInteger hstands.denotes_last
  have habove := returns_toInteger hstands.denotes_above
  rw [Value.toInt64?_ofNumber] at hlast habove
  rw [← (Thread.shows_values hbase).height_eq] at habove
  exact ⟨hlast, habove⟩

/-- The double `-2 ^ 63` is the least integer. -/
theorem integers_agree_least :
    exists w', Returns (pushHost ⟨0⟩ (.number (.float Number.leastInt64))) emptyStack () w' ∧
      Returns (toInteger ⟨0⟩ (-1)) w' (some Int64.minValue) w' := by
  have hleast : Number.toInt64? (.float Number.leastInt64) = some Int64.minValue := by decide
  have hagree := integers_agree (w := emptyStack) (t := ⟨0⟩) (.float Number.leastInt64) rfl (by decide)
  rcases hagree.2.2.returns (by decide) with ⟨_, w', hpush, hlast, _⟩
  rw [hleast] at hlast
  exact ⟨w', hpush, hlast⟩

end Interface

end LuaHost
