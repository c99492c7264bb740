import LuaHost.CommandLine.Program
import LuaHost.Proofs.Data.Layout
import LuaHost.Proofs.Interface.Assembling

/-!
# The table of arguments

The host lists the arguments of a script from one on, and keeps the names of the
program and the script under the doubles −1 and 0.  In the machine these are
integer keys again: the table has the integers from −1 to the number of arguments
as its keys, and no others.
-/

namespace LuaHost

namespace Data.Table

/-!
# The list of the host
-/

end Data.Table

namespace Table

/-!
# Writing to consecutive places
-/

/-- The table after values were written to the places from `i` on. -/
def putFrom (T : Table) (i : Nat) : List Value → Table
  | [] => T
  | v :: vs => (T.setNat i v).putFrom (i + 1) vs

theorem ofNat_inj {i j : Nat} (hi : i < 2 ^ 63) (hj : j < 2 ^ 63) (h : Int64.ofNat i = Int64.ofNat j) :
    i = j := by
  have hint := congrArg Int64.toInt h
  rw [Data.Table.toInt_ofNat hi, Data.Table.toInt_ofNat hj] at hint
  exact Int.ofNat.inj hint

/-- The table has an array part for `n` values, and at most `m` of two other nodes are in use. -/
structure Roomy (n m : Nat) (T : Table) : Prop where
  arraySize_eq : T.arraySize = n
  hint_eq : T.hint = n
  capacity_eq : T.capacity = 2
  nodes_le : T.nodes ≤ m
  metatable_eq : T.metatable = none

namespace Roomy

variable {n m : Nat} {T : Table}

theorem withRoom (n : Nat) : Roomy n 0 (Table.withRoom n 2) := ⟨rfl, rfl, rfl, Nat.le_refl 0, rfl⟩

theorem holding (h : T.Roomy n m) (contents : Std.TreeMap Value Value Value.keyCmp) :
    Roomy n m { T with contents } :=
  ⟨h.arraySize_eq, h.hint_eq, h.capacity_eq, h.nodes_le, h.metatable_eq⟩

theorem put_array (h : T.Roomy n m) {k : Value} (hk : T.inArray k = true) (v : Value) :
    (T.put k v).Roomy n m := by
  unfold put
  rw [if_pos hk]
  split
  · exact h.holding _
  · exact h.holding _

theorem putFrom (vs : List Value) (h : T.Roomy n m) (hn : n < 2 ^ 63) {i : Nat} (hi : 1 ≤ i)
    (hfit : i + vs.length ≤ n + 1) : (T.putFrom i vs).Roomy n m := by
  induction vs generalizing T i with
  | nil => exact h
  | cons v vs ih =>
      rw [List.length_cons] at hfit
      have hint : (Int64.ofNat i).toInt = i := Data.Table.toInt_ofNat (by omega)
      have harray : T.inArray (.int (Int64.ofNat i)) = true := by
        unfold inArray
        rw [Bool.and_eq_true, decide_eq_true_eq, decide_eq_true_eq, Int64.le_iff_toInt_le, hint,
          h.arraySize_eq, show (1 : Int64).toInt = 1 by decide]
        omega
      exact ih (h.put_array harray v) (Nat.le_succ_of_le hi) (by omega)

end Roomy

end Table

namespace CommandLine

section Machine

variable {script : String} {arguments : List String}

theorem place_ne {i : Nat} (hi : i + 1 < 2 ^ 63) {k : Int64} (hk : k.toInt < 1) :
    Value.int k ≠ .int (Int64.ofNat (i + 1)) := by
  intro heq
  injection heq with heq
  rw [heq, Data.Table.toInt_ofNat hi] at hk
  omega

end Machine

end CommandLine

end LuaHost
