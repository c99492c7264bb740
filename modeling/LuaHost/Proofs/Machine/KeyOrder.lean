import LuaHost.Machine.Table
import Mathlib.Data.List.Basic

/-!
# The order of keys inside a table

Keys are compared by their rank and by what they consist of.  Written out as
a list of numbers, a key is determined by its code, and the order of keys is
the lexicographic order of codes; so it is a total order on values.
-/

namespace LuaHost

/-!
# Orders that agree
-/

/-- A map that keeps and reflects the order keeps comparisons. -/
theorem compareOfLessAndEq_map {α β : Type} [LT α] [DecidableLT α] [DecidableEq α] [LT β]
    [DecidableLT β] [DecidableEq β] {f : α → β} (hf : Function.Injective f)
    (hlt : forall a b, f a < f b ↔ a < b) (a b : α) :
    compareOfLessAndEq (f a) (f b) = compareOfLessAndEq a b := by
  unfold compareOfLessAndEq
  by_cases h : a < b
  · rw [if_pos h, if_pos ((hlt a b).mpr h)]
  · rw [if_neg h, if_neg (fun h' => h ((hlt a b).mp h'))]
    by_cases heq : a = b
    · rw [if_pos heq, if_pos (congrArg f heq)]
    · rw [if_neg heq, if_neg (fun h' => heq (hf h'))]

theorem compare_natCast (m n : Nat) : compare (m : Int) (n : Int) = compare m n :=
  compareOfLessAndEq_map (fun _ _ => Int.ofNat_inj.mp) (fun _ _ => Int.ofNat_lt) m n

theorem compare_byte (c d : UInt8) : compare (c.toNat : Int) (d.toNat : Int) = compare c d := by
  rw [compare_natCast]
  exact compareOfLessAndEq_map (fun _ _ => UInt8.toNat_inj.mp)
    (fun _ _ => UInt8.lt_iff_toNat_lt.symm) c d

theorem compare_word (x y : UInt64) : compare (x.toNat : Int) (y.toNat : Int) = compare x y := by
  rw [compare_natCast]
  exact compareOfLessAndEq_map (fun _ _ => UInt64.toNat_inj.mp)
    (fun _ _ => UInt64.lt_iff_toNat_lt.symm) x y

theorem compare_toInt (x y : Int64) : compare x.toInt y.toInt = compare x y :=
  compareOfLessAndEq_map (fun _ _ => Int64.toInt_inj.mp)
    (fun _ _ => Int64.lt_iff_toInt_lt.symm) x y

theorem compare_cons (x y : Int) (xs ys : List Int) :
    compare (x :: xs) (y :: ys) = (compare x y).then (compare xs ys) :=
  List.compareLex_cons_cons

theorem compare_single (x y : Int) : compare [x] [y] = compare x y := by
  rw [compare_cons]
  cases compare x y <;> rfl

/-!
# The order of bytes
-/

namespace Bytes

/-- The bytes of a string as numbers. -/
def digits (s : Bytes) : List Int := s.data.toList.map fun c => (c.toNat : Int)

theorem length_digits (s : Bytes) : (digits s).length = s.size := by
  unfold digits
  rw [List.length_map]
  rfl

theorem digits_inj {a b : Bytes} (h : digits a = digits b) : a = b := by
  have hlist : a.data.toList = b.data.toList := by
    refine List.map_injective_iff.mpr ?_ h
    intro c d hcd
    exact UInt8.toNat_inj.mp (Int.ofNat_inj.mp hcd)
  exact ByteArray.ext (Array.toList_inj.mp hlist)

theorem drop_digits {s : Bytes} {i : Nat} (h : i < s.size) :
    (digits s).drop i = ((s.byteAt i).toNat : Int) :: (digits s).drop (i + 1) := by
  have hlen : i < (digits s).length := by
    rw [length_digits]
    exact h
  rw [List.drop_eq_getElem_cons hlen]
  congr 1
  unfold byteAt
  rw [dif_pos h]
  exact List.getElem_map _

/-- On strings of one length, bytes are compared as lists. -/
theorem compareFrom_eq {a b : Bytes} (hsize : a.size = b.size) (fuel i : Nat)
    (hi : fuel + i = a.size) :
    compareFrom a b i fuel = compare ((digits a).drop i) ((digits b).drop i) := by
  induction fuel generalizing i with
  | zero =>
      have ha : (digits a).drop i = [] := by
        apply List.drop_of_length_le
        rw [length_digits]
        omega
      have hb : (digits b).drop i = [] := by
        apply List.drop_of_length_le
        rw [length_digits]
        omega
      rw [compareFrom, hsize, ha, hb]
      exact @Std.ReflCmp.compare_self _ compare _ _
  | succ fuel ih =>
      rw [compareFrom, drop_digits (by omega), drop_digits (s := b) (by omega)]
      rw [compare_cons, compare_byte]
      cases compare (a.byteAt i) (b.byteAt i) with
      | eq => exact ih (i + 1) (by omega)
      | lt => rfl
      | gt => rfl

theorem cmp_eq {a b : Bytes} (hsize : a.size = b.size) :
    cmp a b = compare (digits a) (digits b) := by
  unfold cmp
  rw [← hsize, Nat.min_self]
  exact compareFrom_eq hsize a.size 0 rfl

end Bytes

/-!
# Codes of native functions
-/

namespace Value

theorem le_stringCode (m : MetaMethod) : 100 ≤ (nativeCode (.string (.arith m))).2 :=
  Nat.le_add_right 100 _

theorem string_inj {f g : StringFn} (h : nativeCode (.string f) = nativeCode (.string g)) :
    f = g := by
  cases f with
  | arith m =>
      have hle := le_stringCode m
      cases g with
      | arith m' =>
          have hm : 100 + m.ctorIdx = 100 + m'.ctorIdx := congrArg Prod.snd h
          rw [← MetaMethod.ofNat_ctorIdx m, Nat.add_left_cancel hm, MetaMethod.ofNat_ctorIdx]
      | _ =>
          rw [h] at hle
          exact absurd hle (by decide)
  | _ =>
      cases g with
      | arith m' =>
          have hle := le_stringCode m'
          rw [← h] at hle
          exact absurd hle (by decide)
      | _ => first
        | rfl
        | exact absurd h (by decide)

theorem nativeCode_fst (f : Native) : (nativeCode f).1 = f.ctorIdx := by
  cases f with
  | string f => cases f <;> rfl
  | _ => rfl

theorem nativeCode_inj {f g : Native} (h : nativeCode f = nativeCode g) : f = g := by
  -- the first part of the code tells the library of a function, and the second its place there
  have hgroup : f.ctorIdx = g.ctorIdx := by rw [← nativeCode_fst, h, nativeCode_fst]
  have hcode := congrArg Prod.snd h
  cases f with
  | base f =>
      cases g with
      | base g => rw [Function.LeftInverse.injective BaseFn.ofNat_ctorIdx hcode]
      | _ => cases hgroup
  | coroutine f =>
      cases g with
      | coroutine g => rw [Function.LeftInverse.injective CoroutineFn.ofNat_ctorIdx hcode]
      | _ => cases hgroup
  | debug f =>
      cases g with
      | debug g => rw [Function.LeftInverse.injective DebugFn.ofNat_ctorIdx hcode]
      | _ => cases hgroup
  | string f =>
      cases g with
      | string g => rw [string_inj h]
      | _ => cases hgroup
  | table f =>
      cases g with
      | table g => rw [Function.LeftInverse.injective TableFn.ofNat_ctorIdx hcode]
      | _ => cases hgroup
  | math f =>
      cases g with
      | math g => rw [Function.LeftInverse.injective MathFn.ofNat_ctorIdx hcode]
      | _ => cases hgroup
  | utf8 f =>
      cases g with
      | utf8 g => rw [Function.LeftInverse.injective Utf8Fn.ofNat_ctorIdx hcode]
      | _ => cases hgroup
  | io f =>
      cases g with
      | io g => rw [Function.LeftInverse.injective IoFn.ofNat_ctorIdx hcode]
      | _ => cases hgroup
  | os f =>
      cases g with
      | os g => rw [Function.LeftInverse.injective OsFn.ofNat_ctorIdx hcode]
      | _ => cases hgroup
  | package f =>
      cases g with
      | package g => rw [Function.LeftInverse.injective PackageFn.ofNat_ctorIdx hcode]
      | _ => cases hgroup
  | metamethod f =>
      cases g with
      | metamethod g => rw [Function.LeftInverse.injective MetaMethod.ofNat_ctorIdx hcode]
      | _ => cases hgroup
  | trampoline =>
      cases g with
      | trampoline => rfl
      | _ => cases hgroup
  | probe =>
      cases g with
      | probe => rfl
      | _ => cases hgroup
  | frame =>
      cases g with
      | frame => rfl
      | _ => cases hgroup

/-!
# The code of a value
-/

/-- What a key is compared by. -/
def keyCode : Value → List Int
  | int i => [i.toInt]
  | str s => s.size :: Bytes.digits s
  | bool b => [b.toNat]
  | float x => [x.bits.toNat]
  | table t => [t.index]
  | closure c => [c.index]
  | userdata u => [u.index]
  | thread t => [t.index]
  | light p => [p.toNat]
  | native f => [(nativeCode f).1, (nativeCode f).2]
  | nil => []

theorem keyCode_inj {a b : Value} (hrank : a.keyRank = b.keyRank) (h : a.keyCode = b.keyCode) :
    a = b := by
  -- keys of one rank have codes of one shape
  have hnat : forall {m n : Nat}, [(m : Int)] = [(n : Int)] -> m = n :=
    fun h => Int.ofNat_inj.mp (List.singleton_inj.mp h)
  cases a with
  | int x =>
      cases b with
      | int y => rw [Int64.toInt_inj.mp (List.singleton_inj.mp h)]
      | _ => cases hrank
  | str x =>
      cases b with
      | str y => rw [Bytes.digits_inj (List.tail_eq_of_cons_eq h)]
      | _ => cases hrank
  | bool x =>
      cases b with
      | bool y =>
          have hxy : x.toNat = y.toNat := hnat h
          cases x <;> cases y <;> first
            | rfl
            | cases hxy
      | _ => cases hrank
  | float x =>
      cases b with
      | float y =>
          rcases x with ⟨x⟩
          rcases y with ⟨y⟩
          have hxy : x = y := UInt64.toNat_inj.mp (hnat h)
          rw [hxy]
      | _ => cases hrank
  | table i =>
      cases b with
      | table j => rw [show i = j from congrArg TableId.mk (hnat h)]
      | _ => cases hrank
  | closure i =>
      cases b with
      | closure j => rw [show i = j from congrArg ClosureId.mk (hnat h)]
      | _ => cases hrank
  | userdata i =>
      cases b with
      | userdata j => rw [show i = j from congrArg UserDataId.mk (hnat h)]
      | _ => cases hrank
  | thread i =>
      cases b with
      | thread j => rw [show i = j from congrArg ThreadId.mk (hnat h)]
      | _ => cases hrank
  | light x =>
      cases b with
      | light y => rw [UInt64.toNat_inj.mp (hnat h)]
      | _ => cases hrank
  | native f =>
      cases b with
      | native g =>
          injection h with hgroup hrest
          rw [nativeCode_inj (Prod.ext (Int.ofNat_inj.mp hgroup) (hnat hrest))]
      | _ => cases hrank
  | nil =>
      cases b with
      | nil => rfl
      | _ => cases hrank

theorem keyCmp_eq (a b : Value) :
    keyCmp a b = (compare a.keyRank b.keyRank).then (compare a.keyCode b.keyCode) := by
  -- keys of different rank are told apart by that, and all others within their kind
  cases a with
  | int x =>
      cases b with
      | int y => exact ((compare_single _ _).trans (compare_toInt x y)).symm
      | _ => rfl
  | str x =>
      cases b with
      | str y =>
          show (compare x.size y.size).then (Bytes.cmp x y) =
            compare ((x.size : Int) :: Bytes.digits x) (y.size :: Bytes.digits y)
          rw [compare_cons, compare_natCast]
          cases hsize : compare x.size y.size with
          | eq => exact Bytes.cmp_eq (Std.LawfulEqOrd.eq_of_compare hsize)
          | lt => rfl
          | gt => rfl
      | _ => rfl
  | bool x =>
      cases b with
      | bool y => cases x <;> cases y <;> rfl
      | _ => rfl
  | float x =>
      cases b with
      | float y => exact ((compare_single _ _).trans (compare_word x.bits y.bits)).symm
      | _ => rfl
  | table i =>
      cases b with
      | table j => exact ((compare_single _ _).trans (compare_natCast i.index j.index)).symm
      | _ => rfl
  | closure i =>
      cases b with
      | closure j => exact ((compare_single _ _).trans (compare_natCast i.index j.index)).symm
      | _ => rfl
  | userdata i =>
      cases b with
      | userdata j => exact ((compare_single _ _).trans (compare_natCast i.index j.index)).symm
      | _ => rfl
  | thread i =>
      cases b with
      | thread j => exact ((compare_single _ _).trans (compare_natCast i.index j.index)).symm
      | _ => rfl
  | light x =>
      cases b with
      | light y => exact ((compare_single _ _).trans (compare_word x y)).symm
      | _ => rfl
  | native f =>
      cases b with
      | native g =>
          show _ = compare [((nativeCode f).1 : Int), (nativeCode f).2]
            [((nativeCode g).1 : Int), (nativeCode g).2]
          rw [compare_cons, compare_single, compare_natCast, compare_natCast]
          rfl
      | _ => rfl
  | nil => cases b <;> rfl

theorem keyCmp_lex : keyCmp = compareLex (compareOn keyRank) (compareOn keyCode) :=
  funext fun a => funext fun b => keyCmp_eq a b

instance : Std.TransCmp keyCmp := by
  rw [keyCmp_lex]
  infer_instance

instance : Std.LawfulEqCmp keyCmp where
  compare_self := by
    intro a
    exact Std.ReflCmp.compare_self
  eq_of_compare := by
    intro a b h
    rw [keyCmp_eq, Ordering.then_eq_eq] at h
    exact keyCode_inj (Std.LawfulEqOrd.eq_of_compare h.1) (Std.LawfulEqOrd.eq_of_compare h.2)

end Value

end LuaHost
