import LuaHost.Data.Number
import LuaHost.Proofs.Numeric.Equality
import Mathlib.Algebra.Order.Field.Power
import Mathlib.Data.Rat.Cast.Order
import Mathlib.Tactic.FieldSimp
import Mathlib.Tactic.Linarith
import Mathlib.Tactic.Positivity

/-!
# The rationals that doubles denote

The absolute value of a finite double depends on its magnitude alone, and grows with it.  So the order
of the bits is the order of the rationals, and a double denotes an integer when its rational is one.
-/

namespace LuaHost

namespace Double

/-- The rational of a magnitude. -/
def size (m : Nat) : ℚ :=
  if m / 2 ^ 52 = 0 then (m % 2 ^ 52 : Nat) * 2 ^ (-1074 : Int)
  else (m % 2 ^ 52 + 2 ^ 52 : Nat) * 2 ^ (((m / 2 ^ 52 : Nat) : Int) - 1075)

/-- The rational of a finite double. -/
def value (x : Double) : ℚ :=
  if x.negative then -(x.significand * 2 ^ x.exponent) else x.significand * 2 ^ x.exponent

/-- The rational that a double denotes; an infinity or a `NaN` denotes none. -/
def rational? (x : Double) : Option ℚ := if x.isFinite then some x.value else none

/-!
# Magnitudes by exponent and significand
-/

/-- A magnitude put together from an exponent and a significand, which may have carried. -/
theorem size_add {p r : Nat} (hhigh : r ≤ 2 ^ 53) (hlow : p = 0 ∨ 2 ^ 52 ≤ r) :
    size (p * 2 ^ 52 + r) = r * 2 ^ ((p : Int) - 1074) := by
  unfold size
  by_cases hsmall : r < 2 ^ 52
  · have hp : p = 0 := by omega
    subst hp
    rw [if_pos (by omega), show (0 * 2 ^ 52 + r) % 2 ^ 52 = r by omega]
    rfl
  · by_cases hcarry : r < 2 ^ 53
    · rw [if_neg (by omega), show (p * 2 ^ 52 + r) / 2 ^ 52 = p + 1 by omega,
        show (p * 2 ^ 52 + r) % 2 ^ 52 + 2 ^ 52 = r by omega]
      congr 2
      omega
    · have hr : r = 2 ^ 53 := by omega
      subst hr
      rw [if_neg (by omega), show (p * 2 ^ 52 + 2 ^ 53) / 2 ^ 52 = p + 2 by omega,
        show (p * 2 ^ 52 + 2 ^ 53) % 2 ^ 52 + 2 ^ 52 = 2 ^ 52 by omega,
        show ((p + 2 : Nat) : Int) - 1075 = ((p : Int) - 1074) + 1 by omega,
        zpow_add_one₀ (by norm_num)]
      push_cast
      ring

theorem exists_parts (m : Nat) :
    exists p r, m = p * 2 ^ 52 + r ∧ r < 2 ^ 53 ∧ (p = 0 ∨ 2 ^ 52 ≤ r) :=
  ⟨m / 2 ^ 52 - 1, m - (m / 2 ^ 52 - 1) * 2 ^ 52, by omega, by omega, by omega⟩

theorem size_zero : size 0 = 0 := by
  unfold size
  simp

theorem size_one : size 1 = 2 ^ (-1074 : Int) := by
  unfold size
  norm_num

theorem size_strictMono : StrictMono size := by
  apply strictMono_nat_of_lt_succ
  intro m
  rcases exists_parts m with ⟨p, r, rfl, hhigh, hlow⟩
  rw [Nat.add_assoc, size_add (by omega) hlow, size_add (by omega) (by omega)]
  have hpos : (0 : ℚ) < 2 ^ ((p : Int) - 1074) := by positivity
  push_cast
  linarith

theorem size_nonneg (m : Nat) : 0 ≤ size m := by
  rw [← size_zero]
  exact size_strictMono.monotone (Nat.zero_le m)

theorem size_magnitude (x : Double) :
    size x.magnitude.toNat = x.significand * 2 ^ x.exponent := by
  rw [significand_eq, exponent_eq]
  unfold size
  by_cases h : x.magnitude.toNat / 2 ^ 52 = 0
  · simp only [if_pos h]
  · simp only [if_neg h]

theorem value_eq (x : Double) :
    x.value = if x.negative then -size x.magnitude.toNat else size x.magnitude.toNat := by
  unfold value
  rw [size_magnitude]

theorem abs_value (x : Double) : |x.value| = x.significand * 2 ^ x.exponent := by
  have hnonneg : (0 : ℚ) ≤ x.significand * 2 ^ x.exponent := by positivity
  unfold value
  cases x.negative with
  | false => exact abs_of_nonneg hnonneg
  | true =>
      simp only [if_true]
      rw [abs_neg]
      exact abs_of_nonneg hnonneg

/-!
# The order of doubles
-/

theorem magnitude_abs (x : Double) : x.abs.magnitude = x.magnitude := by
  have hmag := magnitude_ofParts false (magnitude_lt x)
  rwa [show signBit false ||| x.magnitude = x.magnitude from UInt64.zero_or] at hmag

theorem value_abs (x : Double) : x.abs.value = size x.magnitude.toNat := by
  have hnegative := negative_ofParts false (magnitude_lt x)
  rw [show signBit false ||| x.magnitude = x.magnitude from UInt64.zero_or] at hnegative
  rw [value_eq, magnitude_abs, show x.abs.negative = false from hnegative, if_neg Bool.false_ne_true]

/-- The rational at a place among the doubles. -/
def atRank (i : Int) : ℚ := if i < 0 then -size i.natAbs else size i.natAbs

theorem atRank_lt {i j : Int} (h : i < j) : atRank i < atRank j := by
  unfold atRank
  by_cases hi : i < 0
  · rw [if_pos hi]
    by_cases hj : j < 0
    · rw [if_pos hj]
      exact neg_lt_neg (size_strictMono (by omega))
    · rw [if_neg hj]
      have hpos : size 0 < size i.natAbs := size_strictMono (by omega)
      rw [size_zero] at hpos
      have hnonneg := size_nonneg j.natAbs
      linarith
  · rw [if_neg hi, if_neg (by omega)]
    exact size_strictMono (by omega)

theorem atRank_lt_iff {i j : Int} : atRank i < atRank j ↔ i < j :=
  (show StrictMono atRank from fun _ _ => atRank_lt).lt_iff_lt

theorem atRank_le_iff {i j : Int} : atRank i ≤ atRank j ↔ i ≤ j :=
  (show StrictMono atRank from fun _ _ => atRank_lt).le_iff_le

theorem value_eq_atRank (x : Double) : x.value = atRank x.rank.toInt := by
  rw [value_eq, toInt_rank]
  unfold atRank signed
  cases x.negative with
  | false =>
      simp only [Bool.false_eq_true, if_false]
      rw [if_neg (by omega)]
      rfl
  | true =>
      simp only [if_true, Int.natAbs_neg, Int.natAbs_natCast]
      by_cases h : x.magnitude.toNat = 0
      · rw [h, if_neg (by omega), size_zero, neg_zero]
      · rw [if_pos (by omega)]

section

variable {x y : Double} (hx : x.isFinite = true) (hy : y.isFinite = true)

include hx hy

theorem lt_iff_value_lt : x.lt y = true ↔ x.value < y.value := by
  unfold lt
  rw [not_isNaN_of_isFinite hx, not_isNaN_of_isFinite hy, value_eq_atRank, value_eq_atRank,
    atRank_lt_iff]
  simp [Int64.lt_iff_toInt_lt]

theorem le_iff_value_le : x.le y = true ↔ x.value ≤ y.value := by
  unfold le
  rw [not_isNaN_of_isFinite hx, not_isNaN_of_isFinite hy, value_eq_atRank, value_eq_atRank,
    atRank_le_iff]
  simp [Int64.le_iff_toInt_le]

end

/-!
# Doubles that denote an integer
-/

theorem cast_signed (neg : Bool) (n : Nat) :
    ((signed neg n : Int) : ℚ) = if neg then -(n : ℚ) else n := by
  cases neg with
  | false => exact Int.cast_natCast n
  | true =>
      show ((-(n : Int) : Int) : ℚ) = -(n : ℚ)
      push_cast
      rfl

/-- A finite double whose significand is a multiple of the unit denotes the quotient. -/
theorem value_of_multiple {x : Double} {n : Nat}
    (h : (x.significand : ℚ) * 2 ^ x.exponent = n) : x.value = (signed x.negative n : Int) := by
  unfold value
  rw [cast_signed, h]

theorem toInt?_eq_some_iff {x : Double} {z : Int} :
    x.toInt? = some z ↔ x.rational? = some (z : ℚ) := by
  unfold rational?
  cases hfinite : x.isFinite with
  | false =>
      rw [toInt?_eq_none hfinite]
      simp
  | true =>
      rw [toInt?_eq hfinite, if_pos rfl, Option.some.injEq]
      cases hexp : x.exponent with
      | ofNat k =>
          have hvalue := value_of_multiple (x := x) (n := x.significand * 2 ^ k) (by
            rw [hexp]
            push_cast
            rfl)
          rw [hvalue, Int.cast_inj]
          simp
      | negSucc k =>
          have hunit : (x.significand : ℚ) * 2 ^ x.exponent = x.significand / 2 ^ (k + 1) := by
            rw [hexp, zpow_negSucc]
            rfl
          by_cases hdvd : x.significand % 2 ^ (k + 1) = 0
          · rcases Nat.dvd_of_mod_eq_zero hdvd with ⟨n, hn⟩
            have hvalue := value_of_multiple (x := x) (n := n) (by
              rw [hunit, hn]
              push_cast
              field_simp)
            rw [hvalue, Int.cast_inj, hn]
            simp
          · simp only [if_neg hdvd, Option.map_none]
            constructor
            · exact nofun
            · intro hvalue
              exfalso
              apply hdvd
              have habs := abs_value x
              rw [hvalue, hunit, eq_div_iff (by positivity), ← Int.cast_abs, Int.abs_eq_natAbs,
                Int.cast_natCast] at habs
              -- a value that is an integer makes the significand a multiple of the power
              have hmul : z.natAbs * 2 ^ (k + 1) = x.significand := by exact_mod_cast habs
              rw [← hmul, Nat.mul_mod_left]

end Double

end LuaHost
