import LuaHost.Proofs.Numeric.Nearest

/-!
# Doubles without a fraction

A double has nothing after the point exactly if it denotes an integer, and it is cut to that integer.
The bounds of the 64-bit integers are doubles, so the comparison with them is exact, and the number
that passes it is the integer that the double denotes.
-/

namespace LuaHost

namespace Double

/-!
# The fraction
-/

theorem isZero_ofParts (neg : Bool) {mag : UInt64} (h : mag.toNat < 2 ^ 63) :
    (⟨signBit neg ||| mag⟩ : Double).isZero = true ↔ mag.toNat = 0 := by
  rw [isZero_iff_magnitude, magnitude_ofParts neg h]

/-- A quotient that is at least the least positive double is not rounded to zero. -/
theorem isZero_ofQuotient (neg : Bool) {num den : Nat} (hnum : num ≠ 0) (hden : 0 < den)
    (h : size 1 ≤ (num : ℚ) / den) : (ofQuotient neg num den).isZero = false := by
  rcases rounds_ofQuotient hnum hden neg with ⟨m, hrounds, heq⟩
  have hm : m ≠ 0 := by
    rintro rfl
    have hhigh := hrounds.high
    have hpos : size 0 < size 1 := size_strictMono Nat.zero_lt_one
    rw [size_zero] at hhigh hpos
    linarith
  rw [Bool.eq_false_iff, heq]
  by_cases hfinite : m < infinityBits.toNat
  · have hlt : m < 2 ^ 63 := Nat.lt_trans hfinite (by decide)
    have hself : m.toUInt64.toNat = m := UInt64.toNat_ofNat_of_lt' (Nat.lt_trans hlt (by decide))
    rw [if_pos hfinite, ne_eq, isZero_ofParts neg (hself.symm ▸ hlt), hself]
    exact hm
  · rw [if_neg hfinite, ne_eq, isZero_ofParts neg (by decide)]
    decide

theorem isZero_fraction (x : Double) : x.fraction.isZero = x.toInt?.isSome := by
  cases hfinite : x.isFinite with
  | false =>
      rw [toInt?_eq_none hfinite]
      unfold fraction
      cases hnan : x.isNaN with
      | true =>
          -- a `NaN` has a magnitude, and so is no zero
          rw [isNaN_iff] at hnan
          rw [if_pos rfl, Option.isSome_none, ← Bool.not_eq_true, isZero_iff_magnitude]
          omega
      | false =>
          have hinfinite : x.isInfinite = true := by
            rw [← Bool.not_eq_true, isFinite_iff] at hfinite
            rw [← Bool.not_eq_true, isNaN_iff] at hnan
            rw [isInfinite_iff]
            omega
          rw [if_neg Bool.false_ne_true, if_pos hinfinite]
          rfl
  | true =>
      have hexponent : -1074 ≤ x.exponent := by
        rw [exponent_eq]
        split <;> omega
      unfold fraction
      rw [not_isNaN_of_isFinite hfinite, not_isInfinite_of_isFinite hfinite, toInt?_eq hfinite, Option.isSome_map]
      simp only [Bool.false_eq_true, if_false]
      cases hexp : x.exponent with
      | ofNat k =>
          show zero.isZero = true
          decide
      | negSucc k =>
          simp only [Nat.one_shiftLeft, beq_iff_eq]
          -- what is cut off is at least one unit of the last place, and no double that large is
          -- rounded to zero
          by_cases hrest : x.significand % 2 ^ (k + 1) = 0
          · rw [if_pos hrest, if_pos hrest]
            rfl
          · rw [if_neg hrest, if_neg hrest]
            apply isZero_ofQuotient x.negative hrest (Nat.two_pow_pos _)
            rw [hexp] at hexponent
            have hone : (1 : ℚ) ≤ (x.significand % 2 ^ (k + 1) : Nat) := by
              exact_mod_cast Nat.pos_of_ne_zero hrest
            have hunit : (2 : ℚ) ^ (-1074 : Int) ≤ 2 ^ (-((k + 1 : Nat) : Int)) :=
              zpow_le_zpow_right₀ (by norm_num) (by omega)
            rw [size_one, Nat.cast_pow, Nat.cast_ofNat, le_div_iff₀ (by positivity)]
            calc (2 : ℚ) ^ (-1074 : Int) * 2 ^ (k + 1)
                ≤ 2 ^ (-((k + 1 : Nat) : Int)) * 2 ^ (k + 1) :=
                  mul_le_mul_of_nonneg_right hunit (by positivity)
              _ = 1 := by
                  rw [zpow_neg, zpow_natCast, inv_mul_cancel₀ (by positivity)]
              _ ≤ _ := hone

/-!
# Cutting
-/

theorem signed_wholePart {x : Double} {z : Int} (h : x.toInt? = some z) :
    signed x.negative x.wholePart = z := by
  rw [toInt?_eq (isFinite_of_toInt? h)] at h
  unfold wholePart
  cases hexp : x.exponent with
  | ofNat k =>
      rw [hexp] at h
      show signed x.negative (x.significand <<< k) = z
      rw [Nat.shiftLeft_eq]
      exact Option.some.inj h
  | negSucc k =>
      rw [hexp] at h
      show signed x.negative (x.significand >>> (k + 1)) = z
      rw [Nat.shiftRight_eq_div_pow]
      by_cases hrest : x.significand % 2 ^ (k + 1) = 0
      · simp only [if_pos hrest] at h
        exact Option.some.inj h
      · simp only [if_neg hrest] at h
        cases h

/-- A double that denotes a 64-bit integer is cut to that integer. -/
theorem toInt_truncate {x : Double} {z : Int} (h : x.toInt? = some z) (hlow : -2 ^ 63 ≤ z)
    (hhigh : z < 2 ^ 63) : x.truncate.toInt = z := by
  have hwhole : (if x.negative = true then -(x.wholePart : Int) else x.wholePart) = z :=
    signed_wholePart h
  unfold truncate
  simp only [not_isNaN_of_isFinite (isFinite_of_toInt? h), Bool.false_eq_true, if_false, hwhole]
  rw [show max (-0x8000000000000000) (min z 0x7fffffffffffffff) = z by omega]
  exact Int64.toInt_ofInt_of_le hlow hhigh

/-!
# Integers of 64 bits
-/

theorem value_of_toInt? {x : Double} {z : Int} (h : x.toInt? = some z) : x.value = z := by
  have hrational := toInt?_eq_some_iff.mp h
  unfold rational? at hrational
  rw [if_pos (isFinite_of_toInt? h)] at hrational
  exact Option.some.inj hrational

theorem toInt64?_eq_some_iff {x : Double} {i : Int64} :
    x.toInt64? = some i ↔ x.toInt? = some i.toInt := by
  constructor
  · exact fun h => (toInt?_of_toInt64? h).1
  · intro h
    have hlow := Int64.le_toInt i
    have hhigh := Int64.toInt_lt i
    have hlimit : size 0x43f0000000000000 = 2 ^ 64 := by
      unfold size
      norm_num
    -- the magnitude is below that of `2 ^ 64`
    have hsmall : x.magnitude.toNat < 0x43f0000000000000 := by
      have habs := abs_value x
      rw [value_of_toInt? h, ← size_magnitude] at habs
      rw [← size_strictMono.lt_iff_lt, ← habs, hlimit, abs_lt]
      exact ⟨by exact_mod_cast (by omega : -2 ^ 64 < i.toInt),
        by exact_mod_cast (by omega : i.toInt < 2 ^ 64)⟩
    unfold toInt64?
    rw [if_neg, h]
    · simp only [Bool.and_eq_true, decide_eq_true_eq]
      rw [if_pos ⟨hlow, hhigh⟩, Int64.ofInt_toInt]
    · rw [UInt64.le_iff_toNat_le]
      exact Nat.not_le_of_gt hsmall

end Double

namespace Number

/-!
# Numbers that are integers
-/

/-- The rational that a number denotes. -/
def rational? : Number → Option ℚ
  | .int i => some i.toInt
  | .float x => x.rational?

theorem value_leastInt64 : leastInt64.value = -2 ^ 63 := by
  have hexponent : leastInt64.exponent = 11 := rfl
  have hsignificand : leastInt64.significand = 2 ^ 52 := rfl
  have hnegative : leastInt64.negative = true := rfl
  unfold Double.value
  rw [hexponent, hsignificand, hnegative, if_pos rfl]
  norm_num

theorem value_int64Limit : int64Limit.value = 2 ^ 63 := by
  have hexponent : int64Limit.exponent = 11 := rfl
  have hsignificand : int64Limit.significand = 2 ^ 52 := rfl
  have hnegative : int64Limit.negative = false := rfl
  unfold Double.value
  rw [hexponent, hsignificand, hnegative, if_neg Bool.false_ne_true]
  norm_num

/-- A number is taken for the 64-bit integer that it denotes, and for no other. -/
theorem toInt64?_eq_some_iff (n : Number) (k : Int) :
    (exists i, n.toInt64? = some i ∧ i.toInt = k) ↔
      n.rational? = some (k : ℚ) ∧ -2 ^ 63 ≤ k ∧ k < 2 ^ 63 := by
  cases n with
  | int i =>
      have hlow := Int64.le_toInt i
      have hhigh := Int64.toInt_lt i
      show (exists j, some i = some j ∧ j.toInt = k) ↔ some (i.toInt : ℚ) = some (k : ℚ) ∧ _
      rw [Option.some.injEq, Int.cast_inj]
      constructor
      · rintro ⟨j, hj, rfl⟩
        cases hj
        exact ⟨rfl, hlow, hhigh⟩
      · rintro ⟨hk, _⟩
        exact ⟨i, rfl, hk⟩
  | float x =>
      show (exists i, (if x.fraction.isZero && leastInt64.le x && x.lt int64Limit then
        some x.truncate else none) = some i ∧ i.toInt = k) ↔ x.rational? = some (k : ℚ) ∧ _
      rw [Double.isZero_fraction, ← Double.toInt?_eq_some_iff]
      cases hint : x.toInt? with
      | none => simp
      | some z =>
          have hfinite := Double.isFinite_of_toInt? hint
          have hvalue := Double.value_of_toInt? hint
          have hlow : leastInt64.le x = true ↔ -2 ^ 63 ≤ z := by
            rw [Double.le_iff_value_le rfl hfinite, value_leastInt64, hvalue]
            exact_mod_cast Iff.rfl
          have hhigh : x.lt int64Limit = true ↔ z < 2 ^ 63 := by
            rw [Double.lt_iff_value_lt hfinite rfl, value_int64Limit, hvalue]
            exact_mod_cast Iff.rfl
          simp only [Option.isSome_some, Bool.true_and, Bool.and_eq_true, hlow, hhigh,
            Option.some.injEq]
          by_cases hrange : -2 ^ 63 ≤ z ∧ z < 2 ^ 63
          · have htruncate := Double.toInt_truncate hint hrange.1 hrange.2
            rw [if_pos hrange]
            simp only [Option.some.injEq, exists_eq_left', htruncate]
            constructor
            · rintro rfl
              exact ⟨rfl, hrange⟩
            · exact And.left
          · rw [if_neg hrange]
            constructor
            · rintro ⟨i, hi, _⟩
              cases hi
            · rintro ⟨rfl, hk⟩
              exact absurd hk hrange

/-- Comparing with the bounds finds the same integers as exact arithmetic does. -/
theorem toInt64?_float (x : Double) : Number.toInt64? (.float x) = x.toInt64? := by
  apply Option.ext
  intro i
  rw [Double.toInt64?_eq_some_iff, Double.toInt?_eq_some_iff]
  have hiff := toInt64?_eq_some_iff (.float x) i.toInt
  simp only [Int64.toInt_inj, exists_eq_right] at hiff
  rw [hiff]
  exact ⟨And.left, fun h => ⟨h, Int64.le_toInt i, Int64.toInt_lt i⟩⟩

end Number

end LuaHost
