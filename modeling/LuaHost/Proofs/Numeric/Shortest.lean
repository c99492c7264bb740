import LuaHost.Numeric.Shortest
import LuaHost.Proofs.Numeric.Nearest

/-!
# Shortest decimals are rounded back

The search for the shortest decimal tries finer and finer grids, and takes only decimals that lie
where reals are rounded to the double.  A grid of eighteen digits is fine enough to have one there, so
the search ends, and what it ends with is rounded to the double.
-/

namespace LuaHost

namespace Decimal

/-- The rational of a decimal. -/
def value (d : Decimal) : ℚ := d.digits * 10 ^ d.scale

/-!
# Powers as quotients
-/

theorem powerQuotient_pos {base : Nat} (hbase : 0 < base) (e : Int) :
    0 < (powerQuotient base e).1 ∧ 0 < (powerQuotient base e).2 := by
  cases e with
  | ofNat k => exact ⟨Nat.pow_pos hbase, Nat.one_pos⟩
  | negSucc k => exact ⟨Nat.one_pos, Nat.pow_pos hbase⟩

theorem powerQuotient_eq (base : Nat) (e : Int) :
    ((powerQuotient base e).1 : ℚ) / (powerQuotient base e).2 = (base : ℚ) ^ e := by
  cases e with
  | ofNat k =>
      show ((base ^ k : Nat) : ℚ) / (1 : Nat) = (base : ℚ) ^ ((k : Nat) : Int)
      rw [Nat.cast_one, div_one, zpow_natCast, Nat.cast_pow]
  | negSucc k =>
      show ((1 : Nat) : ℚ) / (base ^ (k + 1) : Nat) = (base : ℚ) ^ Int.negSucc k
      rw [zpow_negSucc, Nat.cast_one, one_div, Nat.cast_pow]

/-!
# The number of digits before the point
-/

theorem belowPower_iff {num den : Nat} (hden : 0 < den) (k : Int) :
    belowPower num den k = true ↔ (num : ℚ) / den < 10 ^ k := by
  have hpower := powerQuotient_eq 10 k
  have hpos := (powerQuotient_pos (show 0 < 10 by decide) k).2
  show decide (num * (powerQuotient 10 k).2 < den * (powerQuotient 10 k).1) = true ↔ _
  generalize (powerQuotient 10 k).1 = a at hpower ⊢
  generalize (powerQuotient 10 k).2 = b at hpower hpos ⊢
  have hden' : (0 : ℚ) < den := by exact_mod_cast hden
  have hb' : (0 : ℚ) < b := by exact_mod_cast hpos
  rw [decide_eq_true_eq, show (10 : ℚ) = ((10 : Nat) : ℚ) by norm_num, ← hpower,
    div_lt_div_iff₀ hden' hb', mul_comm (a : ℚ)]
  exact_mod_cast Iff.rfl

section

variable {c d n k : Nat} (hd : d ≠ 0)

include hd

/-- With a quotient `c / d` that is a little more than `log₁₀ 2`, the guessed power of ten is at most
twice the power of two. -/
theorem ten_pow_le (hpow : 10 ^ c ≤ 2 ^ (d + 1)) (hn : n ≤ d) (hk : k * d ≤ n * c) :
    10 ^ k ≤ 2 * 2 ^ n := by
  apply (Nat.pow_le_pow_iff_left hd).mp
  calc (10 ^ k) ^ d = 10 ^ (k * d) := (Nat.pow_mul ..).symm
    _ ≤ 10 ^ (n * c) := Nat.pow_le_pow_right (by decide) hk
    _ = (10 ^ c) ^ n := by rw [Nat.mul_comm, Nat.pow_mul]
    _ ≤ (2 ^ (d + 1)) ^ n := Nat.pow_le_pow_left hpow n
    _ = 2 ^ ((d + 1) * n) := (Nat.pow_mul ..).symm
    _ ≤ 2 ^ ((n + 1) * d) := Nat.pow_le_pow_right (by decide) (by linarith)
    _ = (2 * 2 ^ n) ^ d := by rw [Nat.pow_mul, Nat.pow_succ']

theorem two_pow_le (hpow : 2 ^ d ≤ 10 ^ c) (hk : n * c ≤ k * d) : 2 ^ n ≤ 10 ^ k := by
  apply (Nat.pow_le_pow_iff_left hd).mp
  calc (2 ^ n) ^ d = (2 ^ d) ^ n := by rw [← Nat.pow_mul, Nat.mul_comm, Nat.pow_mul]
    _ ≤ (10 ^ c) ^ n := Nat.pow_le_pow_left hpow n
    _ = 10 ^ (n * c) := by rw [← Nat.pow_mul, Nat.mul_comm]
    _ ≤ 10 ^ (k * d) := Nat.pow_le_pow_right (by decide) hk
    _ = (10 ^ k) ^ d := Nat.pow_mul ..

end

theorem guess_le {e : Int} (hhigh : e ≤ 100000) :
    (10 : ℚ) ^ ((e * 30103).fdiv 100000 - 1) ≤ 2 ^ e := by
  rw [Int.fdiv_eq_ediv_of_nonneg _ (by decide), zpow_sub_one₀ (by norm_num)]
  rcases Int.eq_nat_or_neg e with ⟨n, rfl | rfl⟩
  · have hguess : ((n : Int) * 30103) / 100000 = ((n * 30103 / 100000 : Nat) : Int) := by omega
    have hle : (10 : ℚ) ^ (n * 30103 / 100000) ≤ 2 * 2 ^ n := by
      exact_mod_cast ten_pow_le (c := 30103) (d := 100000) (by decide) (by decide +kernel)
        (by omega) (Nat.div_mul_le_self (n * 30103) 100000)
    have hpos : (0 : ℚ) < 2 ^ n := by positivity
    rw [hguess, zpow_natCast, zpow_natCast, ← div_eq_mul_inv, div_le_iff₀ (by norm_num)]
    linarith
  · have hguess : (-(n : Int) * 30103) / 100000 = -(((n * 30103 + 99999) / 100000 : Nat) : Int) := by
      omega
    have hle : (2 : ℚ) ^ n ≤ 10 ^ ((n * 30103 + 99999) / 100000) := by
      exact_mod_cast two_pow_le (c := 30103) (d := 100000) (by decide) (by decide +kernel)
        (by omega)
    have hpos : (0 : ℚ) < 10 ^ ((n * 30103 + 99999) / 100000) := by positivity
    rw [hguess, zpow_neg, zpow_neg, zpow_natCast, zpow_natCast, ← mul_inv,
      inv_le_inv₀ (by positivity) (by positivity)]
    linarith

section

variable {num den : Nat}

theorem magnitudeOf_le (hnum : num ≠ 0) (hden : 0 < den)
    (hhigh : (num.log2 : Int) - den.log2 - 1 ≤ 100000) :
    (10 : ℚ) ^ (magnitudeOf num den - 1) ≤ num / den := by
  have hguess := (guess_le hhigh).trans (Double.quotient_log2 hnum hden).1.le
  unfold magnitudeOf
  generalize (((num.log2 : Int) - den.log2 - 1) * 30103).fdiv 100000 = k at hguess ⊢
  have hnext : forall j : Int, ¬ belowPower num den j = true -> (10 : ℚ) ^ j ≤ num / den := by
    intro j hj
    rw [belowPower_iff hden] at hj
    exact le_of_not_gt hj
  dsimp only
  split
  · exact hguess
  · split
    · next h _ =>
      rw [Int.add_sub_cancel]
      exact hnext k h
    · split
      · next h _ =>
        rw [show k + 2 - 1 = k + 1 by omega]
        exact hnext (k + 1) h
      · next h =>
        rw [show k + 3 - 1 = k + 2 by omega]
        exact hnext (k + 2) h

theorem le_magnitudeOf (num den : Nat) :
    (((num.log2 : Int) - den.log2 - 1) * 30103).fdiv 100000 ≤ magnitudeOf num den := by
  unfold magnitudeOf
  dsimp only
  split
  · omega
  · split
    · omega
    · split <;> omega

theorem magnitudeOf_nonneg (hnum : num ≠ 0) (hden : 0 < den) (h : 1 ≤ (num : ℚ) / den) :
    0 ≤ magnitudeOf num den := by
  have hlog : (2 : ℚ) ^ (0 : Int) < 2 ^ ((num.log2 : Int) - den.log2 + 1) := by
    rw [zpow_zero]
    exact h.trans_lt (Double.quotient_log2 hnum hden).2
  rw [zpow_lt_zpow_iff_right₀ (by norm_num)] at hlog
  have hguess : -1 ≤ (((num.log2 : Int) - den.log2 - 1) * 30103).fdiv 100000 := by
    rw [Int.fdiv_eq_ediv_of_nonneg _ (by decide)]
    omega
  unfold magnitudeOf
  generalize (((num.log2 : Int) - den.log2 - 1) * 30103).fdiv 100000 = k at hguess ⊢
  dsimp only
  split
  · next hbelow =>
    rw [belowPower_iff hden] at hbelow
    have hpower : (10 : ℚ) ^ (0 : Int) < 10 ^ k := by
      rw [zpow_zero]
      exact h.trans_lt hbelow
    rw [zpow_lt_zpow_iff_right₀ (by norm_num)] at hpower
    exact hpower.le
  · split
    · omega
    · split <;> omega

end

end Decimal

namespace Double

/-!
# Where reals are rounded to a double
-/

theorem magnitude_eq (x : Double) :
    exists p : Nat, x.exponent = (p : Int) - 1074 ∧
      x.magnitude.toNat = p * 2 ^ 52 + x.significand ∧ x.significand < 2 ^ 53 ∧
      (p = 0 ∨ 2 ^ 52 ≤ x.significand) := by
  rw [significand_eq, exponent_eq]
  by_cases h : x.magnitude.toNat / 2 ^ 52 = 0
  · rw [if_pos h, if_pos h]
    exact ⟨0, by omega, by omega, by omega, Or.inl rfl⟩
  · rw [if_neg h, if_neg h]
    exact ⟨x.magnitude.toNat / 2 ^ 52 - 1, by omega, by omega, by omega, by omega⟩

/-- Below a power of two the magnitudes are twice as close. -/
theorem size_pred_narrow {p : Nat} (hp : p ≠ 0) :
    size (p * 2 ^ 52 + 2 ^ 52 - 1) = (2 ^ 52 - 1 / 2) * 2 ^ ((p : Int) - 1074) := by
  rcases Nat.exists_eq_succ_of_ne_zero hp with ⟨q, rfl⟩
  have hsize := size_add (p := q) (r := 2 ^ 53 - 1) (by omega) (by omega)
  rw [show (q + 1) * 2 ^ 52 + 2 ^ 52 - 1 = q * 2 ^ 52 + (2 ^ 53 - 1) by omega, hsize,
    show ((q + 1 : Nat) : Int) - 1074 = (q : Int) - 1074 + 1 by omega, zpow_add_one₀ (by norm_num)]
  norm_num
  ring

theorem roundingInterval_den_pos (x : Double) : 0 < x.roundingInterval.den :=
  (Decimal.powerQuotient_pos (by decide) _).2

section

variable {x : Double}

theorem roundingInterval_value :
    (x.roundingInterval.value : ℚ) / x.roundingInterval.den = size x.magnitude.toNat := by
  have hunit := Decimal.powerQuotient_eq 2 (x.exponent - 2)
  show ((4 * x.significand * (Decimal.powerQuotient 2 (x.exponent - 2)).1 : Nat) : ℚ) /
    (Decimal.powerQuotient 2 (x.exponent - 2)).2 = _
  rw [Nat.cast_mul, mul_div_assoc, hunit, size_magnitude, Nat.cast_ofNat, zpow_sub₀ (by norm_num)]
  push_cast
  ring

theorem roundingInterval_high :
    2 * ((x.roundingInterval.high : ℚ) / x.roundingInterval.den) =
      size x.magnitude.toNat + size (x.magnitude.toNat + 1) := by
  rcases magnitude_eq x with ⟨p, hexp, hmag, hhigh, hlow⟩
  have hunit := Decimal.powerQuotient_eq 2 (x.exponent - 2)
  show 2 * ((((4 * x.significand + 2) * (Decimal.powerQuotient 2 (x.exponent - 2)).1 : Nat) : ℚ) /
    (Decimal.powerQuotient 2 (x.exponent - 2)).2) = _
  rw [Nat.cast_mul, mul_div_assoc, hunit, hmag, size_succ hhigh hlow, size_add hhigh.le hlow, ← hexp,
    Nat.cast_ofNat, zpow_sub₀ (by norm_num)]
  push_cast
  ring

theorem roundingInterval_low (hpos : x.significand ≠ 0) :
    2 * ((x.roundingInterval.low : ℚ) / x.roundingInterval.den) =
      size (x.magnitude.toNat - 1) + size x.magnitude.toNat := by
  rcases magnitude_eq x with ⟨p, hexp, hmag, hhigh, hlow⟩
  have hunit := Decimal.powerQuotient_eq 2 (x.exponent - 2)
  show 2 * ((((4 * x.significand - if (x.significand == 0x10000000000000 && x.exponent > -1074) = true
    then 1 else 2) * (Decimal.powerQuotient 2 (x.exponent - 2)).1 : Nat) : ℚ) /
    (Decimal.powerQuotient 2 (x.exponent - 2)).2) = _
  rw [Nat.cast_mul, mul_div_assoc, hunit, hmag, size_add hhigh.le hlow, Nat.cast_ofNat,
    zpow_sub₀ (by norm_num), hexp]
  simp only [Bool.and_eq_true, beq_iff_eq, decide_eq_true_eq]
  by_cases hnarrow : x.significand = 0x10000000000000 ∧ (p : Int) - 1074 > -1074
  · have hleast : x.significand = 2 ^ 52 := hnarrow.1
    rw [if_pos hnarrow, hleast, size_pred_narrow (by omega), Nat.cast_sub (by decide)]
    push_cast
    ring
  · rw [if_neg hnarrow, size_pred hhigh.le hpos (by omega), Nat.cast_sub (by omega)]
    push_cast
    ring

end

/-!
# Candidates
-/

section

variable {r : RoundingInterval} {d : Decimal}

theorem holds_iff (hden : 0 < r.den) :
    r.holds d = true ↔
      if r.closed = true then (r.low : ℚ) / r.den ≤ d.value ∧ d.value ≤ r.high / r.den
      else (r.low : ℚ) / r.den < d.value ∧ d.value < r.high / r.den := by
  have hpower := Decimal.powerQuotient_eq 10 d.scale
  have hpos := (Decimal.powerQuotient_pos (show 0 < 10 by decide) d.scale).2
  have hvalue : d.value = (d.digits * (Decimal.powerQuotient 10 d.scale).1 : Nat) /
      (Decimal.powerQuotient 10 d.scale).2 := by
    unfold Decimal.value
    rw [show (10 : ℚ) = ((10 : Nat) : ℚ) by norm_num, ← hpower, Nat.cast_mul, mul_div_assoc]
  show (if r.closed = true then
      decide (r.low * (Decimal.powerQuotient 10 d.scale).2 ≤
        d.digits * (Decimal.powerQuotient 10 d.scale).1 * r.den) &&
      decide (d.digits * (Decimal.powerQuotient 10 d.scale).1 * r.den ≤
        r.high * (Decimal.powerQuotient 10 d.scale).2)
    else
      decide (r.low * (Decimal.powerQuotient 10 d.scale).2 <
        d.digits * (Decimal.powerQuotient 10 d.scale).1 * r.den) &&
      decide (d.digits * (Decimal.powerQuotient 10 d.scale).1 * r.den <
        r.high * (Decimal.powerQuotient 10 d.scale).2)) = true ↔ _
  rw [hvalue]
  generalize d.digits * (Decimal.powerQuotient 10 d.scale).1 = n
  generalize (Decimal.powerQuotient 10 d.scale).2 = b at hpos
  have hden' : (0 : ℚ) < r.den := by exact_mod_cast hden
  have hb' : (0 : ℚ) < b := by exact_mod_cast hpos
  rw [div_le_div_iff₀ hden' hb', div_le_div_iff₀ hb' hden', div_lt_div_iff₀ hden' hb',
    div_lt_div_iff₀ hb' hden']
  cases r.closed with
  | false =>
      simp only [Bool.false_eq_true, if_false, Bool.and_eq_true, decide_eq_true_eq]
      exact_mod_cast Iff.rfl
  | true =>
      simp only [if_true, Bool.and_eq_true, decide_eq_true_eq]
      exact_mod_cast Iff.rfl

theorem holds_of_onGrid {scale : Int} (h : r.onGrid scale = some d) :
    r.holds d = true ∧ d.scale = scale := by
  unfold RoundingInterval.onGrid at h
  dsimp only at h
  split at h
  · next hdown hup =>
    split at h <;> cases h
    · exact ⟨hdown, rfl⟩
    · exact ⟨hup, rfl⟩
  · next hdown _ =>
    cases h
    exact ⟨hdown, rfl⟩
  · next _ hup =>
    cases h
    exact ⟨hup, rfl⟩
  · cases h

/-- The neighbour above the value is at most a step of the grid away from it. -/
theorem up_value (hden : 0 < r.den) (scale : Int) :
    (r.value : ℚ) / r.den < (⟨r.value * (Decimal.powerQuotient 10 scale).2 /
        (r.den * (Decimal.powerQuotient 10 scale).1) + 1, scale⟩ : Decimal).value ∧
      (⟨r.value * (Decimal.powerQuotient 10 scale).2 /
        (r.den * (Decimal.powerQuotient 10 scale).1) + 1, scale⟩ : Decimal).value ≤
      (r.value : ℚ) / r.den + 10 ^ scale := by
  have hpower := Decimal.powerQuotient_eq 10 scale
  rcases Decimal.powerQuotient_pos (show 0 < 10 by decide) scale with ⟨ha, hb⟩
  have hfloor := Nat.div_mul_le_self (r.value * (Decimal.powerQuotient 10 scale).2)
    (r.den * (Decimal.powerQuotient 10 scale).1)
  have hceil := Nat.lt_mul_div_succ (r.value * (Decimal.powerQuotient 10 scale).2)
    (Nat.mul_pos hden ha)
  unfold Decimal.value
  dsimp only
  generalize r.value * (Decimal.powerQuotient 10 scale).2 /
    (r.den * (Decimal.powerQuotient 10 scale).1) = q at hfloor hceil ⊢
  generalize (Decimal.powerQuotient 10 scale).1 = a at hpower ha hfloor hceil
  generalize (Decimal.powerQuotient 10 scale).2 = b at hpower hb hfloor hceil
  have hden' : (0 : ℚ) < r.den := by exact_mod_cast hden
  have hb' : (0 : ℚ) < b := by exact_mod_cast hb
  have hpower' : (a : ℚ) = 10 ^ scale * b := by
    rw [← Nat.cast_ofNat, ← hpower]
    field_simp
  have hfloor' : (q : ℚ) * (r.den * a) ≤ r.value * b := by exact_mod_cast hfloor
  have hceil' : (r.value : ℚ) * b < r.den * a * (q + 1) := by exact_mod_cast hceil
  rw [hpower'] at hfloor' hceil'
  rw [Nat.cast_add, Nat.cast_one]
  constructor
  · rw [div_lt_iff₀ hden', ← mul_lt_mul_iff_left₀ hb']
    linarith
  · have hle : (q : ℚ) * 10 ^ scale ≤ r.value / r.den := by
      rw [le_div_iff₀ hden', ← mul_le_mul_iff_left₀ hb']
      linarith
    linarith

theorem isSome_onGrid (r : RoundingInterval) (scale : Int) :
    (r.onGrid scale).isSome =
      (r.holds ⟨r.value * (Decimal.powerQuotient 10 scale).2 /
          (r.den * (Decimal.powerQuotient 10 scale).1), scale⟩ ||
        r.holds ⟨r.value * (Decimal.powerQuotient 10 scale).2 /
          (r.den * (Decimal.powerQuotient 10 scale).1) + 1, scale⟩) := by
  unfold RoundingInterval.onGrid
  dsimp only
  generalize r.holds ⟨_ + 1, scale⟩ = up
  generalize r.holds ⟨_, scale⟩ = down
  cases down with
  | false => cases up <;> rfl
  | true =>
      cases up with
      | false => rfl
      | true =>
          dsimp only
          split <;> rfl

/-- The interval goes on for a step above the value. -/
theorem onGrid_above {scale : Int} (hden : 0 < r.den)
    (hlow : (r.low : ℚ) / r.den < r.value / r.den)
    (hhigh : (r.value : ℚ) / r.den + 10 ^ scale < r.high / r.den) :
    (r.onGrid scale).isSome = true := by
  rcases up_value hden scale with ⟨habove, hnear⟩
  have hless := hlow.trans habove
  have hmore := hnear.trans_lt hhigh
  rw [isSome_onGrid, Bool.or_eq_true, holds_iff hden, holds_iff hden]
  right
  split
  · exact ⟨hless.le, hmore.le⟩
  · exact ⟨hless, hmore⟩

/-- A natural is on the grid of the naturals itself. -/
theorem onGrid_natural {n : Nat} (hden : 0 < r.den) (hvalue : (r.value : ℚ) / r.den = n)
    (hlow : (r.low : ℚ) / r.den < r.value / r.den)
    (hhigh : (r.value : ℚ) / r.den < r.high / r.den) : (r.onGrid 0).isSome = true := by
  have hden' : (0 : ℚ) < r.den := by exact_mod_cast hden
  have hmul : r.value = n * r.den := by
    rw [div_eq_iff hden'.ne'] at hvalue
    exact_mod_cast hvalue
  have hexact : Decimal.value ⟨r.value * 1 / (r.den * 1), 0⟩ = r.value / r.den := by
    unfold Decimal.value
    rw [hvalue, hmul, Nat.mul_one, Nat.mul_one, Nat.mul_div_cancel _ hden, zpow_zero, mul_one]
  have hone : Decimal.powerQuotient 10 0 = (1, 1) := rfl
  rw [isSome_onGrid, Bool.or_eq_true, hone, holds_iff hden, hexact]
  left
  split
  · exact ⟨hlow.le, hhigh.le⟩
  · exact ⟨hlow, hhigh⟩

/-- The search ends at the latest with a grid that has a candidate. -/
theorem shortestFrom_spec {k : Int} {j : Nat} (hhit : (r.onGrid (k - j)).isSome = true) (fuel : Nat) :
    forall n, n ≤ j -> j < n + fuel ->
      r.holds (shortestFrom r k n fuel) = true ∧ k - j ≤ (shortestFrom r k n fuel).scale := by
  induction fuel with
  | zero =>
      intro n hn hj
      omega
  | succ fuel ih =>
      intro n hn hj
      unfold shortestFrom
      cases hgrid : r.onGrid (k - n) with
      | some d =>
          rcases holds_of_onGrid hgrid with ⟨hholds, hscale⟩
          dsimp only
          rw [hscale]
          exact ⟨hholds, by omega⟩
      | none =>
          have hne : n ≠ j := by
            rintro rfl
            rw [hgrid] at hhit
            cases hhit
          exact ih (n + 1) (by omega) (by omega)

end

/-!
# The shortest decimal
-/

/-- A decimal in the interval is rounded to the double. -/
theorem rounds_of_holds {x : Double} {d : Decimal} (hpos : x.significand ≠ 0)
    (h : x.roundingInterval.holds d = true) : Rounds d.value x.magnitude.toNat := by
  rcases magnitude_eq x with ⟨p, _, hmag, _, _⟩
  have hlow := roundingInterval_low hpos
  have hhigh := roundingInterval_high (x := x)
  have hclosed : x.roundingInterval.closed = (x.significand % 2 == 0) := rfl
  rw [holds_iff (roundingInterval_den_pos x), hclosed] at h
  by_cases heven : x.significand % 2 = 0
  · rw [if_pos (beq_iff_eq.mpr heven)] at h
    exact ⟨by linarith, by linarith, fun hodd => absurd hodd (by omega)⟩
  · rw [if_neg (by rw [beq_iff_eq]; exact heven)] at h
    exact ⟨by linarith, by linarith, fun _ => ⟨by linarith, by linarith⟩⟩

theorem size_lt {m : Nat} (h : m < infinityBits.toNat) : size m < 2 ^ (1024 : Int) := by
  have hinfinity := size_add (p := 2045) (r := 2 ^ 53) (by decide) (by decide)
  have hlt : size m < size (2045 * 2 ^ 52 + 2 ^ 53) := by
    apply size_strictMono
    have hbits : infinityBits.toNat = 9218868437227405312 := rfl
    omega
  rw [hinfinity, Nat.cast_pow, Nat.cast_ofNat, ← zpow_natCast, ← zpow_add₀ (by norm_num)] at hlt
  exact hlt

theorem isZero_iff {x : Double} : x.isZero = true ↔ x.significand = 0 := by
  rcases magnitude_eq x with ⟨p, _, hmag, _, hlow⟩
  rw [isZero_iff_magnitude, hmag]
  omega

/-- The digits before the point of a double's absolute value, as the search counts them. -/
def decimalDigits (x : Double) : Int :=
  Decimal.magnitudeOf x.roundingInterval.value x.roundingInterval.den

section

variable {x : Double} (hpos : x.significand ≠ 0)

include hpos

theorem magnitude_ne_zero : x.magnitude.toNat ≠ 0 := by
  rcases magnitude_eq x with ⟨p, _, hmag, _, _⟩
  omega

theorem low_lt_value :
    (x.roundingInterval.low : ℚ) / x.roundingInterval.den <
      x.roundingInterval.value / x.roundingInterval.den := by
  have hmag := magnitude_ne_zero hpos
  have hlow := roundingInterval_low hpos
  have hless : size (x.magnitude.toNat - 1) < size x.magnitude.toNat := size_strictMono (by omega)
  rw [roundingInterval_value]
  linarith

theorem value_ne_zero : x.roundingInterval.value ≠ 0 := by
  intro hzero
  have hvalue := roundingInterval_value (x := x)
  have hless : size 0 < size x.magnitude.toNat :=
    size_strictMono (Nat.pos_of_ne_zero (magnitude_ne_zero hpos))
  rw [hzero, Nat.cast_zero, zero_div] at hvalue
  rw [size_zero, ← hvalue] at hless
  exact lt_irrefl _ hless

theorem decimalDigits_nonneg (h : 1 ≤ size x.magnitude.toNat) : 0 ≤ x.decimalDigits := by
  apply Decimal.magnitudeOf_nonneg (value_ne_zero hpos) (roundingInterval_den_pos x)
  rwa [roundingInterval_value]

/-- The exponents of finite doubles bound their digits before the point from below, and these are not
more than there are. -/
theorem decimalDigits_spec (hfinite : x.isFinite = true) :
    -400 ≤ x.decimalDigits ∧ (10 : ℚ) ^ (x.decimalDigits - 1) ≤ size x.magnitude.toNat := by
  have hden := roundingInterval_den_pos x
  rcases quotient_log2 (value_ne_zero hpos) hden with ⟨hbelow, habove⟩
  have hdigits := Decimal.magnitudeOf_le (value_ne_zero hpos) hden
  have hguess := Decimal.le_magnitudeOf x.roundingInterval.value x.roundingInterval.den
  rw [roundingInterval_value] at hbelow habove hdigits
  have hmost := size_lt (isFinite_iff.mp hfinite)
  have hleast : (2 : ℚ) ^ (-1074 : Int) ≤ size x.magnitude.toNat := by
    rw [← size_one]
    exact size_strictMono.monotone (Nat.pos_of_ne_zero (magnitude_ne_zero hpos))
  have hlogHigh := (zpow_lt_zpow_iff_right₀ (by norm_num : (1 : ℚ) < 2)).mp (hbelow.trans hmost)
  have hlogLow := (zpow_lt_zpow_iff_right₀ (by norm_num : (1 : ℚ) < 2)).mp (hleast.trans_lt habove)
  constructor
  · rw [Int.fdiv_eq_ediv_of_nonneg _ (by decide)] at hguess
    unfold decimalDigits
    omega
  · exact hdigits (by omega)

/-- A grid of eighteen digits has a candidate: its step is less than half a unit in the last place. -/
theorem onGrid_eighteen (hfinite : x.isFinite = true) :
    (x.roundingInterval.onGrid (x.decimalDigits - (18 : Nat))).isSome = true := by
  apply onGrid_above (roundingInterval_den_pos x) (low_lt_value hpos)
  rcases magnitude_eq x with ⟨p, _, hmag, hhigh, hlow⟩
  have hdigits := (decimalDigits_spec hpos hfinite).2
  have hupper := roundingInterval_high (x := x)
  have hsize := size_add hhigh.le hlow
  have hnext := size_succ hhigh hlow
  rw [← hmag] at hsize hnext
  have hstep : (10 : ℚ) ^ (x.decimalDigits - (18 : Nat)) = 10 ^ (x.decimalDigits - 1) / 10 ^ 17 := by
    rw [← zpow_natCast, ← zpow_sub₀ (by norm_num)]
    congr 1
    omega
  have hunit : (0 : ℚ) < 2 ^ ((p : Int) - 1074) := by positivity
  have hbits : (x.significand : ℚ) * 2 ^ ((p : Int) - 1074) < 2 ^ 53 * 2 ^ ((p : Int) - 1074) := by
    apply mul_lt_mul_of_pos_right _ hunit
    exact_mod_cast hhigh
  rw [roundingInterval_value, hstep]
  linarith

/-- The search ends with a decimal in the interval, not on a finer grid than one that has a
candidate. -/
theorem shortest_spec {j : Nat} (hj : j < 19)
    (hhit : (x.roundingInterval.onGrid (x.decimalDigits - j)).isSome = true) :
    x.roundingInterval.holds x.shortest = true ∧ x.decimalDigits - j ≤ x.shortest.scale := by
  unfold shortest
  rw [if_neg fun hzero => hpos (isZero_iff.mp hzero)]
  exact shortestFrom_spec hhit 19 0 (Nat.zero_le j) (by omega)

end

theorem shortest_of_isZero {x : Double} (hzero : x.isZero = true) : x.shortest = ⟨0, 0⟩ := by
  unfold shortest
  rw [if_pos hzero]

/-- The shortest decimal of a finite double is rounded to that double. -/
theorem shortest_rounds {x : Double} (hfinite : x.isFinite = true) :
    Rounds x.shortest.value x.magnitude.toNat := by
  by_cases hpos : x.significand = 0
  · have hzero := isZero_iff.mpr hpos
    have hmag : x.magnitude.toNat = 0 := isZero_iff_magnitude.mp hzero
    have hvalue : Decimal.value ⟨0, 0⟩ = size 0 := by
      rw [size_zero]
      exact zero_mul _
    rw [shortest_of_isZero hzero, hmag, hvalue]
    exact rounds_size 0
  · exact rounds_of_holds hpos (shortest_spec hpos (by decide) (onGrid_eighteen hpos hfinite)).1

/-- The shortest decimal does not have many places behind the point. -/
theorem shortest_scale {x : Double} (hfinite : x.isFinite = true) : -500 ≤ x.shortest.scale := by
  by_cases hpos : x.significand = 0
  · rw [shortest_of_isZero (isZero_iff.mpr hpos)]
    decide
  · have hscale := (shortest_spec hpos (by decide) (onGrid_eighteen hpos hfinite)).2
    have hdigits := (decimalDigits_spec hpos hfinite).1
    omega

/-- The shortest decimal of an integral double has none. -/
theorem shortest_scale_nonneg {x : Double} (hfinite : x.isFinite = true) {n : Nat}
    (hn : size x.magnitude.toNat = n) : 0 ≤ x.shortest.scale := by
  by_cases hpos : x.significand = 0
  · rw [shortest_of_isZero (isZero_iff.mpr hpos)]
  · have hone : 1 ≤ size x.magnitude.toNat := by
      have hless : size 0 < size x.magnitude.toNat :=
        size_strictMono (Nat.pos_of_ne_zero (magnitude_ne_zero hpos))
      rw [size_zero, hn] at hless
      rw [hn]
      exact_mod_cast hless
    have hdigits := decimalDigits_nonneg hpos hone
    by_cases hfew : x.decimalDigits < 19
    · -- the grid of the naturals is among those that are tried
      have hself : x.decimalDigits - (x.decimalDigits.toNat : Nat) = 0 := by omega
      have hhit : (x.roundingInterval.onGrid
          (x.decimalDigits - (x.decimalDigits.toNat : Nat))).isSome = true := by
        rw [hself]
        apply onGrid_natural (n := n) (roundingInterval_den_pos x) _ (low_lt_value hpos)
        · have hupper := roundingInterval_high (x := x)
          have hless : size x.magnitude.toNat < size (x.magnitude.toNat + 1) :=
            size_strictMono (Nat.lt_succ_self _)
          rw [roundingInterval_value]
          linarith
        · rw [roundingInterval_value, hn]
      have hscale := (shortest_spec hpos (by omega) hhit).2
      omega
    · have hscale := (shortest_spec hpos (by decide) (onGrid_eighteen hpos hfinite)).2
      omega

end Double

end LuaHost
