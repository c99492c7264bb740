import LuaHost.Proofs.Numeric.Rational
import LuaHost.Proofs.Numeric.Rounding

/-!
# Rounding to the nearest double

Every quotient is rounded to the magnitude that lies nearest, and from halfway between two of them to
the even one.  No two magnitudes are the nearest for one rational, so a quotient that lies near enough
to a double is rounded to that double.
-/

namespace LuaHost

namespace Double

/-- Where `v` is rounded to the magnitude `m`: between the halfway points on both sides of it, and
on one of these only if `m` is even. -/
structure Rounds (v : ℚ) (m : Nat) : Prop where
  low : size (m - 1) + size m ≤ 2 * v
  high : 2 * v ≤ size m + size (m + 1)
  odd : m % 2 = 1 -> size (m - 1) + size m < 2 * v ∧ 2 * v < size m + size (m + 1)

theorem Rounds.not_lt {v : ℚ} {m m' : Nat} (h : Rounds v m) (h' : Rounds v m') : ¬ m < m' := by
  intro hlt
  have hlow : size m ≤ size (m' - 1) := size_strictMono.monotone (by omega)
  have hhigh : size (m + 1) ≤ size m' := size_strictMono.monotone hlt
  have h₁ := h.high
  have h₂ := h'.low
  by_cases hnext : m' = m + 1
  · -- one of two neighbours is odd, and does not take the point halfway
    rcases Nat.mod_two_eq_zero_or_one m with heven | hodd
    · have h₃ := (h'.odd (by omega)).1
      linarith
    · have h₃ := (h.odd hodd).2
      linarith
  · have hless : size (m + 1) < size m' := size_strictMono (by omega)
    linarith

theorem Rounds.unique {v : ℚ} {m m' : Nat} (h : Rounds v m) (h' : Rounds v m') : m = m' :=
  Nat.le_antisymm (Nat.not_lt.mp (h'.not_lt h)) (Nat.not_lt.mp (h.not_lt h'))

theorem rounds_size (m : Nat) : Rounds (size m) m := by
  have hlow : size (m - 1) ≤ size m := size_strictMono.monotone (Nat.sub_le m 1)
  have hhigh : size m < size (m + 1) := size_strictMono (Nat.lt_succ_self m)
  refine ⟨by linarith, by linarith, fun hodd => ⟨?_, by linarith⟩⟩
  have hless : size (m - 1) < size m := size_strictMono (by omega)
  linarith

/-!
# The exponent of a quotient
-/

theorem scaledQuotient_pos (num : Nat) {den : Nat} (hden : 0 < den) (q : Int) :
    0 < (scaledQuotient num den q).2 := by
  cases q with
  | ofNat k =>
      show 0 < den <<< k
      rw [Nat.shiftLeft_eq]
      exact Nat.mul_pos hden (Nat.two_pow_pos k)
  | negSucc k => exact hden

theorem scaledQuotient_eq (num den : Nat) (q : Int) :
    ((scaledQuotient num den q).1 : ℚ) / (scaledQuotient num den q).2 =
      (num : ℚ) / den / 2 ^ q := by
  cases q with
  | ofNat k =>
      show (num : ℚ) / (den <<< k : Nat) = num / den / 2 ^ ((k : Nat) : Int)
      rw [Nat.shiftLeft_eq, zpow_natCast]
      push_cast
      rw [div_div]
  | negSucc k =>
      show ((num <<< (k + 1) : Nat) : ℚ) / den = num / den / 2 ^ Int.negSucc k
      rw [Nat.shiftLeft_eq, zpow_negSucc, div_inv_eq_mul]
      push_cast
      ring

section

variable {num den : Nat} (hnum : num ≠ 0) (hden : 0 < den)

include hnum hden

/-- A quotient between the powers of two that the logarithms give. -/
theorem quotient_log2 :
    (2 : ℚ) ^ ((num.log2 : Int) - den.log2 - 1) < (num : ℚ) / den ∧
      (num : ℚ) / den < 2 ^ ((num.log2 : Int) - den.log2 + 1) := by
  have hden' : (0 : ℚ) < den := by exact_mod_cast hden
  have hnumLow : (2 : ℚ) ^ (num.log2 : Int) ≤ num := by
    rw [zpow_natCast]
    exact_mod_cast Nat.log2_self_le hnum
  have hnumHigh : (num : ℚ) < 2 ^ ((num.log2 : Int) + 1) := by
    rw [show (num.log2 : Int) + 1 = ((num.log2 + 1 : Nat) : Int) by omega, zpow_natCast]
    exact_mod_cast Nat.lt_log2_self
  have hdenLow : (2 : ℚ) ^ (den.log2 : Int) ≤ den := by
    rw [zpow_natCast]
    exact_mod_cast Nat.log2_self_le (Nat.pos_iff_ne_zero.mp hden)
  have hdenHigh : (den : ℚ) < 2 ^ ((den.log2 : Int) + 1) := by
    rw [show (den.log2 : Int) + 1 = ((den.log2 + 1 : Nat) : Int) by omega, zpow_natCast]
    exact_mod_cast Nat.lt_log2_self
  constructor
  · rw [lt_div_iff₀ hden']
    calc (2 : ℚ) ^ ((num.log2 : Int) - den.log2 - 1) * den
        < 2 ^ ((num.log2 : Int) - den.log2 - 1) * 2 ^ ((den.log2 : Int) + 1) :=
          mul_lt_mul_of_pos_left hdenHigh (by positivity)
      _ = 2 ^ (num.log2 : Int) := by
          rw [← zpow_add₀ (by norm_num)]
          congr 1
          omega
      _ ≤ num := hnumLow
  · rw [div_lt_iff₀ hden']
    calc (num : ℚ) < 2 ^ ((num.log2 : Int) + 1) := hnumHigh
      _ = 2 ^ ((num.log2 : Int) - den.log2 + 1) * 2 ^ (den.log2 : Int) := by
          rw [← zpow_add₀ (by norm_num)]
          congr 1
          omega
      _ ≤ 2 ^ ((num.log2 : Int) - den.log2 + 1) * den :=
          mul_le_mul_of_nonneg_left hdenLow (by positivity)

/-- At its exponent a quotient has at most 53 bits before the point, and exactly 53 above the least
exponent. -/
theorem roundingExponent_spec :
    exists p : Nat, roundingExponent num den = (p : Int) - 1074 ∧
      (num : ℚ) / den < 2 ^ 53 * 2 ^ ((p : Int) - 1074) ∧
      (p = 0 ∨ (2 : ℚ) ^ 52 * 2 ^ ((p : Int) - 1074) ≤ num / den) := by
  rcases quotient_log2 hnum hden with ⟨hlow, hhigh⟩
  generalize hq : max ((num.log2 : Int) - den.log2 - 53) (-1074) = q
  have htwo : (2 : ℚ) ≠ 0 := by norm_num
  -- the first guess is the exponent or one below it
  have hbelow : (num : ℚ) / den < 2 ^ 53 * 2 ^ (q + 1) := by
    refine hhigh.trans_le ?_
    rw [← zpow_natCast, ← zpow_add₀ htwo]
    exact zpow_le_zpow_right₀ (by norm_num) (by omega)
  have habove : q = -1074 ∨ (2 : ℚ) ^ 52 * 2 ^ q ≤ num / den := by
    by_cases hleast : q = -1074
    · exact Or.inl hleast
    · refine Or.inr (le_trans ?_ hlow.le)
      rw [← zpow_natCast, ← zpow_add₀ htwo]
      exact zpow_le_zpow_right₀ (by norm_num) (by omega)
  have hstep : (scaledQuotient num den q).1 / (scaledQuotient num den q).2 ≥ 0x20000000000000 ↔
      (2 : ℚ) ^ 53 * 2 ^ q ≤ num / den := by
    have hd := scaledQuotient_pos num hden q
    have heq := scaledQuotient_eq num den q
    have hd' : (0 : ℚ) < (scaledQuotient num den q).2 := by exact_mod_cast hd
    rw [ge_iff_le, Nat.le_div_iff_mul_le hd, ← le_div_iff₀ (by positivity), ← heq, le_div_iff₀ hd']
    exact_mod_cast Iff.rfl
  unfold roundingExponent
  simp only [hq]
  by_cases hbig : (scaledQuotient num den q).1 / (scaledQuotient num den q).2 ≥ 0x20000000000000
  · rw [if_pos hbig]
    refine ⟨(q + 1 + 1074).toNat, by omega, ?_, Or.inr ?_⟩
    · rw [show (((q + 1 + 1074).toNat : Nat) : Int) - 1074 = q + 1 by omega]
      exact hbelow
    · rw [show (((q + 1 + 1074).toNat : Nat) : Int) - 1074 = q + 1 by omega, zpow_add_one₀ htwo]
      refine le_trans (le_of_eq ?_) (hstep.mp hbig)
      ring
  · rw [if_neg hbig]
    have hq' : (((q + 1074).toNat : Nat) : Int) - 1074 = q := by omega
    refine ⟨(q + 1074).toNat, hq'.symm, ?_, ?_⟩
    · rw [hq']
      exact lt_of_not_ge fun h => hbig (hstep.mpr h)
    · rw [hq']
      exact habove.imp (by omega) id

end

/-!
# The nearest natural
-/

/-- The rounded quotient lies within a half of it, and at a half only if it is even. -/
theorem roundQuotient_spec (n : Nat) {d : Nat} (hd : 0 < d) :
    2 * roundQuotient n d * d ≤ 2 * n + d ∧ 2 * n ≤ 2 * roundQuotient n d * d + d ∧
      (roundQuotient n d % 2 = 1 ->
        2 * roundQuotient n d * d < 2 * n + d ∧ 2 * n < 2 * roundQuotient n d * d + d) := by
  have hdiv := Nat.div_add_mod n d
  have hmod := Nat.mod_lt n hd
  have hdown : 2 * (n / d) * d = 2 * (d * (n / d)) := by ring
  have hup : 2 * (n / d + 1) * d = 2 * (d * (n / d)) + 2 * d := by ring
  unfold roundQuotient
  dsimp only
  split <;> rename_i h <;>
    simp only [Bool.or_eq_true, Bool.and_eq_true, decide_eq_true_eq, beq_iff_eq] at h
  · rw [hup]
    omega
  · rw [hdown]
    omega

theorem roundQuotient_bounds (n : Nat) {d : Nat} (hd : 0 < d) :
    2 * (roundQuotient n d : ℚ) - 1 ≤ 2 * ((n : ℚ) / d) ∧
      2 * ((n : ℚ) / d) ≤ 2 * (roundQuotient n d : ℚ) + 1 ∧
      (roundQuotient n d % 2 = 1 ->
        2 * (roundQuotient n d : ℚ) - 1 < 2 * ((n : ℚ) / d) ∧
          2 * ((n : ℚ) / d) < 2 * (roundQuotient n d : ℚ) + 1) := by
  rcases roundQuotient_spec n hd with ⟨hlow, hhigh, hodd⟩
  generalize roundQuotient n d = r at hlow hhigh hodd ⊢
  have hd' : (0 : ℚ) < d := by exact_mod_cast hd
  have hlow' : 2 * (r : ℚ) * d ≤ 2 * n + d := by exact_mod_cast hlow
  have hhigh' : 2 * (n : ℚ) ≤ 2 * r * d + d := by exact_mod_cast hhigh
  rw [← mul_div_assoc]
  refine ⟨?_, ?_, fun h => ⟨?_, ?_⟩⟩
  · rw [le_div_iff₀ hd']
    linarith
  · rw [div_le_iff₀ hd']
    linarith
  · have hless : 2 * (r : ℚ) * d < 2 * n + d := by exact_mod_cast (hodd h).1
    rw [lt_div_iff₀ hd']
    linarith
  · have hless : 2 * (n : ℚ) < 2 * r * d + d := by exact_mod_cast (hodd h).2
    rw [div_lt_iff₀ hd']
    linarith

/-!
# The magnitude of a rounded quotient
-/

theorem size_succ {p r : Nat} (hr : r < 2 ^ 53) (hp : p = 0 ∨ 2 ^ 52 ≤ r) :
    size (p * 2 ^ 52 + r + 1) = (r + 1) * 2 ^ ((p : Int) - 1074) := by
  rw [Nat.add_assoc, size_add (by omega) (by omega), Nat.cast_add, Nat.cast_one]

theorem size_pred {p r : Nat} (hr : r ≤ 2 ^ 53) (hpos : r ≠ 0) (hp : p = 0 ∨ 2 ^ 52 < r) :
    size (p * 2 ^ 52 + r - 1) = (r - 1) * 2 ^ ((p : Int) - 1074) := by
  rw [Nat.add_sub_assoc (by omega), size_add (by omega) (by omega), Nat.cast_sub (by omega),
    Nat.cast_one]

section

variable {v : ℚ} {p r : Nat} (hr : r ≤ 2 ^ 53) (hp : p = 0 ∨ 2 ^ 52 ≤ r)

include hr hp

/-- At the least significand of an exponent the neighbour below is nearer than a unit. -/
theorem rounds_low (hnonneg : 0 ≤ v) (hleast : p = 0 ∨ 2 ^ 52 * 2 ^ ((p : Int) - 1074) ≤ v)
    (hlow : (2 * (r : ℚ) - 1) * 2 ^ ((p : Int) - 1074) ≤ 2 * v) :
    size (p * 2 ^ 52 + r - 1) + size (p * 2 ^ 52 + r) ≤ 2 * v := by
  have hsize := size_add hr hp
  by_cases hzero : r = 0
  · rw [show p * 2 ^ 52 + r = 0 by omega, size_zero]
    linarith
  · by_cases hedge : p ≠ 0 ∧ r = 2 ^ 52
    · have hbelow : size (p * 2 ^ 52 + r - 1) ≤ size (p * 2 ^ 52 + r) :=
        size_strictMono.monotone (Nat.sub_le _ 1)
      have hv := hleast.resolve_left hedge.1
      rw [show (r : ℚ) = 2 ^ 52 by rw [hedge.2]; norm_num] at hsize
      linarith
    · rw [size_pred hr hzero (by omega), hsize]
      linarith

/-- At the carried significand the neighbour above is farther than a unit. -/
theorem rounds_high (hmost : v < 2 ^ 53 * 2 ^ ((p : Int) - 1074))
    (hhigh : 2 * v ≤ (2 * (r : ℚ) + 1) * 2 ^ ((p : Int) - 1074)) :
    2 * v ≤ size (p * 2 ^ 52 + r) + size (p * 2 ^ 52 + r + 1) := by
  have hsize := size_add hr hp
  by_cases hedge : r = 2 ^ 53
  · have habove : size (p * 2 ^ 52 + r) ≤ size (p * 2 ^ 52 + r + 1) :=
      size_strictMono.monotone (Nat.le_succ _)
    rw [show (r : ℚ) = 2 ^ 53 by rw [hedge]; norm_num] at hsize
    linarith
  · rw [size_succ (by omega) hp, hsize]
    linarith

end

section

variable {num den : Nat} (hnum : num ≠ 0) (hden : 0 < den)

include hnum hden

/-- A quotient goes to the magnitude to which it is rounded, or to the infinity if that is none of a
finite double. -/
theorem rounds_ofQuotient (neg : Bool) :
    exists m, Rounds ((num : ℚ) / den) m ∧
      ofQuotient neg num den =
        ⟨signBit neg ||| if m < infinityBits.toNat then m.toUInt64 else infinityBits⟩ := by
  rcases roundingExponent_spec hnum hden with ⟨p, hp, hmost, hleast⟩
  have hd := scaledQuotient_pos num hden ((p : Int) - 1074)
  have hscaled := scaledQuotient_eq num den ((p : Int) - 1074)
  unfold ofQuotient
  rw [if_neg (by rw [beq_iff_eq]; exact hnum)]
  simp only [hp]
  generalize (scaledQuotient num den ((p : Int) - 1074)).1 = n at hscaled ⊢
  generalize (scaledQuotient num den ((p : Int) - 1074)).2 = d at hd hscaled ⊢
  have hd' : (0 : ℚ) < d := by exact_mod_cast hd
  have hu : (0 : ℚ) < 2 ^ ((p : Int) - 1074) := by positivity
  have hv : (num : ℚ) / den = (n : ℚ) / d * 2 ^ ((p : Int) - 1074) := by
    rw [hscaled]
    field_simp
  rcases roundQuotient_bounds n hd with ⟨hlow, hhigh, hodd⟩
  have hmost' : n ≤ 2 ^ 53 * d := by
    rw [hv, mul_lt_mul_iff_left₀ hu, div_lt_iff₀ hd'] at hmost
    exact_mod_cast hmost.le
  have hr := roundQuotient_le hd hmost'
  -- the significand keeps its 53 bits when it is rounded, or carries into the next exponent
  have hleast' : p = 0 ∨ 2 ^ 52 ≤ roundQuotient n d := by
    refine hleast.imp_right fun h => le_roundQuotient ?_
    rw [hv, mul_le_mul_iff_left₀ hu, le_div_iff₀ hd'] at h
    rw [Nat.le_div_iff_mul_le hd]
    exact_mod_cast h
  generalize roundQuotient n d = r at hlow hhigh hodd hr hleast' ⊢
  refine ⟨p * 2 ^ 52 + r, ⟨?_, ?_, ?_⟩, ?_⟩
  · apply rounds_low hr hleast' (by positivity) hleast
    rw [hv, ← mul_assoc]
    exact mul_le_mul_of_nonneg_right hlow hu.le
  · apply rounds_high hr hleast' hmost
    rw [hv, ← mul_assoc]
    exact mul_le_mul_of_nonneg_right hhigh hu.le
  · intro hm
    rcases hodd (by omega) with ⟨hless, hmore⟩
    rw [size_pred hr (by omega) (by omega), size_succ (by omega) hleast', size_add hr hleast', hv]
    have hlow' := mul_lt_mul_of_pos_right hless hu
    have hhigh' := mul_lt_mul_of_pos_right hmore hu
    constructor <;> linarith
  · by_cases hlarge : (p : Int) - 1074 > 971
    · have hinfinite : ¬ p * 2 ^ 52 + r < infinityBits.toNat := by
        show ¬ p * 2 ^ 52 + r < 9218868437227405312
        omega
      rw [if_pos hlarge, if_neg hinfinite]
      rfl
    · rw [if_neg hlarge, Nat.shiftLeft_eq, show ((p : Int) - 1074 + 1074).toNat = p by omega]
      rfl

end

theorem ofQuotient_eq (neg : Bool) {num den m : Nat} (hden : 0 < den)
    (h : Rounds ((num : ℚ) / den) m) (hm : m < infinityBits.toNat) :
    ofQuotient neg num den = ⟨signBit neg ||| m.toUInt64⟩ := by
  by_cases hnum : num = 0
  · have hzero : Rounds ((num : ℚ) / den) 0 := by
      have hsize := rounds_size 0
      rw [size_zero] at hsize
      rwa [hnum, Nat.cast_zero, zero_div]
    have hsign : ofQuotient neg 0 den = ⟨signBit neg⟩ := rfl
    rw [h.unique hzero, hnum, hsign, show (0 : Nat).toUInt64 = 0 from rfl, UInt64.or_zero]
  · rcases rounds_ofQuotient hnum hden neg with ⟨m', h', heq⟩
    rw [heq, ← h.unique h', if_pos hm]

end Double

end LuaHost
