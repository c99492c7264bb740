import LuaHost.Numeric.Double
import Mathlib.Tactic.NormNum
import Mathlib.Tactic.Ring

/-!
# Integers that are doubles

A double that denotes an integer is the double nearest to that integer, so the
passage from such a double to the integer and back changes nothing but the sign
of a zero.  Up to `2 ^ 53` every integer is such a double.
-/

namespace LuaHost

namespace Double

/-!
# The parts of a double as naturals
-/

theorem toNat_magnitude (x : Double) : x.magnitude.toNat = x.bits.toNat % 2 ^ 63 := by
  unfold magnitude
  rw [UInt64.toNat_and]
  exact Nat.and_two_pow_sub_one_eq_mod x.bits.toNat 63

theorem magnitude_lt (x : Double) : x.magnitude.toNat < 2 ^ 63 := by
  rw [toNat_magnitude]
  exact Nat.mod_lt _ (by decide)

theorem negative_eq (x : Double) : x.negative = decide (x.bits.toNat / 2 ^ 63 = 1) := by
  unfold negative
  have hshift : (x.bits >>> 63).toNat = x.bits.toNat / 2 ^ 63 := by
    rw [UInt64.toNat_shiftRight, Nat.shiftRight_eq_div_pow]
    rfl
  rw [Bool.eq_iff_iff, beq_iff_eq, decide_eq_true_eq, ← hshift, ← UInt64.toNat_inj]
  rfl

/-- The bit of a sign. -/
def signBit (neg : Bool) : UInt64 := if neg then 0x8000000000000000 else 0

theorem toNat_signBit_or (neg : Bool) {mag : UInt64} (h : mag.toNat < 2 ^ 63) :
    (signBit neg ||| mag).toNat = (if neg then 2 ^ 63 else 0) + mag.toNat := by
  rw [UInt64.toNat_or]
  cases neg with
  | false =>
      show 0 ||| mag.toNat = 0 + mag.toNat
      rw [Nat.zero_or, Nat.zero_add]
  | true => exact (Nat.two_pow_add_eq_or_of_lt h 1).symm

theorem eq_of_parts (x : Double) : x = ⟨signBit x.negative ||| x.magnitude⟩ := by
  rcases x with ⟨bits⟩
  congr 1
  rw [← UInt64.toNat_inj, toNat_signBit_or _ (magnitude_lt _), toNat_magnitude, negative_eq]
  have hlt := bits.toNat_lt
  show bits.toNat = (if decide (bits.toNat / 2 ^ 63 = 1) = true then 2 ^ 63 else 0) +
    bits.toNat % 2 ^ 63
  by_cases h : bits.toNat / 2 ^ 63 = 1
  · rw [if_pos (decide_eq_true h)]
    omega
  · rw [if_neg (by rw [decide_eq_true_eq]; exact h)]
    omega

theorem negative_ofParts (neg : Bool) {mag : UInt64} (h : mag.toNat < 2 ^ 63) :
    (⟨signBit neg ||| mag⟩ : Double).negative = neg := by
  rw [negative_eq]
  show decide ((signBit neg ||| mag).toNat / 2 ^ 63 = 1) = neg
  rw [toNat_signBit_or neg h]
  cases neg with
  | false => exact decide_eq_false (by simp only [Bool.false_eq_true, if_false]; omega)
  | true => exact decide_eq_true (by simp only [if_true]; omega)

theorem magnitude_ofParts (neg : Bool) {mag : UInt64} (h : mag.toNat < 2 ^ 63) :
    (⟨signBit neg ||| mag⟩ : Double).magnitude = mag := by
  rw [← UInt64.toNat_inj, toNat_magnitude]
  show (signBit neg ||| mag).toNat % 2 ^ 63 = mag.toNat
  rw [toNat_signBit_or neg h]
  cases neg with
  | false => simp only [Bool.false_eq_true, if_false]; omega
  | true => simp only [if_true]; omega

theorem toNat_exponentBits (x : Double) :
    (x.magnitude >>> 52).toNat = x.magnitude.toNat / 2 ^ 52 := by
  rw [UInt64.toNat_shiftRight, Nat.shiftRight_eq_div_pow]
  rfl

theorem toNat_fractionBits (x : Double) :
    (x.magnitude &&& 0xfffffffffffff).toNat = x.magnitude.toNat % 2 ^ 52 := by
  rw [UInt64.toNat_and]
  exact Nat.and_two_pow_sub_one_eq_mod x.magnitude.toNat 52

theorem significand_eq (x : Double) :
    x.significand =
      if x.magnitude.toNat / 2 ^ 52 = 0 then x.magnitude.toNat % 2 ^ 52
      else x.magnitude.toNat % 2 ^ 52 + 2 ^ 52 := by
  unfold significand
  simp only [beq_iff_eq, ← UInt64.toNat_inj, toNat_exponentBits, toNat_fractionBits]
  rfl

theorem exponent_eq (x : Double) :
    x.exponent =
      if x.magnitude.toNat / 2 ^ 52 = 0 then -1074
      else ((x.magnitude.toNat / 2 ^ 52 : Nat) : Int) - 1075 := by
  unfold exponent
  simp only [beq_iff_eq, toNat_exponentBits]

/-!
# The classes of doubles by magnitude
-/

theorem toNat_infinityBits : infinityBits.toNat = 2047 * 2 ^ 52 := rfl

section

variable {x : Double}

theorem isZero_iff_magnitude : x.isZero = true ↔ x.magnitude.toNat = 0 := by
  unfold isZero
  rw [beq_iff_eq, ← UInt64.toNat_inj]
  rfl

theorem isFinite_iff : x.isFinite = true ↔ x.magnitude.toNat < infinityBits.toNat := by
  unfold isFinite
  rw [decide_eq_true_eq, UInt64.lt_iff_toNat_lt]

theorem isInfinite_iff : x.isInfinite = true ↔ x.magnitude.toNat = infinityBits.toNat := by
  unfold isInfinite
  rw [beq_iff_eq, UInt64.toNat_inj]

theorem isNaN_iff : x.isNaN = true ↔ infinityBits.toNat < x.magnitude.toNat := by
  unfold isNaN
  rw [decide_eq_true_eq, UInt64.lt_iff_toNat_lt]

theorem isFinite_of_isZero (h : x.isZero = true) : x.isFinite = true := by
  rw [isFinite_iff, isZero_iff_magnitude.mp h]
  decide

theorem not_isNaN_of_isFinite (h : x.isFinite = true) : x.isNaN = false := by
  rw [isFinite_iff] at h
  rw [← Bool.not_eq_true, isNaN_iff]
  omega

theorem not_isInfinite_of_isFinite (h : x.isFinite = true) : x.isInfinite = false := by
  rw [isFinite_iff] at h
  rw [← Bool.not_eq_true, isInfinite_iff]
  omega

end

/-!
# Rounding what needs no rounding
-/

/-- `m`, shifted by `e - 52` places, is `n`. -/
inductive Shifted (n m : Nat) : Nat → Prop where
  | up (k : Nat) : n = m * 2 ^ k → Shifted n m (52 + k)
  | down (k : Nat) {e : Nat} : e + k = 52 → m = n * 2 ^ k → Shifted n m e

theorem Shifted.log2_eq {n m e : Nat} (h : Shifted n m e) (hlow : 2 ^ 52 ≤ m)
    (hhigh : m < 2 ^ 53) : n ≠ 0 ∧ n.log2 = e := by
  cases h with
  | up k hn =>
      have hpos : 0 < 2 ^ k := Nat.two_pow_pos k
      have hne : n ≠ 0 := by
        rw [hn]
        exact Nat.ne_of_gt (Nat.mul_pos (by omega) hpos)
      refine ⟨hne, (Nat.log2_eq_iff hne).mpr ⟨?_, ?_⟩⟩
      · rw [hn, Nat.pow_add]
        exact Nat.mul_le_mul_right _ hlow
      · rw [hn, show 52 + k + 1 = 53 + k by omega, Nat.pow_add]
        exact Nat.mul_lt_mul_of_pos_right hhigh hpos
  | down k he hm =>
      have hpos : 0 < 2 ^ k := Nat.two_pow_pos k
      have hne : n ≠ 0 := by
        intro h
        rw [h, Nat.zero_mul] at hm
        omega
      refine ⟨hne, (Nat.log2_eq_iff hne).mpr ⟨?_, ?_⟩⟩
      · apply Nat.le_of_mul_le_mul_right _ hpos
        rw [← hm, ← Nat.pow_add, he]
        exact hlow
      · apply Nat.lt_of_mul_lt_mul_right (a := 2 ^ k)
        rw [← hm, ← Nat.pow_add, show e + 1 + k = 53 by omega]
        exact hhigh

theorem roundingExponent_one {n : Nat} (hn : n ≠ 0) :
    roundingExponent n 1 = (n.log2 : Int) - 52 := by
  have hlow := Nat.log2_self_le hn
  have hq : max ((n.log2 : Int) - ((1 : Nat).log2 : Int) - 53) (-1074) = (n.log2 : Int) - 53 := by
    have hone : (1 : Nat).log2 = 0 := by decide
    rw [hone]
    omega
  unfold roundingExponent
  simp only [hq]
  have hbig : 0x20000000000000 ≤
      (scaledQuotient n 1 ((n.log2 : Int) - 53)).1 / (scaledQuotient n 1 ((n.log2 : Int) - 53)).2 := by
    by_cases h : 53 ≤ n.log2
    · rw [show (n.log2 : Int) - 53 = ((n.log2 - 53 : Nat) : Int) by omega]
      show 2 ^ 53 ≤ n / 1 <<< (n.log2 - 53)
      rw [Nat.one_shiftLeft, Nat.le_div_iff_mul_le (Nat.two_pow_pos _), ← Nat.pow_add,
        show 53 + (n.log2 - 53) = n.log2 by omega]
      exact hlow
    · rw [show (n.log2 : Int) - 53 = Int.negSucc (52 - n.log2) by omega]
      show 2 ^ 53 ≤ n <<< (52 - n.log2 + 1) / 1
      rw [Nat.div_one, Nat.shiftLeft_eq]
      calc 2 ^ 53 = 2 ^ n.log2 * 2 ^ (52 - n.log2 + 1) := by
            rw [← Nat.pow_add]
            congr 1
            omega
        _ ≤ n * 2 ^ (52 - n.log2 + 1) := Nat.mul_le_mul_right _ hlow
  rw [if_pos hbig]
  omega

theorem roundQuotient_mul (m : Nat) {d : Nat} (hd : 0 < d) : roundQuotient (m * d) d = m := by
  unfold roundQuotient
  simp only [Nat.mul_mod_left, Nat.mul_div_cancel m hd, Nat.mul_zero]
  rw [if_neg]
  simp only [Bool.or_eq_true, Bool.and_eq_true, decide_eq_true_eq, beq_iff_eq]
  omega

theorem roundQuotient_one (m : Nat) : roundQuotient m 1 = m := by
  have h := roundQuotient_mul m Nat.one_pos
  rwa [Nat.mul_one] at h

/-- The double of an integer with at most 53 significant bits. -/
theorem ofQuotient_shifted (neg : Bool) {n m e : Nat} (h : Shifted n m e) (hlow : 2 ^ 52 ≤ m)
    (hhigh : m < 2 ^ 53) (he : e ≤ 64) :
    ofQuotient neg n 1 = ⟨signBit neg ||| ((e + 1022) * 2 ^ 52 + m).toUInt64⟩ := by
  rcases h.log2_eq hlow hhigh with ⟨hne, hlog⟩
  -- scaled to its last significant bit the integer is its significand, so that nothing is rounded
  have hround : roundQuotient (scaledQuotient n 1 ((e : Int) - 52)).1
      (scaledQuotient n 1 ((e : Int) - 52)).2 = m := by
    cases h with
    | up k hn =>
        rw [show ((52 + k : Nat) : Int) - 52 = (k : Int) by omega]
        show roundQuotient n (1 <<< k) = m
        rw [Nat.one_shiftLeft, hn]
        exact roundQuotient_mul m (Nat.two_pow_pos k)
    | down k hk hm =>
        cases k with
        | zero =>
            rw [show (e : Int) - 52 = ((0 : Nat) : Int) by omega]
            show roundQuotient n (1 <<< 0) = m
            rw [hm, Nat.pow_zero, Nat.mul_one]
            exact roundQuotient_one n
        | succ k =>
            rw [show (e : Int) - 52 = Int.negSucc k by omega]
            show roundQuotient (n <<< (k + 1)) 1 = m
            rw [Nat.shiftLeft_eq, ← hm]
            exact roundQuotient_one m
  unfold ofQuotient
  rw [if_neg (by rw [beq_iff_eq]; exact hne)]
  simp only [roundingExponent_one hne, hlog, hround]
  have hmag : ((e : Int) - 52 + 1074).toNat <<< 52 + m = (e + 1022) * 2 ^ 52 + m := by
    rw [Nat.shiftLeft_eq]
    congr 2
    omega
  have hsmall : (e + 1022) * 2 ^ 52 + m < infinityBits.toNat := by
    show (e + 1022) * 2 ^ 52 + m < 9218868437227405312
    omega
  rw [if_neg (by omega), hmag, if_pos hsmall]
  rfl

/-!
# From a double to its integer and back
-/

/-- The integer of a sign and an absolute value. -/
def signed (neg : Bool) (n : Nat) : Int := if neg then -(n : Int) else n

theorem natAbs_signed (neg : Bool) (n : Nat) : (signed neg n).natAbs = n := by
  cases neg with
  | false => exact Int.natAbs_natCast n
  | true =>
      show (-(n : Int)).natAbs = n
      rw [Int.natAbs_neg, Int.natAbs_natCast]

theorem signed_lt (neg : Bool) {n : Nat} (hn : n ≠ 0) : decide (signed neg n < 0) = neg := by
  cases neg with
  | false => exact decide_eq_false (by show ¬ (n : Int) < 0; omega)
  | true => exact decide_eq_true (by show -(n : Int) < 0; omega)

theorem toInt?_eq {x : Double} (hfinite : x.isFinite = true) :
    x.toInt? = (match x.exponent with
      | .ofNat k => some (x.significand * 2 ^ k)
      | .negSucc k =>
        if x.significand % 2 ^ (k + 1) = 0 then some (x.significand / 2 ^ (k + 1)) else none).map
        (signed x.negative) := by
  unfold toInt?
  rw [hfinite]
  simp only [Bool.not_true, Bool.false_eq_true, if_false, Nat.shiftLeft_eq,
    Nat.one_mul, Nat.shiftRight_eq_div_pow, beq_iff_eq]
  cases x.exponent with
  | ofNat k => rfl
  | negSucc k =>
      by_cases h : x.significand % 2 ^ (k + 1) = 0
      · simp only [if_pos h]
        rfl
      · simp only [if_neg h]
        rfl

theorem toInt?_eq_none {x : Double} (h : x.isFinite = false) : x.toInt? = none := by
  unfold toInt?
  rw [h]
  rfl

theorem isFinite_of_toInt? {x : Double} {z : Int} (h : x.toInt? = some z) : x.isFinite = true := by
  cases hfinite : x.isFinite with
  | true => rfl
  | false =>
      rw [toInt?_eq_none hfinite] at h
      cases h

/-- A double that denotes an integer is a zero, or its significand shifted is
that integer. -/
theorem shifted_of_toInt? {x : Double} {z : Int} (h : x.toInt? = some z) :
    exists n, z = signed x.negative n ∧
      ((n = 0 ∧ x.magnitude.toNat = 0) ∨
        (1023 ≤ x.magnitude.toNat / 2 ^ 52 ∧
          Shifted n (x.magnitude.toNat % 2 ^ 52 + 2 ^ 52)
            (x.magnitude.toNat / 2 ^ 52 - 1023))) := by
  rw [toInt?_eq (isFinite_of_toInt? h), significand_eq, exponent_eq] at h
  by_cases he : x.magnitude.toNat / 2 ^ 52 = 0
  · -- a subnormal number is below one
    have hexp : exists k, (-1074 : Int) = Int.negSucc k ∧ 52 ≤ k + 1 := ⟨1073, rfl, by decide⟩
    rcases hexp with ⟨k, hexp, hk⟩
    rw [if_pos he, if_pos he, hexp] at h
    have hsmall : x.magnitude.toNat % 2 ^ 52 < 2 ^ (k + 1) :=
      Nat.lt_of_lt_of_le (Nat.mod_lt _ (by decide)) (Nat.pow_le_pow_right (by decide) hk)
    simp only [Nat.mod_eq_of_lt hsmall, Nat.div_eq_of_lt hsmall] at h
    by_cases hf : x.magnitude.toNat % 2 ^ 52 = 0
    · rw [if_pos hf] at h
      exact ⟨0, (Option.some.inj h).symm, Or.inl ⟨rfl, by omega⟩⟩
    · rw [if_neg hf] at h
      cases h
  · rw [if_neg he, if_neg he] at h
    -- the bits behind the point are none, or all zero
    by_cases hup : 1075 ≤ x.magnitude.toNat / 2 ^ 52
    · rw [show ((x.magnitude.toNat / 2 ^ 52 : Nat) : Int) - 1075 =
        ((x.magnitude.toNat / 2 ^ 52 - 1075 : Nat) : Int) by omega] at h
      refine ⟨_, (Option.some.inj h).symm, Or.inr ⟨by omega, ?_⟩⟩
      have hshift := Shifted.up (m := x.magnitude.toNat % 2 ^ 52 + 2 ^ 52)
        (x.magnitude.toNat / 2 ^ 52 - 1075) rfl
      rwa [show 52 + (x.magnitude.toNat / 2 ^ 52 - 1075) = x.magnitude.toNat / 2 ^ 52 - 1023
        by omega] at hshift
    · rw [show ((x.magnitude.toNat / 2 ^ 52 : Nat) : Int) - 1075 =
        Int.negSucc (1074 - x.magnitude.toNat / 2 ^ 52) by omega] at h
      simp only at h
      generalize hk : 1074 - x.magnitude.toNat / 2 ^ 52 = k at h
      generalize hm : x.magnitude.toNat % 2 ^ 52 + 2 ^ 52 = m at h ⊢
      by_cases hdvd : m % 2 ^ (k + 1) = 0
      · rw [if_pos hdvd] at h
        have hmul : m = m / 2 ^ (k + 1) * 2 ^ (k + 1) :=
          (Nat.div_mul_cancel (Nat.dvd_of_mod_eq_zero hdvd)).symm
        have hle : k + 1 ≤ 52 := by
          by_contra hgt
          have hpow : 2 ^ 53 ≤ 2 ^ (k + 1) := Nat.pow_le_pow_right (by decide) (by omega)
          have hlt : m % 2 ^ (k + 1) = m := Nat.mod_eq_of_lt (by omega)
          omega
        refine ⟨_, (Option.some.inj h).symm, Or.inr ⟨by omega, ?_⟩⟩
        exact Shifted.down (k + 1) (by omega) hmul
      · rw [if_neg hdvd] at h
        cases h

/-- A 64-bit integer is the integer that the double denotes, and the double is
below `2 ^ 64`. -/
theorem toInt?_of_toInt64? {x : Double} {i : Int64} (h : x.toInt64? = some i) :
    x.toInt? = some i.toInt ∧ x.magnitude.toNat < 0x43f0000000000000 := by
  unfold toInt64? at h
  by_cases hbig : 0x43f0000000000000 ≤ x.magnitude
  · rw [if_pos hbig] at h
    cases h
  · rw [if_neg hbig] at h
    rw [UInt64.le_iff_toNat_le] at hbig
    cases hz : x.toInt? with
    | none =>
        rw [hz] at h
        cases h
    | some z =>
        rw [hz] at h
        simp only [Bool.and_eq_true, decide_eq_true_eq] at h
        by_cases hrange : -0x8000000000000000 ≤ z ∧ z < 0x8000000000000000
        · rw [if_pos hrange] at h
          rw [← Option.some.inj h, Int64.toInt_ofInt_of_le hrange.1 hrange.2]
          exact ⟨rfl, Nat.lt_of_not_le hbig⟩
        · rw [if_neg hrange] at h
          cases h

/-- The double nearest to the integer that a double denotes is that double,
unless it is the negative zero. -/
theorem ofInt64_of_toInt64? {x : Double} {i : Int64} (h : x.toInt64? = some i)
    (hzero : x.isZero = true -> x = zero) : ofInt64 i = x := by
  rcases toInt?_of_toInt64? h with ⟨hint, hmag⟩
  unfold ofInt64 ofInt
  rcases shifted_of_toInt? hint with ⟨n, hn, ⟨h0, hmag0⟩ | ⟨hnormal, hshift⟩⟩
  · have hx : x = zero := hzero (isZero_iff_magnitude.mpr hmag0)
    have hneg : forall neg, signed neg 0 = 0 := by
      intro neg
      cases neg <;> rfl
    rw [hn, h0, hneg, hx]
    rfl
  · have hlow : 2 ^ 52 ≤ x.magnitude.toNat % 2 ^ 52 + 2 ^ 52 := Nat.le_add_left _ _
    have hhigh : x.magnitude.toNat % 2 ^ 52 + 2 ^ 52 < 2 ^ 53 := by omega
    have hpos : n ≠ 0 := (hshift.log2_eq hlow hhigh).1
    rw [hn, natAbs_signed, signed_lt x.negative hpos,
      ofQuotient_shifted x.negative hshift hlow hhigh (by omega)]
    have hsame : (x.magnitude.toNat / 2 ^ 52 - 1023 + 1022) * 2 ^ 52 +
        (x.magnitude.toNat % 2 ^ 52 + 2 ^ 52) = x.magnitude.toNat := by
      have hsum := Nat.div_add_mod x.magnitude.toNat (2 ^ 52)
      generalize x.magnitude.toNat / 2 ^ 52 = e at hnormal hsum ⊢
      rw [show e - 1023 + 1022 = e - 1 by omega, Nat.sub_mul]
      omega
    rw [hsame, show x.magnitude.toNat.toUInt64 = x.magnitude from UInt64.ofNat_toNat]
    exact (eq_of_parts x).symm

/-!
# From a small integer to its double and back
-/

theorem toInt?_of_shifted {x : Double} {n : Nat} (hfinite : x.isFinite = true)
    (hnormal : 1023 ≤ x.magnitude.toNat / 2 ^ 52)
    (hshift : Shifted n (x.magnitude.toNat % 2 ^ 52 + 2 ^ 52)
      (x.magnitude.toNat / 2 ^ 52 - 1023)) : x.toInt? = some (signed x.negative n) := by
  rw [toInt?_eq hfinite, significand_eq, exponent_eq, if_neg (by omega), if_neg (by omega)]
  generalize x.magnitude.toNat % 2 ^ 52 + 2 ^ 52 = m at hshift ⊢
  generalize x.magnitude.toNat / 2 ^ 52 = e at hshift hnormal ⊢
  generalize he : e - 1023 = d at hshift
  cases hshift with
  | up k hn =>
      rw [show (e : Int) - 1075 = (k : Int) by omega, hn]
      rfl
  | down k hk hm =>
      cases k with
      | zero =>
          rw [show (e : Int) - 1075 = ((0 : Nat) : Int) by omega]
          rw [Nat.pow_zero, Nat.mul_one] at hm
          show some (signed x.negative (m * 2 ^ 0)) = _
          rw [Nat.pow_zero, Nat.mul_one, hm]
      | succ k =>
          rw [show (e : Int) - 1075 = Int.negSucc k by omega]
          have hpos : 0 < 2 ^ (k + 1) := Nat.two_pow_pos _
          simp only [hm, Nat.mul_mod_left, Nat.mul_div_cancel n hpos]
          rfl

theorem exists_shifted {n : Nat} (hn : n ≠ 0) (hle : n ≤ 2 ^ 53) :
    exists m, Shifted n m n.log2 ∧ 2 ^ 52 ≤ m ∧ m < 2 ^ 53 ∧ n.log2 ≤ 53 := by
  have hlow := Nat.log2_self_le hn
  have hhigh : n < 2 ^ (n.log2 + 1) := Nat.lt_log2_self
  by_cases hlog : n.log2 ≤ 52
  · refine ⟨n * 2 ^ (52 - n.log2), Shifted.down (52 - n.log2) (by omega) rfl, ?_, ?_, by omega⟩
    · calc 2 ^ 52 = 2 ^ n.log2 * 2 ^ (52 - n.log2) := by
            rw [← Nat.pow_add]
            congr 1
            omega
        _ ≤ n * 2 ^ (52 - n.log2) := Nat.mul_le_mul_right _ hlow
    · calc n * 2 ^ (52 - n.log2) < 2 ^ (n.log2 + 1) * 2 ^ (52 - n.log2) :=
            Nat.mul_lt_mul_of_pos_right hhigh (Nat.two_pow_pos _)
        _ = 2 ^ 53 := by
            rw [← Nat.pow_add]
            congr 1
            omega
  · have hpow : 2 ^ 53 ≤ 2 ^ n.log2 := Nat.pow_le_pow_right (by decide) (by omega)
    have heq : n = 2 ^ 53 := by omega
    subst heq
    refine ⟨2 ^ 52, ?_, Nat.le_refl _, by decide, by rw [Nat.log2_two_pow]⟩
    rw [Nat.log2_two_pow]
    exact Shifted.up 1 (by decide)

theorem toInt64?_of_isZero {x : Double} (h : x.isZero = true) : x.toInt64? = some 0 := by
  have hmag : x.magnitude = 0 := UInt64.toNat_inj.mp (isZero_iff_magnitude.mp h)
  have hfinite : x.isFinite = true := isFinite_of_isZero h
  have hsignificand : x.significand = 0 := by
    rw [significand_eq, hmag]
    rfl
  have hexponent : exists k, x.exponent = Int.negSucc k := by
    refine ⟨1073, ?_⟩
    rw [exponent_eq, hmag]
    rfl
  have hint : x.toInt? = some 0 := by
    rcases hexponent with ⟨k, hexponent⟩
    rw [toInt?_eq hfinite, hexponent, hsignificand]
    simp only [Nat.zero_mod, Nat.zero_div, if_true, Option.map_some]
    cases x.negative <;> rfl
  unfold toInt64?
  rw [hmag, if_neg (by decide), hint]
  rfl

theorem toInt64?_zero : (ofInt64 0).toInt64? = some 0 := toInt64?_of_isZero rfl

/-- No integer up to `2 ^ 53` is rounded. -/
theorem toInt64?_ofInt64 {i : Int64} (h : i.toInt.natAbs ≤ 2 ^ 53) :
    (ofInt64 i).toInt64? = some i := by
  by_cases h0 : i = 0
  · subst h0
    exact toInt64?_zero
  · have hn : i.toInt.natAbs ≠ 0 := by
      intro hzero
      apply h0
      rw [← Int64.toInt_inj]
      exact Int.natAbs_eq_zero.mp hzero
    -- the sign, the exponent and the significand of the double are put together from those of the
    -- integer
    rcases exists_shifted hn h with ⟨m, hshift, hlow, hhigh, hlog⟩
    generalize hneg : decide (i.toInt < 0) = neg
    generalize hM : (i.toInt.natAbs.log2 + 1022) * 2 ^ 52 + m = M
    have hsigned : signed neg i.toInt.natAbs = i.toInt := by
      rw [← hneg]
      unfold signed
      by_cases hi : i.toInt < 0
      · rw [if_pos (decide_eq_true hi)]
        omega
      · rw [if_neg (by rw [decide_eq_true_eq]; exact hi)]
        omega
    have hlt : M < 2 ^ 63 := by omega
    have htoNat : M.toUInt64.toNat = M :=
      UInt64.toNat_ofNat_of_lt' (Nat.lt_trans hlt (by decide))
    have hx : ofInt64 i = ⟨signBit neg ||| M.toUInt64⟩ := by
      unfold ofInt64 ofInt
      rw [hneg, ofQuotient_shifted neg hshift hlow hhigh (by omega), hM]
    have hmag : (ofInt64 i).magnitude.toNat = M := by
      rw [hx, magnitude_ofParts neg (by rw [htoNat]; exact hlt), htoNat]
    have hnegative : (ofInt64 i).negative = neg := by
      rw [hx, negative_ofParts neg (by rw [htoNat]; exact hlt)]
    have hfinite : (ofInt64 i).isFinite = true := by
      rw [isFinite_iff, toNat_infinityBits, hmag]
      omega
    have hint : (ofInt64 i).toInt? = some i.toInt := by
      rw [← hsigned, ← hnegative]
      apply toInt?_of_shifted hfinite
      · rw [hmag]
        omega
      · rw [hmag]
        have hdiv : M / 2 ^ 52 - 1023 = i.toInt.natAbs.log2 := by omega
        have hmod : M % 2 ^ 52 + 2 ^ 52 = m := by omega
        rw [hdiv, hmod]
        exact hshift
    unfold toInt64?
    have hbound : -0x8000000000000000 ≤ i.toInt ∧ i.toInt < 0x8000000000000000 :=
      ⟨Int64.le_toInt i, Int64.toInt_lt i⟩
    rw [if_neg, hint]
    · simp only [Bool.and_eq_true, decide_eq_true_eq]
      rw [if_pos hbound, Int64.ofInt_toInt]
    · rw [UInt64.le_iff_toNat_le, hmag]
      show ¬ 4895412794951729152 ≤ M
      omega

end Double

end LuaHost
